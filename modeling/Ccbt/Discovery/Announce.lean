import Ccbt.Core.Torrent
import Ccbt.Discovery.ClosestNodes

/-!
# Lookups of peers and announcements

`get_peers` and `announce_peer` of the DHT client as calls that run in turns: a call runs
until it awaits the answer to a query, and other calls, their answers, the cleanup and other
lookups come in between. The token of a hash is the one that the last answer with a token
left, whichever node that came from; an announcement sends it to all nodes close to the hash.

The log keeps what came and what went, newest first; the client never reads it.
-/

namespace Ccbt

open Python Transition Torrent

namespace Discovery

section Responses

def isResponse (message : PyDict) : Bool :=
  match getKey message "y" with
  | some (.bytes y) => y = ascii "r"
  | _ => false

/-- `message.get(b"r", {})`, when keys can be asked for in it. -/
def responseDict (message : PyDict) : Option PyDict :=
  match (getKey message "r").getD (.dict []) with
  | .dict r => some r
  | _ => none

def dotted (data : Bytes) : Str := ['.'].intercalate (data.map fun b => strInt b.toNat)

def compactPeer (value : Bytes) : Str × Nat :=
  (dotted (slice value 0 4), ofBigEndian (slice value 4 6))

/-- The loop over `values`, which stops once enough peers are there. -/
def takePeers (max_peers : Int) : List PyObj → List (Str × Nat) → List (Str × Nat)
  | [], peers => peers
  | .bytes value :: values, peers =>
    if value.length = 6 then
      let peers := peers ++ [compactPeer value]
      if max_peers ≤ peers.length then peers else takePeers max_peers values peers
    else takePeers max_peers values peers
  | _ :: values, peers => takePeers max_peers values peers

/-- 20 bytes of id, 4 of address and 2 of port; a shorter rest is not read. -/
def compactNode (now : Time) (node_data : Bytes) : Option DHTNode :=
  if h : node_data.length = 26 then
    some {
      node_id := ⟨node_data.take 20, by rw [List.length_take, h]; rfl⟩
      ip := dotted (slice node_data 20 24)
      port := ofBigEndian (slice node_data 24 26)
      last_seen := now }
  else none

/-- The nodes to file for `r.get(b"nodes", b"")`, or `none` when an exception is raised.
Other objects than byte strings do no harm as long as they are false or too short. -/
def receivedNodes (now : Time) : PyObj → Option (List DHTNode)
  | .bytes nodes_data => some ((pieces 26 nodes_data).filterMap (compactNode now))
  | nodes_data =>
    if !truth nodes_data then some []
    else
      match pyLen nodes_data with
      | .ok n => if n < 26 then some [] else none
      | .error _ => none

def tokenOf (message : PyDict) : Option PyObj :=
  if isResponse message then (responseDict message).bind fun r => getKey r "token" else none

/-- The token that is stored for a message: the rest of it is in order and the token is not
empty. -/
def takenToken (message : PyDict) : Option PyObj :=
  if isResponse message then
    match responseDict message with
    | none => none
    | some r =>
      match receivedNodes 0 ((getKey r "nodes").getD (.bytes [])) with
      | none => none
      | some _ => (getKey r "token").filter truth
  else none

end Responses

structure DHTToken where
  token : PyObj
  info_hash : Bytes
  created_time : Time
  expires_time : Time

def DHTToken.new (token : PyObj) (info_hash : Bytes) (now : Time) : DHTToken :=
  { token := token, info_hash := info_hash, created_time := now, expires_time := now + 900 }

inductive LogEntry
  /-- A node has answered a `get_peers` query. -/
  | answer (node_id : NodeId) (info_hash : Bytes) (message : PyDict) (time : Time)
  /-- An `announce_peer` query has been sent to a node. -/
  | announce (node_id : NodeId) (info_hash : Bytes) (token : PyObj) (time : Time)

/-- A `get_peers` call: the nodes not asked yet, and the port if it is part of an
announcement. -/
structure Lookup where
  info_hash : Bytes
  max_peers : Int
  nodes : List Nat
  queried_nodes : List NodeId := []
  peers : List (Str × Nat) := []
  announcing : Option Int := none

/-- An `announce_peer` call with its token, and the log when it read the token. -/
structure Announcement where
  info_hash : Bytes
  port : Int
  token : DHTToken
  nodes : List Nat
  success_count : Nat
  read_at : List LogEntry

inductive Call
  | lookup (l : Lookup)
  | lookupQuery (l : Lookup) (node : Nat)
  | announcement (a : Announcement)
  | announceQuery (a : Announcement) (node : Nat)
  | foundPeers (peers : List (Str × Nat))
  | announced (success : Bool)

/-- How `_send_query` ends. -/
inductive Outcome
  | message (m : PyDict)
  | timeout
  | raised

/-- The routing table and the node objects that have been made. -/
structure NodeStore where
  table : KademliaRoutingTable Nat
  created : Nat
  fresh : ∀ id r, table.nodes.get? id = some r → r < created

namespace NodeStore

def addNode (s : NodeStore) (node : DHTNode) : NodeStore :=
  let table := s.table.create s.created node fun id h => lt_irrefl _ (s.fresh id _ h)
  { table := (table.addNode s.created).2
    created := s.created + 1
    fresh := fun id r h => by
      rcases KademliaRoutingTable.get?_addNode h with rfl | h
      · exact Nat.lt_succ_self _
      · exact Nat.lt_succ_of_lt (s.fresh id r h) }

def removeNode (s : NodeStore) (node_id : NodeId) : NodeStore :=
  { s with
    table := s.table.removeNode node_id
    fresh := fun id r h => s.fresh id r (KademliaRoutingTable.get?_removeNode h) }

def markNodeBad (s : NodeStore) (node_id : NodeId) : NodeStore :=
  { s with
    table := s.table.markNodeBad node_id
    fresh := fun id r h => s.fresh id r (by rwa [KademliaRoutingTable.nodes_markNodeBad] at h) }

def markNodeGood (s : NodeStore) (node_id : NodeId) : NodeStore :=
  { s with
    table := s.table.markNodeGood node_id
    fresh := fun id r h => s.fresh id r (by rwa [KademliaRoutingTable.nodes_markNodeGood] at h) }

end NodeStore

structure AsyncDHTClient where
  nodes : NodeStore
  tokens : Dict Bytes DHTToken
  is_private_torrent : Bytes → Bool
  now : Time
  calls : List Call
  log : List LogEntry

inductive ClientEvent
  | clock (time : Time)
  | get_peers (info_hash : Bytes) (max_peers : Int)
  | announce_peer (info_hash : Bytes) (port : Int)
  /-- A call goes on to its next query, or ends. -/
  | resume (call : Nat)
  | answer (call : Nat) (outcome : Outcome)
  /-- `_cleanup_old_data` -/
  | cleanup
  /-- Another lookup files what it was told. -/
  | find_nodes (nodes : List DHTNode)

namespace AsyncDHTClient

/-- A client that has a routing table and nothing else yet. -/
def start (nodes : NodeStore) (is_private_torrent : Bytes → Bool) (now : Time) :
    AsyncDHTClient where
  nodes := nodes
  tokens := .empty
  is_private_torrent := is_private_torrent
  now := now
  calls := []
  log := []

def nodeId (c : AsyncDHTClient) (node : Nat) : NodeId := (c.nodes.table.node node).node_id

def setCall (c : AsyncDHTClient) (i : Nat) (call : Call) : AsyncDHTClient :=
  { c with calls := c.calls.set i call }

def addCall (c : AsyncDHTClient) (call : Call) : AsyncDHTClient :=
  { c with calls := c.calls ++ [call] }

def markNodeBad (c : AsyncDHTClient) (node : Nat) : AsyncDHTClient :=
  { c with nodes := c.nodes.markNodeBad (c.nodeId node) }

def markNodeGood (c : AsyncDHTClient) (node : Nat) : AsyncDHTClient :=
  { c with nodes := c.nodes.markNodeGood (c.nodeId node) }

def closestNodes (c : AsyncDHTClient) (info_hash : Bytes) : List Nat :=
  c.nodes.table.getClosestNodes info_hash 8

def getPeers (c : AsyncDHTClient) (info_hash : Bytes) (max_peers : Int) (announcing : Option Int) :
    Call :=
  if c.is_private_torrent info_hash then .foundPeers []
  else .lookup {
    info_hash := info_hash
    max_peers := max_peers
    nodes := c.closestNodes info_hash
    announcing := announcing }

/-- `announce_peer` from where it reads its token. -/
def readToken (c : AsyncDHTClient) (info_hash : Bytes) (port : Int) : AsyncDHTClient × Call :=
  match c.tokens.get? info_hash with
  | none => (c, .announced false)
  | some token =>
    if token.expires_time < c.now then
      ({ c with tokens := c.tokens.erase info_hash }, .announced false)
    else (c, .announcement {
      info_hash := info_hash
      port := port
      token := token
      nodes := c.closestNodes info_hash
      success_count := 0
      read_at := c.log })

def announcePeer (c : AsyncDHTClient) (info_hash : Bytes) (port : Int) : AsyncDHTClient × Call :=
  if c.is_private_torrent info_hash then (c, .announced false)
  else
    match c.tokens.get? info_hash with
    | none => (c, c.getPeers info_hash 1 (some port))
    | some _ => c.readToken info_hash port

def handlePeers (c : AsyncDHTClient) (l : Lookup) (node : Nat) (message : PyDict) :
    AsyncDHTClient × Lookup :=
  if isResponse message then
    match responseDict message with
    | none => (c.markNodeBad node, l)
    | some r =>
      let peers := match (getKey r "values").getD (.list []) with
        | .list values => takePeers l.max_peers values l.peers
        | _ => l.peers
      let l := { l with peers := peers }
      -- the peers stay if the nodes raise an exception, and the token is not reached
      match receivedNodes c.now ((getKey r "nodes").getD (.bytes [])) with
      | none => (c.markNodeBad node, l)
      | some nodes =>
        let filed := { c with nodes := nodes.foldl NodeStore.addNode c.nodes }
        let stored := match (getKey r "token").filter truth with
          | some token =>
            { filed with tokens := filed.tokens.set l.info_hash (.new token l.info_hash c.now) }
          | none => filed
        (stored.markNodeGood node, l)
  else (c, l)

/-- Call `i` goes on. -/
def resume (c : AsyncDHTClient) (i : Nat) : AsyncDHTClient :=
  match c.calls[i]? with
  | some (.lookup l) =>
    match l.nodes with
    | [] =>
      match l.announcing with
      | none => c.setCall i (.foundPeers l.peers)
      | some port => (c.readToken l.info_hash port).1.setCall i (c.readToken l.info_hash port).2
    | node :: nodes =>
      -- a node that has been asked is skipped without a query
      if c.nodeId node ∈ l.queried_nodes then c.setCall i (.lookup { l with nodes := nodes })
      else c.setCall i (.lookupQuery { l with
        nodes := nodes
        queried_nodes := c.nodeId node :: l.queried_nodes } node)
  | some (.announcement a) =>
    match a.nodes with
    -- one node that has accepted the announcement is enough
    | [] => c.setCall i (.announced (decide (0 < a.success_count)))
    | node :: nodes => { c.setCall i (.announceQuery { a with nodes := nodes } node) with
        log := .announce (c.nodeId node) a.info_hash a.token.token c.now :: c.log }
  | _ => c

/-- The query that call `i` has sent ends. -/
def answer (c : AsyncDHTClient) (i : Nat) (outcome : Outcome) : AsyncDHTClient :=
  match c.calls[i]? with
  | some (.lookupQuery l node) =>
    match outcome with
    | .message m =>
      let handled := c.handlePeers l node m
      { handled.1.setCall i (.lookup handled.2) with
        log := .answer (c.nodeId node) l.info_hash m c.now :: c.log }
    | .timeout => c.setCall i (.lookup l)
    | .raised => (c.markNodeBad node).setCall i (.lookup l)
  | some (.announceQuery a node) =>
    match outcome with
    | .message m =>
      if isResponse m then
        (c.markNodeGood node).setCall i
          (.announcement { a with success_count := a.success_count + 1 })
      else (c.markNodeBad node).setCall i (.announcement a)
    | _ => (c.markNodeBad node).setCall i (.announcement a)
  | _ => c

def cleanup (c : AsyncDHTClient) : AsyncDHTClient :=
  let expired_tokens := (c.tokens.entries.filter fun e => e.2.expires_time < c.now).map Prod.fst
  let bad_nodes := (c.nodes.table.nodes.entries.filter fun e =>
    !(c.nodes.table.node e.2).is_good && 3 ≤ (c.nodes.table.node e.2).failed_queries).map Prod.fst
  { c with
    tokens := expired_tokens.foldl Dict.erase c.tokens
    nodes := bad_nodes.foldl NodeStore.removeNode c.nodes }

def step (c : AsyncDHTClient) : ClientEvent → AsyncDHTClient
  | .clock time => { c with now := time }
  | .get_peers info_hash max_peers => c.addCall (c.getPeers info_hash max_peers none)
  | .announce_peer info_hash port =>
    (c.announcePeer info_hash port).1.addCall (c.announcePeer info_hash port).2
  | .resume i => c.resume i
  | .answer i outcome => c.answer i outcome
  | .cleanup => c.cleanup
  | .find_nodes nodes => { c with nodes := nodes.foldl NodeStore.addNode c.nodes }

end AsyncDHTClient

/-- Every announcement carries a token that its node has returned for the hash, no longer ago
than a token lives. -/
def OwnTokens : List LogEntry → Prop
  | [] => True
  | .answer _ _ _ _ :: log => OwnTokens log
  | .announce node_id info_hash token time :: log =>
    (∃ message time', .answer node_id info_hash message time' ∈ log ∧
      tokenOf message = some token ∧ time - time' ≤ 900) ∧ OwnTokens log

/-- The token of the last answer for a hash that one was taken from. -/
def lastTaken (info_hash : Bytes) : List LogEntry → Option PyObj
  | [] => none
  | .answer _ info_hash' message _ :: log =>
    if info_hash' = info_hash then (takenToken message).or (lastTaken info_hash log)
    else lastTaken info_hash log
  | .announce _ _ _ _ :: log => lastTaken info_hash log

/-- The call is an announcement. -/
def Call.announcement? : Call → Option Announcement
  | .announcement a => some a
  | .announceQuery a _ => some a
  | _ => none

namespace AsyncDHTClient

/-- Tokens in the table and in announcements are the last ones that were taken. -/
structure Traced (c : AsyncDHTClient) : Prop where
  tokens : ∀ h token, c.tokens.get? h = some token → lastTaken h c.log = some token.token
  calls : ∀ call ∈ c.calls, ∀ a, call.announcement? = some a →
    lastTaken a.info_hash a.read_at = some a.token.token

/-- If an announcement goes on to a node, then this node has answered for the hash with the
token that was the last one taken for it when the announcement read it, and that is no longer
ago than a token lives. -/
def AnnouncesOwn (c : AsyncDHTClient) : ClientEvent → Prop
  | .resume i => ∀ a, c.calls[i]? = some (.announcement a) → ∀ node ∈ a.nodes.head?,
    ∃ message time, .answer (c.nodeId node) a.info_hash message time ∈ c.log ∧
      tokenOf message = lastTaken a.info_hash a.read_at ∧ c.now - time ≤ 900
  | _ => True

section Frames

variable {c : AsyncDHTClient}

@[simp] theorem tokens_markNodeBad (node : Nat) : (c.markNodeBad node).tokens = c.tokens := rfl

@[simp] theorem tokens_markNodeGood (node : Nat) : (c.markNodeGood node).tokens = c.tokens := rfl

@[simp] theorem calls_markNodeBad (node : Nat) : (c.markNodeBad node).calls = c.calls := rfl

@[simp] theorem calls_markNodeGood (node : Nat) : (c.markNodeGood node).calls = c.calls := rfl

@[simp] theorem log_markNodeBad (node : Nat) : (c.markNodeBad node).log = c.log := rfl

@[simp] theorem log_markNodeGood (node : Nat) : (c.markNodeGood node).log = c.log := rfl

@[simp] theorem log_setCall (i : Nat) (call : Call) : (c.setCall i call).log = c.log := rfl

@[simp] theorem log_addCall (call : Call) : (c.addCall call).log = c.log := rfl

theorem log_readToken (h : Bytes) (port : Int) : (c.readToken h port).1.log = c.log := by
  rw [readToken]
  split
  · rfl
  · split <;> rfl

theorem log_announcePeer (h : Bytes) (port : Int) : (c.announcePeer h port).1.log = c.log := by
  rw [announcePeer]
  split
  · rfl
  · split
    · rfl
    · exact log_readToken h port

/-- Whether a list of nodes is received does not depend on the time. -/
theorem receivedNodes_eq_none_iff (now : Time) (data : PyObj) :
    receivedNodes now data = none ↔ receivedNodes 0 data = none := by
  cases data <;> simp only [receivedNodes, reduceCtorEq]

/-- A message changes the token of its hash, and only if one is taken from it. -/
theorem handlePeers_tokens (l : Lookup) (node : Nat) (message : PyDict) :
    (c.handlePeers l node message).1.tokens =
      match takenToken message with
      | some token => c.tokens.set l.info_hash (.new token l.info_hash c.now)
      | none => c.tokens := by
  rw [handlePeers, takenToken]
  by_cases hr : isResponse message = true
  · rw [if_pos hr, if_pos hr]
    cases hdict : responseDict message with
    | none => rfl
    | some r =>
      dsimp only
      cases hnow : receivedNodes c.now ((getKey r "nodes").getD (.bytes [])) with
      | none =>
        rw [(receivedNodes_eq_none_iff _ _).mp hnow]
        rfl
      | some nodes =>
        cases hzero : receivedNodes 0 ((getKey r "nodes").getD (.bytes [])) with
        | none => rw [(receivedNodes_eq_none_iff c.now _).mpr hzero] at hnow; exact nomatch hnow
        | some nodes' =>
          dsimp only
          cases (getKey r "token").filter truth <;> rfl
  · rw [if_neg hr, if_neg hr]

theorem handlePeers_calls (l : Lookup) (node : Nat) (message : PyDict) :
    (c.handlePeers l node message).1.calls = c.calls := by
  rw [handlePeers]
  split
  · split
    · rfl
    · dsimp only
      split
      · rfl
      · split <;> rfl
  · rfl

end Frames

namespace Traced

variable {c : AsyncDHTClient}

/-- Only tokens, calls and log matter. -/
theorem congr (h : c.Traced) {c' : AsyncDHTClient}
    (htokens : ∀ k token, c'.tokens.get? k = some token → c.tokens.get? k = some token)
    (hcalls : c'.calls = c.calls) (hlog : ∀ k, lastTaken k c'.log = lastTaken k c.log) :
    c'.Traced where
  tokens := fun k token hk => by
    rw [hlog]
    exact h.tokens k token (htokens k token hk)
  calls := by
    rw [hcalls]
    exact h.calls

theorem setCall (h : c.Traced) (i : Nat) {call : Call}
    (hcall : ∀ a, call.announcement? = some a →
      lastTaken a.info_hash a.read_at = some a.token.token) : (c.setCall i call).Traced where
  tokens := h.tokens
  calls := fun call' hmem a ha => by
    rcases List.mem_or_eq_of_mem_set hmem with hmem | rfl
    · exact h.calls call' hmem a ha
    · exact hcall a ha

theorem addCall (h : c.Traced) {call : Call}
    (hcall : ∀ a, call.announcement? = some a →
      lastTaken a.info_hash a.read_at = some a.token.token) : (c.addCall call).Traced where
  tokens := h.tokens
  calls := fun call' hmem a ha => by
    rcases List.mem_append.mp hmem with hmem | hmem
    · exact h.calls call' hmem a ha
    · rw [List.mem_singleton.mp hmem] at ha
      exact hcall a ha

/-- What an announcement reads is the last token taken. -/
theorem readToken (h : c.Traced) (k : Bytes) (port : Int) :
    (c.readToken k port).1.Traced ∧ ∀ a, (c.readToken k port).2.announcement? = some a →
      lastTaken a.info_hash a.read_at = some a.token.token := by
  rw [AsyncDHTClient.readToken]
  split
  · exact ⟨h, fun a ha => nomatch ha⟩
  · next token hget =>
    split
    · refine ⟨h.congr (fun k' token' hk' => ?_) rfl fun _ => rfl, fun a ha => nomatch ha⟩
      rw [Dict.get?_erase] at hk'
      split at hk'
      · exact nomatch hk'
      · exact hk'
    · refine ⟨h, fun a ha => ?_⟩
      obtain rfl := Option.some.inj ha
      exact h.tokens k token hget

theorem announcePeer (h : c.Traced) (k : Bytes) (port : Int) :
    (c.announcePeer k port).1.Traced ∧ ∀ a, (c.announcePeer k port).2.announcement? = some a →
      lastTaken a.info_hash a.read_at = some a.token.token := by
  rw [AsyncDHTClient.announcePeer]
  split
  · exact ⟨h, fun a ha => nomatch ha⟩
  · split
    · refine ⟨h, fun a ha => ?_⟩
      rw [AsyncDHTClient.getPeers] at ha
      split at ha <;> exact nomatch ha
    · exact h.readToken k port

/-- An answer is logged together with the token that is taken from it. -/
theorem handlePeers (h : c.Traced) (l : Lookup) (node i : Nat) (message : PyDict) :
    ({ (c.handlePeers l node message).1.setCall i (.lookup (c.handlePeers l node message).2) with
      log := .answer (c.nodeId node) l.info_hash message c.now :: c.log }).Traced where
  tokens := fun k token hk => by
    change (c.handlePeers l node message).1.tokens.get? k = some token at hk
    rw [handlePeers_tokens] at hk
    rw [lastTaken]
    cases htaken : takenToken message with
    | none =>
      rw [htaken] at hk
      rw [Option.none_or, ite_self]
      exact h.tokens k token hk
    | some taken =>
      rw [htaken, Dict.get?_set] at hk
      by_cases hkey : k = l.info_hash
      · rw [if_pos hkey] at hk
        rw [if_pos hkey.symm, Option.some_or, ← Option.some.inj hk, DHTToken.new]
      · rw [if_neg hkey] at hk
        rw [if_neg (Ne.symm hkey)]
        exact h.tokens k token hk
  calls := fun call hmem a ha => by
    change call ∈ (c.handlePeers l node message).1.calls.set i _ at hmem
    rw [handlePeers_calls] at hmem
    rcases List.mem_or_eq_of_mem_set hmem with hmem | rfl
    · exact h.calls call hmem a ha
    · exact nomatch ha

theorem answer (h : c.Traced) (i : Nat) (outcome : Outcome) : (c.answer i outcome).Traced := by
  have hgood : ∀ node, (c.markNodeGood node).Traced :=
    fun node => h.congr (fun _ _ hk => hk) rfl fun _ => rfl
  have hbad : ∀ node, (c.markNodeBad node).Traced :=
    fun node => h.congr (fun _ _ hk => hk) rfl fun _ => rfl
  cases hcall : c.calls[i]? with
  | none => rw [AsyncDHTClient.answer, hcall]; exact h
  | some call =>
    have hold := h.calls call (List.mem_of_getElem? hcall)
    rw [AsyncDHTClient.answer, hcall]
    cases call with
    | lookupQuery l node =>
      cases outcome with
      | message m => exact h.handlePeers l node i m
      | timeout => exact h.setCall i fun a ha => nomatch ha
      | raised => exact (hbad node).setCall i fun a ha => nomatch ha
    | announceQuery a node =>
      have hnext : ∀ b a', (Call.announcement { a with success_count := b }).announcement? =
          some a' → lastTaken a'.info_hash a'.read_at = some a'.token.token := by
        intro b a' ha'
        rw [← Option.some.inj ha']
        exact hold a rfl
      cases outcome with
      | message m =>
        dsimp only
        split
        · exact (hgood node).setCall i (hnext _)
        · exact (hbad node).setCall i (hnext _)
      | timeout => exact (hbad node).setCall i (hnext _)
      | raised => exact (hbad node).setCall i (hnext _)
    | lookup l => exact h
    | announcement a => exact h
    | foundPeers peers => exact h
    | announced success => exact h

theorem resume (h : c.Traced) (i : Nat) : (c.resume i).Traced := by
  cases hcall : c.calls[i]? with
  | none => rw [AsyncDHTClient.resume, hcall]; exact h
  | some call =>
    have hold := h.calls call (List.mem_of_getElem? hcall)
    rw [AsyncDHTClient.resume, hcall]
    cases call with
    | lookup l =>
      dsimp only
      split
      · split
        · exact h.setCall i fun a ha => nomatch ha
        · next port _ =>
          obtain ⟨htraced, hread⟩ := h.readToken l.info_hash port
          exact htraced.setCall i hread
      · split
        · exact h.setCall i fun a ha => nomatch ha
        · exact h.setCall i fun a ha => nomatch ha
    | announcement a =>
      dsimp only
      split
      · exact h.setCall i fun a ha => nomatch ha
      · next node nodes _ =>
        have hset : (c.setCall i (.announceQuery { a with nodes := nodes } node)).Traced := by
          refine h.setCall i fun a' ha' => ?_
          rw [← Option.some.inj ha']
          exact hold a rfl
        exact hset.congr (fun _ _ hk => hk) rfl fun _ => rfl
    | lookupQuery l node => exact h
    | announceQuery a node => exact h
    | foundPeers peers => exact h
    | announced success => exact h

theorem cleanup (h : c.Traced) : c.cleanup.Traced := by
  refine h.congr (fun k token hk => ?_) rfl fun _ => rfl
  rw [AsyncDHTClient.cleanup, Dict.get?_foldl_erase] at hk
  split at hk
  · exact nomatch hk
  · exact hk

theorem step (h : c.Traced) (e : ClientEvent) : (c.step e).Traced := by
  cases e with
  | clock time => exact h.congr (fun _ _ hk => hk) rfl fun _ => rfl
  | get_peers k max_peers =>
    refine h.addCall fun a ha => ?_
    rw [getPeers] at ha
    split at ha <;> exact nomatch ha
  | announce_peer k port =>
    obtain ⟨htraced, hread⟩ := h.announcePeer k port
    exact htraced.addCall hread
  | resume i => exact h.resume i
  | answer i outcome => exact h.answer i outcome
  | cleanup => exact h.cleanup
  | find_nodes nodes => exact h.congr (fun _ _ hk => hk) rfl fun _ => rfl

end Traced

theorem ownTokens_answer {c : AsyncDHTClient} (i : Nat) (outcome : Outcome) :
    OwnTokens (c.answer i outcome).log ↔ OwnTokens c.log := by
  rw [answer]
  split
  · cases outcome <;> exact Iff.rfl
  · cases outcome with
    | message m =>
      dsimp only
      split <;> exact Iff.rfl
    | timeout => exact Iff.rfl
    | raised => exact Iff.rfl
  · exact Iff.rfl

/-- Only going on with an announcement matters, and there it is the condition that decides. -/
theorem ownTokens_resume {c : AsyncDHTClient} (h : c.Traced) (hown : OwnTokens c.log) (i : Nat) :
    OwnTokens (c.resume i).log ↔ c.AnnouncesOwn (.resume i) := by
  rw [resume, AnnouncesOwn]
  cases hcall : c.calls[i]? with
  | none => exact iff_of_true hown fun a ha => nomatch ha
  | some call =>
    cases call with
    | lookup l =>
      refine iff_of_true ?_ fun a ha => nomatch ha
      dsimp only
      split
      · split
        · exact hown
        · rw [log_setCall, log_readToken]
          exact hown
      · split <;> exact hown
    | announcement a =>
      have hread := h.calls _ (List.mem_of_getElem? hcall) a rfl
      dsimp only
      cases hnodes : a.nodes with
      | nil =>
        refine iff_of_true hown fun a' ha' node hnode => ?_
        obtain rfl := Call.announcement.inj (Option.some.inj ha')
        rw [hnodes] at hnode
        exact nomatch hnode
      | cons node nodes =>
        dsimp only
        rw [OwnTokens, and_iff_left hown]
        -- the token that is sent is the one that the announcement has read
        constructor
        · rintro ⟨message, time, hmem, htoken, htime⟩ a' ha' node' hnode'
          obtain rfl := Call.announcement.inj (Option.some.inj ha')
          rw [hnodes] at hnode'
          obtain rfl := Option.some.inj hnode'
          exact ⟨message, time, hmem, htoken.trans hread.symm, htime⟩
        · intro hmeets
          obtain ⟨message, time, hmem, htoken, htime⟩ := hmeets a rfl node (by rw [hnodes]; rfl)
          exact ⟨message, time, hmem, htoken.trans hread, htime⟩
    | lookupQuery l node => exact iff_of_true hown fun a ha => nomatch ha
    | announceQuery a node => exact iff_of_true hown fun a' ha => nomatch ha
    | foundPeers peers => exact iff_of_true hown fun a ha => nomatch ha
    | announced success => exact iff_of_true hown fun a ha => nomatch ha

theorem ownTokens_step {c : AsyncDHTClient} (h : c.Traced) (hown : OwnTokens c.log)
    (e : ClientEvent) : OwnTokens (c.step e).log ↔ c.AnnouncesOwn e := by
  cases e with
  | clock time => exact iff_of_true hown trivial
  | get_peers k max_peers => exact iff_of_true hown trivial
  | announce_peer k port =>
    refine iff_of_true ?_ trivial
    rw [step, log_addCall, log_announcePeer]
    exact hown
  | resume i => exact ownTokens_resume h hown i
  | answer i outcome => exact iff_of_true ((ownTokens_answer i outcome).mpr hown) trivial
  | cleanup => exact iff_of_true hown trivial
  | find_nodes nodes => exact iff_of_true hown trivial

theorem traced_start (nodes : NodeStore) (is_private_torrent : Bytes → Bool) (now : Time) :
    (start nodes is_private_torrent now).Traced where
  tokens := fun _ _ h => nomatch h
  calls := fun _ h => nomatch h

/-- In every run of calls, all announcements carry tokens of their nodes exactly if whenever an
announcement goes on to a node, this node has returned the token itself that was taken last. -/
theorem always_ownTokens_iff (nodes : NodeStore) (is_private_torrent : Bytes → Bool) (now : Time)
    (es : List ClientEvent) :
    Always step (fun c => OwnTokens c.log) (start nodes is_private_torrent now) es ↔
      StepsMeet step AnnouncesOwn (start nodes is_private_torrent now) es := by
  have hC : ∀ (c : AsyncDHTClient) (e : ClientEvent), c.Traced ∧ OwnTokens c.log →
      OwnTokens (c.step e).log → c.AnnouncesOwn e :=
    fun c e h hown => (ownTokens_step h.1 h.2 e).mp hown
  have hstep : ∀ (c : AsyncDHTClient) (e : ClientEvent), c.Traced ∧ OwnTokens c.log →
      c.AnnouncesOwn e → (c.step e).Traced ∧ OwnTokens (c.step e).log :=
    fun c e h hmeets => ⟨h.1.step e, (ownTokens_step h.1 h.2 e).mpr hmeets⟩
  have hP : ∀ c : AsyncDHTClient, c.Traced ∧ OwnTokens c.log → OwnTokens c.log := fun _ h => h.2
  exact always_iff_stepsMeet_of hP hC hstep ⟨traced_start nodes is_private_torrent now, trivial⟩

open KademliaRoutingTable (idOf nearAndFarTable)

/-- A table with the two nodes of `nearAndFar`. -/
def twoNodes : NodeStore where
  table := nearAndFarTable
  created := 2
  fresh := fun id r h => by
    have hr : ∀ r ∈ nearAndFarTable.nodes.values, r < 2 := by decide +kernel
    exact hr r ((Dict.mem_values_iff _).mpr ⟨id, h⟩)

def tokenResponse (token : String) : PyDict :=
  [(.bytes (ascii "r"), .dict [(.bytes (ascii "token"), .bytes (ascii token))]),
    (.bytes (ascii "y"), .bytes (ascii "r"))]

/-- Of a log entry, whether it is an announcement, the node and the bytes of its token. -/
def LogEntry.carried : LogEntry → Bool × NodeId × Bytes
  | .announce node_id _ (.bytes token) _ => (true, node_id, token)
  | .announce node_id _ _ _ => (true, node_id, [])
  | .answer node_id _ message _ =>
    match tokenOf message with
    | some (.bytes token) => (false, node_id, token)
    | _ => (false, node_id, [])

theorem carried_of_ownTokens {log : List LogEntry} (h : OwnTokens log) {node_id : NodeId}
    {token : Bytes} {l : List (Bool × NodeId × Bytes)}
    (hlog : log.map LogEntry.carried = (true, node_id, token) :: l) :
    (false, node_id, token) ∈ l := by
  obtain ⟨e, log, rfl, he, rfl⟩ := List.map_eq_cons_iff.mp hlog
  cases e with
  | answer id k message time =>
    rw [LogEntry.carried] at he
    split at he <;> cases he
  | announce id k sent time =>
    obtain ⟨⟨message, time', hmem, htoken, -⟩, -⟩ := h
    refine List.mem_map.mpr ⟨_, hmem, ?_⟩
    cases sent <;> simp_all [LogEntry.carried]

/-- Two nodes answer a lookup, each with its token, and the first of them is sent the token of
the second. -/
theorem token_of_another_node : ¬Always step (fun c => OwnTokens c.log)
    (start twoNodes (fun _ => false) 0)
    [.get_peers (idOf 0x80 3).1 50, .resume 0, .answer 0 (.message (tokenResponse "aa")), .resume 0,
      .answer 0 (.message (tokenResponse "bb")), .resume 0, .announce_peer (idOf 0x80 3).1 6881,
      .resume 1] := by
  intro h
  have hlast := (always_iff_take.mp h) 8
  have hlog : (run step (start twoNodes (fun _ => false) 0)
      [.get_peers (idOf 0x80 3).1 50, .resume 0, .answer 0 (.message (tokenResponse "aa")),
        .resume 0, .answer 0 (.message (tokenResponse "bb")), .resume 0,
        .announce_peer (idOf 0x80 3).1 6881, .resume 1]).log.map LogEntry.carried =
      [(true, idOf 0x40 0, ascii "bb"), (false, idOf 0x80 3, ascii "bb"),
        (false, idOf 0x40 0, ascii "aa")] := by
    decide +kernel
  exact absurd (carried_of_ownTokens hlast hlog) (by decide)

end AsyncDHTClient

end Discovery

end Ccbt
