import Ccbt.Discovery.Announce
import Ccbt.Precedence.Rank

/-!
# How far a lookup of peers gets

A `get_peers` call among the other calls of the client: which nodes it asks, what it learns from
their answers and which peers it returns. It asks the nodes that the routing table gives it at the
start, and what it learns comes into the table only.
-/

namespace Ccbt

open Python Transition Torrent Precedence

namespace Discovery

/-! ### What an answer says -/

def peerValues (message : PyDict) : List PyObj :=
  if isResponse message then
    match (responseDict message).bind fun r => getKey r "values" with
    | some (.list values) => values
    | _ => []
  else []

def isPeer : PyObj → Bool
  | .bytes value => value.length = 6
  | _ => false

def namedNodes (message : PyDict) : List NodeId :=
  if isResponse message then
    match (responseDict message).bind fun r =>
        receivedNodes 0 ((getKey r "nodes").getD (.bytes [])) with
    | some nodes => nodes.map DHTNode.node_id
    | none => []
  else []

namespace Outcome

def values : Outcome → List PyObj
  | .message m => peerValues m
  | _ => []

/-- How many peers are offered. -/
def offered (outcome : Outcome) : Nat := outcome.values.countP isPeer

def named : Outcome → List NodeId
  | .message m => namedNodes m
  | _ => []

end Outcome

/-- The peers that are collected from what the queries came to, one after the other. -/
def collectPeers (max_peers : Int) (outcomes : List Outcome) : List (Str × Nat) :=
  outcomes.foldl (fun peers outcome => takePeers max_peers outcome.values peers) []

/-- How many peers there are then. -/
def collected (max_peers : Int) : Nat → List Nat → Nat
  | n, [] => n
  | n, k :: ks => collected max_peers (min (n + k) (max (n + 1) max_peers.toNat)) ks

/-- Whoever offers peers does so before `max_peers` have been offered. -/
def Timely (max_peers : Int) : Nat → List Nat → Prop
  | _, [] => True
  | n, k :: ks => (0 < k → (n : Int) < max_peers) ∧ Timely max_peers (n + k) ks

section Peers

variable {max_peers : Int}

theorem length_takePeers (values : List PyObj) (peers : List (Str × Nat)) :
    (takePeers max_peers values peers).length =
      min (peers.length + values.countP isPeer) (max (peers.length + 1) max_peers.toNat) := by
  induction values generalizing peers with
  | nil => simp [takePeers]
  | cons value values ih =>
    cases value with
    | bytes value =>
      rw [takePeers]
      by_cases hlen : value.length = 6
      · rw [if_pos hlen, List.countP_cons_of_pos (by simp [isPeer, hlen])]
        dsimp only
        split
        · next hmax =>
          rw [List.length_append, List.length_singleton] at hmax ⊢
          omega
        · next hmax =>
          rw [List.length_append, List.length_singleton] at hmax
          rw [ih, List.length_append, List.length_singleton]
          omega
      · rw [if_neg hlen, List.countP_cons_of_neg (by simp [isPeer, hlen]), ih]
    | _ => rw [takePeers, List.countP_cons_of_neg (by simp [isPeer]), ih]; simp

theorem length_collectPeers (outcomes : List Outcome) :
    (collectPeers max_peers outcomes).length =
      collected max_peers 0 (outcomes.map Outcome.offered) := by
  have hfrom (peers : List (Str × Nat)) :
      (outcomes.foldl (fun peers outcome => takePeers max_peers outcome.values peers)
        peers).length = collected max_peers peers.length (outcomes.map Outcome.offered) := by
    induction outcomes generalizing peers with
    | nil => rfl
    | cons outcome outcomes ih =>
      rw [List.foldl_cons, ih, length_takePeers, List.map_cons, collected, Outcome.offered]
  exact hfrom []

/-- Fewer than `max_peers` are collected just when fewer are offered. -/
theorem collected_lt_iff (n : Nat) (ks : List Nat) :
    (collected max_peers n ks : Int) < max_peers ↔ ((n + ks.sum : Nat) : Int) < max_peers := by
  induction ks generalizing n with
  | nil => simp [collected]
  | cons k ks ih =>
    rw [collected, ih, List.sum_cons]
    omega

/-- Once so many have been offered, nobody offers any. -/
theorem timely_congr {n m : Nat} (hn : max_peers ≤ n) (hm : max_peers ≤ m) (ks : List Nat) :
    Timely max_peers n ks ↔ Timely max_peers m ks := by
  induction ks generalizing n m with
  | nil => exact Iff.rfl
  | cons k ks ih =>
    rw [Timely, Timely]
    refine and_congr (imp_congr_right fun _ => ?_) (ih (by omega) (by omega))
    exact iff_of_false (by omega) (by omega)

/-- No more than `max_peers` are collected just when there are no more before and nobody offers
peers too late. -/
theorem collected_le_iff (n : Nat) (ks : List Nat) :
    (collected max_peers n ks : Int) ≤ max_peers ↔
      (n : Int) ≤ max_peers ∧ Timely max_peers n ks := by
  induction ks generalizing n with
  | nil => simp [collected, Timely]
  | cons k ks ih =>
    rw [collected, ih, Timely]
    by_cases hcut : n + k ≤ max (n + 1) max_peers.toNat
    · rw [min_eq_left hcut, ← and_assoc]
      refine and_congr_left fun _ => ?_
      omega
    · rw [min_eq_right (by omega), ← and_assoc]
      by_cases hlt : (n : Int) < max_peers
      · rw [timely_congr (n := max (n + 1) max_peers.toNat) (m := n + k) (by omega) (by omega)]
        refine and_congr_left fun _ => ?_
        omega
      · refine iff_of_false (fun h => ?_) fun h => ?_
        · have := h.1
          omega
        · have := h.1.2 (by omega)
          omega

end Peers

/-! ### What the events leave of the nodes and the calls -/

namespace KademliaRoutingTable

variable {Ref : Type*} [DecidableEq Ref] (t : KademliaRoutingTable Ref)

@[simp] theorem node_id_addNode (r e : Ref) :
    ((t.addNode r).2.node e).node_id = (t.node e).node_id := by
  rw [addNode]
  split
  · rfl
  · split
    · rw [modify_id]
    · dsimp only
      split
      · rfl
      · split <;> rfl

@[simp] theorem node_id_markNodeBad (id : NodeId) (e : Ref) :
    ((t.markNodeBad id).node e).node_id = (t.node e).node_id := by
  rw [markNodeBad]
  split
  · rfl
  · rw [modify_id]

@[simp] theorem node_id_markNodeGood (id : NodeId) (e : Ref) :
    ((t.markNodeGood id).node e).node_id = (t.node e).node_id := by
  rw [markNodeGood]
  split
  · rfl
  · rw [modify_id]

omit [DecidableEq Ref] in
theorem node_removeNode (id : NodeId) : (t.removeNode id).node = t.node := by
  rw [removeNode]
  split <;> rfl

end KademliaRoutingTable

namespace NodeStore

/-- The node objects of one store are still there in the other one, with their ids. -/
structure Keeps (s s' : NodeStore) : Prop where
  created : s.created ≤ s'.created
  id : ∀ r < s.created, (s'.table.node r).node_id = (s.table.node r).node_id

variable {s s' s'' : NodeStore}

theorem Keeps.refl (s : NodeStore) : s.Keeps s := ⟨le_rfl, fun _ _ => rfl⟩

theorem Keeps.trans (h : s.Keeps s') (h' : s'.Keeps s'') : s.Keeps s'' where
  created := h.created.trans h'.created
  id r hr := (h'.id r (hr.trans_le h.created)).trans (h.id r hr)

theorem keeps_addNode (s : NodeStore) (node : DHTNode) : s.Keeps (s.addNode node) where
  created := Nat.le_succ _
  id r hr := by
    rw [addNode]
    dsimp only
    rw [KademliaRoutingTable.node_id_addNode]
    show (Function.update s.table.node s.created node r).node_id = _
    rw [Function.update_of_ne hr.ne]

theorem keeps_foldl_addNode (s : NodeStore) (nodes : List DHTNode) :
    s.Keeps (nodes.foldl addNode s) := by
  induction nodes generalizing s with
  | nil => exact .refl s
  | cons node nodes ih => exact (s.keeps_addNode node).trans (ih _)

theorem keeps_markNodeBad (s : NodeStore) (id : NodeId) : s.Keeps (s.markNodeBad id) where
  created := le_rfl
  id r _ := s.table.node_id_markNodeBad id r

theorem keeps_markNodeGood (s : NodeStore) (id : NodeId) : s.Keeps (s.markNodeGood id) where
  created := le_rfl
  id r _ := s.table.node_id_markNodeGood id r

theorem keeps_foldl_removeNode (s : NodeStore) (ids : List NodeId) :
    s.Keeps (ids.foldl removeNode s) := by
  induction ids generalizing s with
  | nil => exact .refl s
  | cons id ids ih =>
    have hfirst : s.Keeps (s.removeNode id) := by
      refine ⟨le_rfl, fun r _ => ?_⟩
      exact congrArg DHTNode.node_id (congrFun (s.table.node_removeNode id) r)
    exact hfirst.trans (ih _)

end NodeStore

namespace AsyncDHTClient

variable {c : AsyncDHTClient}

theorem keeps_handlePeers (c : AsyncDHTClient) (l : Lookup) (node : Nat) (message : PyDict) :
    c.nodes.Keeps (c.handlePeers l node message).1.nodes := by
  rw [handlePeers]
  split
  · split
    · exact c.nodes.keeps_markNodeBad _
    · dsimp only
      split
      · exact c.nodes.keeps_markNodeBad _
      · next nodes _ =>
        have hfiled := c.nodes.keeps_foldl_addNode nodes
        split
        · exact hfiled.trans (NodeStore.keeps_markNodeGood _ _)
        · exact hfiled.trans (NodeStore.keeps_markNodeGood _ _)
  · exact .refl _

/-- A message only adds the peers that it offers to what a lookup has. -/
theorem handlePeers_snd (c : AsyncDHTClient) (l : Lookup) (node : Nat) (message : PyDict) :
    (c.handlePeers l node message).2 =
      { l with peers := takePeers l.max_peers (peerValues message) l.peers } := by
  rw [handlePeers, peerValues]
  split
  · cases responseDict message with
    | none => rfl
    | some r =>
      dsimp only [Option.bind_some]
      cases getKey r "values" with
      | none => split <;> rfl
      | some value =>
        cases value <;> split <;> rfl
  · rfl

theorem nodes_readToken (h : Bytes) (port : Int) : (c.readToken h port).1.nodes = c.nodes := by
  rw [readToken]
  split
  · rfl
  · split <;> rfl

theorem calls_readToken (h : Bytes) (port : Int) : (c.readToken h port).1.calls = c.calls := by
  rw [readToken]
  split
  · rfl
  · split <;> rfl

theorem keeps_resume (c : AsyncDHTClient) (i : Nat) : c.nodes.Keeps (c.resume i).nodes := by
  rw [resume]
  split
  · split
    · split
      · exact .refl _
      · rw [setCall, nodes_readToken]
        exact .refl _
    · split <;> exact .refl _
  · split <;> exact .refl _
  · exact .refl _

theorem keeps_answer (c : AsyncDHTClient) (i : Nat) (outcome : Outcome) :
    c.nodes.Keeps (c.answer i outcome).nodes := by
  rw [answer]
  split
  · split
    · exact c.keeps_handlePeers _ _ _
    · exact .refl _
    · exact c.nodes.keeps_markNodeBad _
  · split
    · split
      · exact c.nodes.keeps_markNodeGood _
      · exact c.nodes.keeps_markNodeBad _
    · exact c.nodes.keeps_markNodeBad _
  · exact .refl _

theorem keeps_step (c : AsyncDHTClient) (e : ClientEvent) : c.nodes.Keeps (c.step e).nodes := by
  cases e with
  | clock time => exact .refl _
  | get_peers info_hash max_peers => exact .refl _
  | announce_peer info_hash port =>
    rw [step, addCall, announcePeer]
    split
    · exact .refl _
    · split
      · exact .refl _
      · rw [nodes_readToken]
        exact .refl _
  | resume i => exact c.keeps_resume i
  | answer i outcome => exact c.keeps_answer i outcome
  | cleanup => exact c.nodes.keeps_foldl_removeNode _
  | find_nodes nodes => exact c.nodes.keeps_foldl_addNode nodes

/-- The event goes on with the call. -/
def Concerns (i : Nat) : ClientEvent → Prop
  | .resume j => j = i
  | .answer j _ => j = i
  | _ => False

theorem getElem?_setCall_ne {i j : Nat} (h : j ≠ i) (call : Call) :
    (c.setCall j call).calls[i]? = c.calls[i]? :=
  List.getElem?_set_ne h

/-- Other events leave a call as it is. -/
theorem getElem?_step {i : Nat} {e : ClientEvent} (h : ¬ Concerns i e) (hi : i < c.calls.length) :
    (c.step e).calls[i]? = c.calls[i]? := by
  cases e with
  | clock time => rfl
  | get_peers info_hash max_peers => exact List.getElem?_append_left hi
  | announce_peer info_hash port =>
    have hcalls : (c.announcePeer info_hash port).1.calls = c.calls := by
      rw [announcePeer]
      split
      · rfl
      · split
        · rfl
        · exact calls_readToken info_hash port
    rw [step, addCall]
    dsimp only
    rw [hcalls]
    exact List.getElem?_append_left hi
  | resume j =>
    rw [step, resume]
    split
    · split
      · split
        · exact getElem?_setCall_ne h _
        · rw [getElem?_setCall_ne h, calls_readToken]
      · split <;> exact getElem?_setCall_ne h _
    · split
      · exact getElem?_setCall_ne h _
      · exact getElem?_setCall_ne h _
    · rfl
  | answer j outcome =>
    rw [step, answer]
    split
    · split
      · exact (getElem?_setCall_ne h _).trans (by rw [handlePeers_calls])
      · exact getElem?_setCall_ne h _
      · exact getElem?_setCall_ne h _
    · split
      · split <;> exact getElem?_setCall_ne h _
      · exact getElem?_setCall_ne h _
    · rfl
  | cleanup => rfl
  | find_nodes nodes => rfl

/-! ### The course of a lookup -/

def exchange (i : Nat) (c : AsyncDHTClient) : ClientEvent → Option (NodeId × Outcome)
  | .answer j outcome =>
    if j = i then
      match c.calls[i]? with
      | some (.lookupQuery _ node) => some (c.nodeId node, outcome)
      | _ => none
    else none
  | _ => none

/-- The queries of the call in a run, the first one first. -/
def exchanges (i : Nat) : AsyncDHTClient → List ClientEvent → List (NodeId × Outcome)
  | _, [] => []
  | c, e :: es => (c.exchange i e).toList ++ exchanges i (c.step e) es

/-- A lookup has asked the nodes in the trace, is to ask those in `rest`, and has collected the
peers that it should. -/
structure OnCourse (ids : List NodeId) (max_peers : Int) (c : AsyncDHTClient)
    (trace : List (NodeId × Outcome)) (l : Lookup) (rest : List Nat) : Prop where
  ids : trace.map Prod.fst ++ rest.map c.nodeId = ids
  old : ∀ r ∈ rest, r < c.nodes.created
  bound : l.max_peers = max_peers
  own : l.announcing = none
  peers : l.peers = collectPeers max_peers (trace.map Prod.snd)

/-- The call is the lookup of these nodes, with this trace. -/
def Follows (ids : List NodeId) (max_peers : Int) (c : AsyncDHTClient)
    (trace : List (NodeId × Outcome)) : Call → Prop
  | .lookup l => OnCourse ids max_peers c trace l l.nodes ∧
    l.queried_nodes = (trace.map Prod.fst).reverse
  | .lookupQuery l node => OnCourse ids max_peers c trace l (node :: l.nodes) ∧
    l.queried_nodes = c.nodeId node :: (trace.map Prod.fst).reverse
  | .foundPeers peers => trace.map Prod.fst = ids ∧
    peers = collectPeers max_peers (trace.map Prod.snd)
  | _ => False

section Course

variable {ids : List NodeId} {max_peers : Int} {c' : AsyncDHTClient}
  {trace : List (NodeId × Outcome)} {l : Lookup} {rest : List Nat} {call : Call} {i : Nat}

theorem OnCourse.keeps (h : OnCourse ids max_peers c trace l rest)
    (hkeeps : c.nodes.Keeps c'.nodes) : OnCourse ids max_peers c' trace l rest where
  ids := by
    rw [← h.ids]
    refine congrArg _ (List.map_congr_left fun r hr => ?_)
    exact hkeeps.id r (h.old r hr)
  old r hr := (h.old r hr).trans_le hkeeps.created
  bound := h.bound
  own := h.own
  peers := h.peers

theorem Follows.keeps (h : Follows ids max_peers c trace call) (hkeeps : c.nodes.Keeps c'.nodes) :
    Follows ids max_peers c' trace call := by
  cases call with
  | lookup l => exact ⟨h.1.keeps hkeeps, h.2⟩
  | lookupQuery l node =>
    refine ⟨h.1.keeps hkeeps, ?_⟩
    rw [h.2]
    exact congrArg (· :: _) (hkeeps.id node (h.1.old node List.mem_cons_self)).symm
  | foundPeers peers => exact h
  | announcement a => exact h
  | announceQuery a node => exact h
  | announced success => exact h

/-- The node asked last is done with. -/
theorem OnCourse.next {node : Nat} (h : OnCourse ids max_peers c trace l (node :: rest))
    (outcome : Outcome) :
    OnCourse ids max_peers c (trace ++ [(c.nodeId node, outcome)])
      { l with peers := takePeers l.max_peers outcome.values l.peers } rest where
  ids := by
    rw [← h.ids, List.map_append, List.map_singleton, List.map_cons, List.append_assoc]
    rfl
  old r hr := h.old r (List.mem_cons_of_mem _ hr)
  bound := h.bound
  own := h.own
  peers := by
    rw [List.map_append, List.map_singleton, collectPeers, List.foldl_append, List.foldl_cons,
      List.foldl_nil, ← collectPeers, h.bound, h.peers]

theorem follows_resume (hnodup : ids.Nodup) (hcall : c.calls[i]? = some call)
    (h : Follows ids max_peers c trace call) :
    ∃ call', (c.resume i).calls[i]? = some call' ∧
      Follows ids max_peers (c.resume i) trace call' := by
  have hlt := (List.getElem?_eq_some_iff.mp hcall).1
  have hset (call : Call) : (c.setCall i call).calls[i]? = some call :=
    List.getElem?_set_self hlt
  have hkeeps := c.keeps_resume i
  cases call with
  | lookup l =>
    obtain ⟨hcourse, hqueried⟩ := h
    rw [resume, hcall] at hkeeps ⊢
    dsimp only at hkeeps ⊢
    cases hnodes : l.nodes with
    | nil =>
      rw [hcourse.own]
      refine ⟨_, hset _, ?_, hcourse.peers⟩
      have hids := hcourse.ids
      rwa [hnodes, List.map_nil, List.append_nil] at hids
    | cons node nodes =>
      rw [hnodes] at hcourse
      have hids := hcourse.ids
      have hnew : c.nodeId node ∉ l.queried_nodes := by
        rw [← hids, List.map_cons, List.nodup_append] at hnodup
        rw [hqueried, List.mem_reverse]
        exact fun hmem => hnodup.2.2 _ hmem _ List.mem_cons_self rfl
      dsimp only
      rw [if_neg hnew]
      refine ⟨_, hset _, ⟨hcourse.ids, hcourse.old, hcourse.bound, hcourse.own,
        hcourse.peers⟩, ?_⟩
      dsimp only
      rw [hqueried]
      rfl
  | lookupQuery l node =>
    rw [resume, hcall]
    exact ⟨_, hcall, h⟩
  | foundPeers peers =>
    rw [resume, hcall]
    exact ⟨_, hcall, h⟩
  | announcement a => exact h.elim
  | announceQuery a node => exact h.elim
  | announced success => exact h.elim

theorem follows_answer (hcall : c.calls[i]? = some call)
    (h : Follows ids max_peers c trace call) (outcome : Outcome) :
    ∃ call', (c.answer i outcome).calls[i]? = some call' ∧
      Follows ids max_peers (c.answer i outcome)
        (trace ++ (c.exchange i (.answer i outcome)).toList) call' := by
  have hlt := (List.getElem?_eq_some_iff.mp hcall).1
  rw [exchange, if_pos rfl, hcall]
  cases call with
  | lookupQuery l node =>
    obtain ⟨hcourse, hqueried⟩ := h
    have hnext := (hcourse.next outcome).keeps (c.keeps_answer i outcome)
    have hqueried' : l.queried_nodes =
        ((trace ++ [(c.nodeId node, outcome)]).map Prod.fst).reverse := by
      rw [hqueried, List.map_append, List.reverse_append]
      rfl
    refine ⟨.lookup { l with peers := takePeers l.max_peers outcome.values l.peers },
      ?_, hnext, hqueried'⟩
    rw [answer, hcall]
    cases outcome with
    | message m =>
      dsimp only
      rw [handlePeers_snd]
      refine List.getElem?_set_self ?_
      rwa [handlePeers_calls]
    | timeout => exact List.getElem?_set_self hlt
    | raised => exact List.getElem?_set_self hlt
  | lookup l =>
    rw [answer, hcall, Option.toList_none, List.append_nil]
    exact ⟨_, hcall, h⟩
  | foundPeers peers =>
    rw [answer, hcall, Option.toList_none, List.append_nil]
    exact ⟨_, hcall, h⟩
  | announcement a => exact h.elim
  | announceQuery a node => exact h.elim
  | announced success => exact h.elim

/-- Every event keeps a lookup on its course. -/
theorem follows_step (hnodup : ids.Nodup) (hcall : c.calls[i]? = some call)
    (h : Follows ids max_peers c trace call) (e : ClientEvent) :
    ∃ call', (c.step e).calls[i]? = some call' ∧
      Follows ids max_peers (c.step e) (trace ++ (c.exchange i e).toList) call' := by
  by_cases hconcerns : Concerns i e
  · cases e with
    | resume j =>
      cases hconcerns
      have hnone : c.exchange i (.resume i) = none := rfl
      rw [hnone, Option.toList_none, List.append_nil]
      exact follows_resume hnodup hcall h
    | answer j outcome =>
      cases hconcerns
      exact follows_answer hcall h outcome
    | _ => exact hconcerns.elim
  · have hnone : c.exchange i e = none := by
      cases e with
      | answer j outcome => exact if_neg hconcerns
      | _ => rfl
    have hlt := (List.getElem?_eq_some_iff.mp hcall).1
    rw [hnone, Option.toList_none, List.append_nil, getElem?_step hconcerns hlt]
    exact ⟨call, hcall, h.keeps (c.keeps_step e)⟩

/-- So does every run. -/
theorem follows_run (hnodup : ids.Nodup) (es : List ClientEvent) (hcall : c.calls[i]? = some call)
    (h : Follows ids max_peers c trace call) :
    ∃ call', (run step c es).calls[i]? = some call' ∧
      Follows ids max_peers (run step c es) (trace ++ exchanges i c es) call' := by
  induction es generalizing c trace call with
  | nil =>
    rw [exchanges, List.append_nil]
    exact ⟨call, hcall, h⟩
  | cons e es ih =>
    obtain ⟨call', hcall', h'⟩ := follows_step hnodup hcall h e
    obtain ⟨call'', hcall'', h''⟩ := ih hcall' h'
    rw [run_cons, exchanges, ← List.append_assoc]
    exact ⟨call'', hcall'', h''⟩

end Course

/-! ### The whole lookup -/

/-- The ids of the nodes that a lookup is given at its start. -/
def givenNodes (c : AsyncDHTClient) (info_hash : NodeId) : List NodeId :=
  (c.closestNodes info_hash.1).map c.nodeId

/-- The nodes known at the start and those that answers name, without the client itself. -/
def known (c : AsyncDHTClient) (trace : List (NodeId × Outcome)) : Finset NodeId :=
  (c.nodes.table.nodes.keys ++
    (trace.flatMap fun e => e.2.named).filter (· ≠ c.nodes.table.node_id)).toFinset

/-- If a lookup does not find enough peers, it has asked each of the 8 nodes that are closest to the
hash among those known once; and it does not return too many. -/
structure ClosesIn (c : AsyncDHTClient) (info_hash : NodeId) (max_peers : Int)
    (trace : List (NodeId × Outcome)) (peers : List (Str × Nat)) : Prop where
  asked : (peers.length : Int) < max_peers → ∀ id ∈ c.known trace,
    ((c.known trace).filter fun id' => xorDistance id' info_hash < xorDistance id info_hash).card <
      8 → (trace.map Prod.fst).count id = 1
  bound : (peers.length : Int) ≤ max_peers

/-- What has to be the case for it: peers are offered in time, and where they are not enough, the
nodes given at the start are all that become known, or are 8 that are closer than the others. -/
structure NeedsNoMore (c : AsyncDHTClient) (info_hash : NodeId) (max_peers : Int)
    (trace : List (NodeId × Outcome)) : Prop where
  nonneg : 0 ≤ max_peers
  timely : Timely max_peers 0 (trace.map fun e => e.2.offered)
  given : (((trace.map fun e => e.2.offered).sum : Nat) : Int) < max_peers →
    (∀ id ∈ c.known trace, id ∈ c.givenNodes info_hash) ∨
      (c.givenNodes info_hash).length = 8 ∧ ∀ q ∈ c.givenNodes info_hash, ∀ id ∈ c.known trace,
        id ∉ c.givenNodes info_hash → xorDistance q info_hash < xorDistance id info_hash

section Whole

variable {info_hash : NodeId} {max_peers : Int} {trace : List (NodeId × Outcome)}

theorem mem_values_of_closest {r : Nat} (h : r ∈ c.closestNodes info_hash.1) :
    r ∈ c.nodes.table.nodes.values := by
  rw [closestNodes, KademliaRoutingTable.getClosestNodes_eq (by decide)] at h
  exact (KademliaRoutingTable.mem_ranked info_hash).mp (List.mem_of_mem_take h)

theorem nodup_givenNodes (c : AsyncDHTClient) (info_hash : NodeId) :
    (c.givenNodes info_hash).Nodup := by
  refine List.Nodup.map_on (fun r hr e he heq => ?_) ?_
  · exact KademliaRoutingTable.eq_of_mem_values (mem_values_of_closest hr)
      (mem_values_of_closest he) heq
  · rw [closestNodes, KademliaRoutingTable.getClosestNodes_eq (by decide)]
    exact KademliaRoutingTable.nodup_ranked.take

theorem length_givenNodes_le (c : AsyncDHTClient) (info_hash : NodeId) :
    (c.givenNodes info_hash).length ≤ 8 := by
  rw [givenNodes, List.length_map, closestNodes,
    KademliaRoutingTable.getClosestNodes_eq (by decide)]
  exact List.length_take_le _ _

theorem givenNodes_subset_known (trace : List (NodeId × Outcome)) :
    (c.givenNodes info_hash).toFinset ⊆ c.known trace := by
  intro id hid
  obtain ⟨r, hr, rfl⟩ := List.mem_map.mp (List.mem_toFinset.mp hid)
  have hvalue := mem_values_of_closest hr
  rw [known, List.mem_toFinset, List.mem_append, KademliaRoutingTable.keys_eq]
  exact .inl (List.mem_map_of_mem hvalue)

/-- When a lookup returns, it has asked the nodes that it was given, each once, and has collected
its peers from them. -/
theorem exchanges_of_returned (hpublic : c.is_private_torrent info_hash.1 = false)
    (es : List ClientEvent) {peers : List (Str × Nat)}
    (h : (run step (c.step (.get_peers info_hash.1 max_peers)) es).calls[c.calls.length]? =
      some (.foundPeers peers)) :
    (exchanges c.calls.length (c.step (.get_peers info_hash.1 max_peers)) es).map Prod.fst =
        c.givenNodes info_hash ∧
      peers = collectPeers max_peers
        ((exchanges c.calls.length (c.step (.get_peers info_hash.1 max_peers)) es).map
          Prod.snd) := by
  have hcall : (c.step (.get_peers info_hash.1 max_peers)).calls[c.calls.length]? =
      some (c.getPeers info_hash.1 max_peers none) := List.getElem?_concat_length
  rw [getPeers, if_neg (by rw [hpublic]; decide)] at hcall
  have hstart : Follows (c.givenNodes info_hash) max_peers
      (c.step (.get_peers info_hash.1 max_peers)) [] (.lookup {
        info_hash := info_hash.1
        max_peers := max_peers
        nodes := c.closestNodes info_hash.1
        announcing := none }) := by
    refine ⟨⟨rfl, fun r hr => ?_, rfl, rfl, rfl⟩, rfl⟩
    obtain ⟨id, hid⟩ := (Dict.mem_values_iff _).mp (mem_values_of_closest hr)
    exact c.nodes.fresh id r hid
  obtain ⟨call, hreturned, hfollows⟩ := follows_run (c.nodup_givenNodes info_hash) es hcall hstart
  rw [h] at hreturned
  cases hreturned
  exact hfollows

/-- A lookup that returns closes in on the hash exactly if the nodes that it was given suffice. -/
theorem closesIn_iff (c : AsyncDHTClient) (info_hash : NodeId) (max_peers : Int)
    (hpublic : c.is_private_torrent info_hash.1 = false) (es : List ClientEvent)
    {peers : List (Str × Nat)}
    (h : (run step (c.step (.get_peers info_hash.1 max_peers)) es).calls[c.calls.length]? =
      some (.foundPeers peers)) :
    c.ClosesIn info_hash max_peers
        (exchanges c.calls.length (c.step (.get_peers info_hash.1 max_peers)) es) peers ↔
      c.NeedsNoMore info_hash max_peers
        (exchanges c.calls.length (c.step (.get_peers info_hash.1 max_peers)) es) := by
  obtain ⟨hids, hpeers⟩ := exchanges_of_returned hpublic es h
  generalize exchanges c.calls.length (c.step (.get_peers info_hash.1 max_peers)) es = trace
    at hids hpeers ⊢
  have hnodup := c.nodup_givenNodes info_hash
  have hlength : peers.length = collected max_peers 0 (trace.map fun e => e.2.offered) := by
    rw [hpeers, length_collectPeers, List.map_map]
    rfl
  have hfew : (peers.length : Int) < max_peers ↔
      (((trace.map fun e => e.2.offered).sum : Nat) : Int) < max_peers := by
    rw [hlength, collected_lt_iff, Nat.zero_add]
  have hbound : (peers.length : Int) ≤ max_peers ↔
      0 ≤ max_peers ∧ Timely max_peers 0 (trace.map fun e => e.2.offered) := by
    rw [hlength, collected_le_iff, Nat.cast_zero]
  have hcard : (c.givenNodes info_hash).toFinset.card = (c.givenNodes info_hash).length :=
    List.toFinset_card_of_nodup hnodup
  have hnear := nearest_mem_iff (K := c.known trace)
    (Q := (c.givenNodes info_hash).toFinset) (d := fun id => xorDistance id info_hash) (n := 8)
    (givenNodes_subset_known trace) (hcard.trans_le (c.length_givenNodes_le info_hash))
  rw [hcard] at hnear
  simp only [Finset.subset_iff, List.mem_toFinset] at hnear
  have hcount (id : NodeId) :
      (trace.map Prod.fst).count id = 1 ↔ id ∈ c.givenNodes info_hash := by
    rw [hids]
    exact ⟨fun h => List.count_pos_iff.mp (h ▸ Nat.one_pos), List.count_eq_one_of_mem hnodup⟩
  constructor
  · intro hcloses
    obtain ⟨hnonneg, htimely⟩ := hbound.mp hcloses.bound
    refine ⟨hnonneg, htimely, fun hoffered => hnear.mp fun id hid hlt => ?_⟩
    exact (hcount id).mp (hcloses.asked (hfew.mpr hoffered) id hid hlt)
  · intro hneeds
    refine ⟨fun hlt id hid hclose => ?_, hbound.mpr ⟨hneeds.nonneg, hneeds.timely⟩⟩
    exact (hcount id).mpr (hnear.mpr (hneeds.given (hfew.mp hlt)) id hid hclose)

end Whole

section Runs

open KademliaRoutingTable (idOf)

def returned? (c : AsyncDHTClient) (i : Nat) : Option (List (Str × Nat)) :=
  match c.calls[i]? with
  | some (.foundPeers peers) => some peers
  | _ => none

theorem foundPeers_of_returned? {i : Nat} {peers : List (Str × Nat)}
    (h : c.returned? i = some peers) : c.calls[i]? = some (.foundPeers peers) := by
  rw [returned?] at h
  split at h
  · next peers' hcall =>
    cases h
    exact hcall
  · cases h

/-- A client that knows two nodes. -/
def knowsTwo : AsyncDHTClient := start twoNodes (fun _ => false) 0

/-- A response with an entry besides the type of the message. -/
def responseWith (key : String) (value : PyObj) : Outcome :=
  .message [(.bytes (ascii "r"), .dict [(.bytes (ascii key), value)]),
    (.bytes (ascii "y"), .bytes (ascii "r"))]

/-- One of the two nodes names the hash itself as a node; the other one does not answer. -/
def namingRun : List ClientEvent :=
  [.resume 0, .answer 0 (responseWith "nodes" (.bytes ((idOf 0x80 1).1 ++ [10, 0, 0, 1, 26, 225]))),
    .resume 0, .answer 0 .timeout, .resume 0]

/-- Both nodes offer a peer. -/
def offeringRun : List ClientEvent :=
  [.resume 0, .answer 0 (responseWith "values" (.list [.bytes [10, 0, 0, 1, 26, 225]])),
    .resume 0, .answer 0 (responseWith "values" (.list [.bytes [10, 0, 0, 2, 26, 225]])), .resume 0]

theorem closesIn_offeringRun : ∃ peers, peers.length = 2 ∧
    knowsTwo.ClosesIn (idOf 0x80 1) 50
      (exchanges 0 (knowsTwo.step (.get_peers (idOf 0x80 1).1 50)) offeringRun) peers := by
  have hreturned : (run step (knowsTwo.step (.get_peers (idOf 0x80 1).1 50))
      offeringRun).returned? 0 = some [("10.0.0.1".toList, 6881), ("10.0.0.2".toList, 6881)] := by
    decide +kernel
  have hoffered : (exchanges 0 (knowsTwo.step (.get_peers (idOf 0x80 1).1 50))
      offeringRun).map (fun e => e.2.offered) = [1, 1] := by decide +kernel
  refine ⟨_, rfl, (closesIn_iff knowsTwo (idOf 0x80 1) 50 rfl offeringRun
    (foundPeers_of_returned? hreturned)).mpr ⟨by decide, ?_, fun _ => .inl ?_⟩⟩
  · have htimely : Timely 50 0 [1, 1] := ⟨by decide, by decide, trivial⟩
    exact hoffered ▸ htimely
  · decide +kernel

/-- The node that is named is the closest one, and is not asked; and where one peer is wanted, two
are returned. -/
theorem not_closesIn_knowsTwo :
    ((run step (knowsTwo.step (.get_peers (idOf 0x80 1).1 50)) namingRun).returned? 0 = some [] ∧
      ¬ knowsTwo.ClosesIn (idOf 0x80 1) 50
        (exchanges 0 (knowsTwo.step (.get_peers (idOf 0x80 1).1 50)) namingRun) []) ∧
    ∃ peers, (run step (knowsTwo.step (.get_peers (idOf 0x80 1).1 1)) offeringRun).returned? 0 =
        some peers ∧ ¬ (peers.length : Int) ≤ 1 := by
  refine ⟨⟨by decide +kernel, fun h => ?_⟩,
    [("10.0.0.1".toList, 6881), ("10.0.0.2".toList, 6881)], by decide +kernel, by decide⟩
  have hcount := h.asked (by decide) (idOf 0x80 1) (by decide +kernel) (by decide +kernel)
  exact absurd hcount (by decide +kernel)

end Runs

end AsyncDHTClient

end Discovery

end Ccbt
