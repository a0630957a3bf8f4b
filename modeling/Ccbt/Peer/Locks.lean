import Ccbt.Concurrency.Coroutine
import Ccbt.Peer.Connection
import Mathlib.Algebra.Order.Ring.Unbundled.Rat

/-!
# Locks of `AsyncPeerConnectionManager` (`peer/async_peer_connection.py`)

The operations that take `connection_lock` or `_failed_peer_lock`, as coroutines over the
tables they read and write. What the operations wait for besides the locks (the network, the
pool, callbacks, timers) is an input of the step that follows the wait; logging and its
statistics are left out. Connections are told apart by identity.
-/

namespace Ccbt

open Python Concurrency

namespace Peer

inductive LockName
  | connection_lock
  | _failed_peer_lock
  deriving DecidableEq

structure PeerInfo where
  ip : String
  port : Nat
  ip_ne_empty : ip ≠ ""
  port_pos : 1 ≤ port
  port_le : port ≤ 65535

namespace PeerInfo

/-- `PeerInfo(ip=ip, port=port)`, if its validation accepts the values. -/
def ofFields (ip : String) (port : Nat) : Option PeerInfo :=
  if h : ip ≠ "" ∧ 1 ≤ port ∧ port ≤ 65535 then some ⟨ip, port, h.1, h.2.1, h.2.2⟩ else none

instance : Inhabited PeerInfo := ⟨⟨"127.0.0.1", 1, by decide, by decide, by decide⟩⟩

def str (p : PeerInfo) : String := p.ip ++ ":" ++ toString p.port

end PeerInfo

/-- An entry of a peer list, as far as `connect_to_peers` looks into it. -/
inductive PeerData
  /-- Not a dictionary. -/
  | other
  /-- A dictionary without the key "ip" or "port". -/
  | incomplete
  /-- A dictionary whose values the validation of `PeerInfo` refuses. -/
  | invalid
  | valid (peer_info : PeerInfo)

def PeerData.isDict : PeerData → Bool
  | other => false
  | _ => true

inductive PyException
  | PeerConnectionError
  | other
  deriving DecidableEq

structure NetworkConfig where
  max_peers_per_torrent : Nat := 50
  max_peers_per_torrent_pos : 1 ≤ max_peers_per_torrent := by decide
  max_upload_slots : Nat := 4
  optimistic_unchoke_interval : Rat := 30
  connection_pool_warmup_enabled : Bool := true
  circuit_breaker_enabled : Bool := true
  /-- `sys.platform == "win32"`. -/
  windows : Bool := false

structure FailInfo where
  timestamp : Time
  count : Nat
  reason : String

/-- The identity of a connection object. -/
abbrev ConnectionRef := Nat

/-- A connection object with what else the choking reads of it. -/
structure PeerConnection extends AsyncPeerConnection where
  peer_info : PeerInfo
  upload_rate : Rat := 0

structure ConnectionManager where
  connections : Dict String ConnectionRef := .empty
  object : ConnectionRef → PeerConnection
  /-- The objects with this number and above do not exist yet. -/
  created : Nat := 0
  _failed_peers : Dict String FailInfo := .empty
  upload_slots : List ConnectionRef := []
  optimistic_unchoke : Option ConnectionRef := none
  optimistic_unchoke_time : Time := 0

/-- What a connection attempt that `connect_to_peers` gathered has come to. -/
inductive Attempt
  /-- It raised; the text of the error tells the reason and whether to try again. -/
  | raised (is_temporary : Bool) (reason : String)
  | ended

/-- What a step learns from outside. -/
structure Input where
  now : Time
  /-- Whether what was waited for raised. -/
  raises : Bool
  /-- The results of `asyncio.gather`, by position. -/
  attempts : Nat → Attempt
  /-- The number behind `random.choice`. -/
  choice : Nat
  /-- Whether a connection attempt came to create its connection object, -/
  opened : Bool
  /-- and the exception that ended the attempt before the connection was set up. -/
  error : Option PyException
  /-- The connection object as the handling of its messages leaves it. -/
  received : PeerConnection

instance : Inhabited Input :=
  ⟨⟨0, false, fun _ => .ended, 0, false, none, { peer_info := default }⟩⟩

/-- The places where what an operation reads decides which lock it asks for. -/
inductive Site
  /-- `disconnect_peer` looks the peer up. -/
  | disconnectPeer (peer_key : String)
  /-- `disconnect_all` lists the connections. -/
  | disconnectAll
  /-- `_update_optimistic_unchoke` looks whether it is time. -/
  | optimisticUnchoke
  /-- It looks whether the peer unchoked so far is still unchoked. -/
  | optimisticChoke (connection : ConnectionRef)
  /-- It has sent that peer a choke message. -/
  | optimisticChoked
  /-- `connect_to_peers` looks up the peer of an attempt that did not raise. -/
  | attemptEnded (peer_key : String)
  | elsewhere

abbrev Operation.Code (α : Type) := Coroutine LockName Site Input ConnectionManager PyException α

namespace ConnectionManager

def setObject (s : ConnectionManager) (r : ConnectionRef) (c : PeerConnection) :
    ConnectionManager :=
  { s with object := fun r' => if r' = r then c else s.object r' }

def setChoking (s : ConnectionManager) (r : ConnectionRef) (am_choking : Bool) :
    ConnectionManager :=
  s.setObject r { s.object r with am_choking := am_choking }

def _min_retry_interval : Rat := 30

def _max_retry_interval : Rat := 600

def _backoff_multiplier : Rat := 2

def backoffInterval (fail_count : Nat) : Rat :=
  min (_min_retry_interval * _backoff_multiplier ^ (fail_count - 1)) _max_retry_interval

/-- Old failures are forgotten. -/
def dropExpired (s : ConnectionManager) (current_time : Time) : ConnectionManager :=
  let expired := s._failed_peers.entries.filter fun e =>
    decide (current_time - e.2.timestamp > _max_retry_interval)
  { s with _failed_peers := expired.foldl (fun d e => d.erase e.1) s._failed_peers }

/-- The peer has failed so recently that it is skipped. -/
def backsOff (s : ConnectionManager) (peer_key : String) (current_time : Time) : Bool :=
  match s._failed_peers.get? peer_key with
  | none => false
  | some f => decide (current_time - f.timestamp < backoffInterval f.count)

def recordFailure (s : ConnectionManager) (peer_key : String) (is_temporary : Bool)
    (reason : String) (now : Time) : ConnectionManager :=
  if is_temporary then
    match s._failed_peers.get? peer_key with
    | some f => { s with
        _failed_peers := s._failed_peers.set peer_key ⟨now, f.count + 1, reason⟩ }
    | none => { s with _failed_peers := s._failed_peers.set peer_key ⟨now, 1, reason⟩ }
  else { s with _failed_peers := s._failed_peers.erase peer_key }

/-- A new connection object for the peer, in use from now on. -/
def create (s : ConnectionManager) (peer_info : PeerInfo) : ConnectionRef × ConnectionManager :=
  (s.created, { s.setObject s.created { peer_info := peer_info } with created := s.created + 1 })

def activePeers (s : ConnectionManager) : List ConnectionRef :=
  s.connections.values.filter fun r => (s.object r).isActive

/-- The active peers by falling upload rate, as many as there are upload slots. -/
def topUploaders (s : ConnectionManager) (max_slots : Nat) : List ConnectionRef :=
  (s.activePeers.mergeSort fun a b =>
    decide ((s.object b).upload_rate ≤ (s.object a).upload_rate)).take max_slots

/-- The test for a new optimistic unchoke. -/
def optimisticDue (s : ConnectionManager) (interval : Rat) (current_time : Time) : Bool :=
  s.optimistic_unchoke.isNone || decide (current_time - s.optimistic_unchoke_time > interval)

/-- The optimistic unchoke so far, if it has no upload slot. -/
def outgoingOptimistic (s : ConnectionManager) : Option ConnectionRef :=
  s.optimistic_unchoke.filter fun r => r ∉ s.upload_slots

def availablePeers (s : ConnectionManager) : List ConnectionRef :=
  s.connections.values.filter fun r =>
    (s.object r).isActive && decide (r ∉ s.upload_slots) && (s.object r).peer_interested

/-- What `_disconnect_peer` does under the lock. -/
def dropConnection (s : ConnectionManager) (r : ConnectionRef) : ConnectionManager :=
  { s.setObject r { s.object r with state := .ERROR } with
    connections := s.connections.erase (s.object r).peer_info.str }

/-- What `_disconnect_peer` does about the choking. -/
def dropSlots (s : ConnectionManager) (r : ConnectionRef) : ConnectionManager :=
  { s with
    upload_slots := s.upload_slots.erase r
    optimistic_unchoke := if s.optimistic_unchoke = some r then none else s.optimistic_unchoke }

end ConnectionManager

namespace Operation

open Coroutine LockName Site

def get (f : Input → ConnectionManager → α) : Code α := read elsewhere f

def update (f : Input → ConnectionManager → ConnectionManager) : Code Unit := modify elsewhere f

/-- Something is waited for that can raise. -/
def await (site : Site) (e : PyException) (f : ConnectionManager → ConnectionManager) : Code Unit :=
  atomic site fun i s => if i.raises then (.error e, s) else (.ok (), f s)

/-- `_choke_peer`: the first site is its test, the second the end of its sending. -/
def chokePeer (test sent : Site) (connection : ConnectionRef) : Code Unit := do
  let am_choking ← read test fun _ s => (s.object connection).am_choking
  if am_choking then pure ()
  else await sent .PeerConnectionError fun s => s.setChoking connection true

def unchokePeer (connection : ConnectionRef) : Code Unit := do
  let am_choking ← get fun _ s => (s.object connection).am_choking
  if am_choking then await elsewhere .PeerConnectionError fun s => s.setChoking connection false
  else pure ()

def _disconnectPeer (connection : ConnectionRef) : Code Unit := do
  withLock connection_lock (update fun _ s => s.dropConnection connection)
  await elsewhere .other id
  update fun _ s => s.dropSlots connection
  await elsewhere .other id

def disconnectPeer (peer_info : PeerInfo) : Code Unit :=
  withLock connection_lock do
    let found ← read (.disconnectPeer peer_info.str) fun _ s => s.connections.get? peer_info.str
    match found with
    | some connection => _disconnectPeer connection
    | none => pure ()

def disconnectAll : Code Unit :=
  withLock connection_lock do
    let connections ← read .disconnectAll fun _ s => s.connections.values
    forM connections _disconnectPeer

def selectOptimistic (current_time : Time) : Code Unit := do
  let chosen ← withLock connection_lock (get fun i s =>
    s.availablePeers[i.choice % s.availablePeers.length]?)
  match chosen with
  | none => pure ()
  | some connection => do
    update fun _ s => { s with optimistic_unchoke := some connection }
    unchokePeer connection
    update fun _ s => { s with optimistic_unchoke_time := current_time }

def updateOptimisticUnchoke (config : NetworkConfig) : Code Unit := do
  let due ← read .optimisticUnchoke fun i s =>
    if s.optimisticDue config.optimistic_unchoke_interval i.now then
      some (i.now, s.outgoingOptimistic)
    else none
  match due with
  | none => pure ()
  | some (current_time, none) => selectOptimistic current_time
  | some (current_time, some outgoing) => do
    chokePeer (.optimisticChoke outgoing) .optimisticChoked outgoing
    selectOptimistic current_time

def updateChoking (config : NetworkConfig) : Code Unit :=
  withLock connection_lock do
    let (active_peers, new_upload_slots, n) ← get fun _ s =>
      (s.activePeers, s.topUploaders config.max_upload_slots, s.upload_slots.length)
    if active_peers = [] then pure ()
    else do
      forM (List.range n) fun k => do
        let peer ← get fun _ s => s.upload_slots[k]?.filter fun r => r ∉ new_upload_slots
        match peer with
        | some connection => chokePeer elsewhere elsewhere connection
        | none => pure ()
      forM new_upload_slots fun connection => do
        let unchoked ← get fun _ s => decide (connection ∈ s.upload_slots)
        if unchoked then pure () else unchokePeer connection
      update fun _ s => { s with upload_slots := new_upload_slots }
      updateOptimisticUnchoke config

/-- `_connect_to_peer`: what it does before the locks is told by the input. -/
def _connectToPeer (config : NetworkConfig) (peer_info : PeerInfo) : Code Unit := do
  let (connection, error) ← atomic elsewhere fun i s =>
    let (connection, opened) := s.create peer_info
    match i.error with
    | none => (.ok (some connection, none), opened)
    | some e =>
      if i.opened then (.ok (some connection, some e), opened) else (.ok (none, some e), s)
  match error with
  | none => do
    withLock connection_lock (update fun _ s =>
      match connection with
      | some r => { s with connections := s.connections.set peer_info.str r }
      | none => s)
    -- a look whether the connection is still there, for the log
    withLock connection_lock (pure ())
  | some e => do
    -- a look whether the connection was there, for the log
    if e ≠ .PeerConnectionError ∨ config.circuit_breaker_enabled then
      withLock connection_lock (pure ())
    match connection with
    | some r => _disconnectPeer r
    | none => pure ()
    raise e

def selectPeers (max_connections : Nat) (current_time : Time) :
    List PeerData → List PeerInfo → Nat → Code (List PeerInfo × Nat)
  | [], chosen, skipped_failed => pure (chosen, skipped_failed)
  | .other :: rest, chosen, skipped_failed =>
    selectPeers max_connections current_time rest chosen skipped_failed
  | .incomplete :: rest, chosen, skipped_failed =>
    selectPeers max_connections current_time rest chosen skipped_failed
  | .invalid :: _, _, _ => raise .other
  | .valid p :: rest, chosen, skipped_failed => do
    let connected ← get fun _ s => s.connections.contains p.str
    if connected then selectPeers max_connections current_time rest chosen skipped_failed
    else do
      let skip ← withLock _failed_peer_lock (get fun _ s => s.backsOff p.str current_time)
      if skip then selectPeers max_connections current_time rest chosen (skipped_failed + 1)
      else if max_connections ≤ (chosen ++ [p]).length then pure (chosen ++ [p], skipped_failed)
      else selectPeers max_connections current_time rest (chosen ++ [p]) skipped_failed

/-- What `connect_to_peers` does about one result of a batch. -/
def recordResult (p : PeerInfo) (attempt : Attempt) : Code Unit :=
  match attempt with
  | .raised is_temporary reason =>
    withLock _failed_peer_lock (update fun i s =>
      s.recordFailure p.str is_temporary reason i.now)
  | .ended =>
    withLock connection_lock do
      let connected ← read (.attemptEnded p.str) fun _ s => s.connections.contains p.str
      if connected then pure ()
      else
        -- after a short sleep a second look, for the statistics
        withLock connection_lock (pure ())

/-- A batch of `connect_to_peers`: each peer's attempt is a task of its own. -/
def connectBatch (batch : List PeerInfo) : Code Unit := do
  let results ← get fun i _ => batch.zipIdx.map fun (p, n) => (p, i.attempts n)
  forM results fun (p, attempt) => recordResult p attempt

def connectToPeers (config : NetworkConfig) (peer_list : List PeerData) : Code Unit :=
  if peer_list = [] then pure ()
  -- `peer.get("peer_source", ...)` of what is not a dictionary
  else if peer_list.any (!·.isDict) then raise .other
  else do
    let max_connections := min config.max_peers_per_torrent peer_list.length
    let current_time ← get fun i _ => i.now
    withLock _failed_peer_lock (update fun _ s => s.dropExpired current_time)
    let (peer_info_list, skipped_failed) ←
      selectPeers max_connections current_time (peer_list.take (max_connections * 2)) [] 0
    -- the average backoff of the skipped peers, for the log
    if 0 < skipped_failed then withLock _failed_peer_lock (pure ())
    if config.connection_pool_warmup_enabled ∧ peer_info_list ≠ [] ∧ ¬config.windows then
      await elsewhere .other id
    if peer_info_list = [] then pure ()
    else do
      let batch_size := min (if config.windows then 5 else 10) max_connections
      forM (peer_info_list.toChunks batch_size) connectBatch

/-- The peers of a list of failures whose time has come and that are not connected. -/
def retryCandidates (current_time : Time) :
    List (String × FailInfo) → List String → Code (List String)
  | [], candidates => pure candidates
  | (peer_key, f) :: rest, candidates =>
    if ConnectionManager.backoffInterval f.count ≤ current_time - f.timestamp then do
      let connected ← withLock connection_lock (get fun _ s => s.connections.contains peer_key)
      retryCandidates current_time rest (if connected then candidates else candidates ++ [peer_key])
    else retryCandidates current_time rest candidates

/-- The peer list for a key "ip:port", if the key has that form. -/
def retryList (peer_key : String) : Option (List PeerData) :=
  match peer_key.splitOn ":" with
  | [ip, port_str] => port_str.toNat?.map fun port =>
    [(PeerInfo.ofFields ip port).elim .invalid .valid]
  | _ => none

/-- A turn of `_reconnection_loop`, which survives every exception. -/
def reconnectionLoopStep (config : NetworkConfig) : Code Unit := do
  let retry_candidates ← withLock _failed_peer_lock do
    let (current_time, failed) ← get fun i s => (i.now, s._failed_peers.entries)
    retryCandidates current_time failed []
  forM (retry_candidates.take 10) fun peer_key =>
    match retryList peer_key with
    | some peer_list => tryCatch (connectToPeers config peer_list) fun _ => pure ()
    | none => pure ()

/-- The handling of a connection's messages changes its object. -/
def receive (connection : ConnectionRef) : Code Unit :=
  update fun i s =>
    s.setObject connection { i.received with peer_info := (s.object connection).peer_info }

end Operation

/-- The operations that run as tasks, any number of each. -/
inductive Operation
  | connect_to_peers (peer_list : List PeerData)
  | _connect_to_peer (peer_info : PeerInfo)
  | _update_choking
  | disconnect_peer (peer_info : PeerInfo)
  | disconnect_all
  | _disconnect_peer (connection : ConnectionRef)
  | _reconnection_loop
  | _handle_message (connection : ConnectionRef)

def Operation.code (config : NetworkConfig) : Operation → Operation.Code Unit
  | connect_to_peers peer_list => connectToPeers config peer_list
  | _connect_to_peer peer_info => _connectToPeer config peer_info
  | _update_choking => updateChoking config
  | disconnect_peer peer_info => disconnectPeer peer_info
  | disconnect_all => disconnectAll
  | _disconnect_peer connection => _disconnectPeer connection
  | _reconnection_loop => reconnectionLoopStep config
  | _handle_message connection => receive connection

def startOperations (config : NetworkConfig) (operations : List Operation)
    (s : ConnectionManager) : System LockName Site Input ConnectionManager PyException :=
  .start (operations.map (Operation.code config)) s

end Peer

end Ccbt
