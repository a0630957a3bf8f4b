import Ccbt.Piece.Availability
import Ccbt.Piece.Selection

/-!
# The tasks of `AsyncPieceManager`

`request_piece_from_peers` and `_verify_piece_hash` of `piece/async_piece_manager.py` as tasks
beside the calls that run without a pause. A task only pauses while a request is sent and while
the executor hashes a piece; nothing waits for `self.lock`, which is never held across a pause.
A task is known by its place in the list of tasks. What is called back and what is asked of
peers is kept in a log.
-/

namespace Ccbt

open Python Transition

namespace Piece

/-- What the peer manager answers while a task runs to its next pause. -/
structure PeerManager where
  /-- `str(peer_info)` of `get_active_peers()`. -/
  active_peers : List String
  can_request : String → Bool

/-- A run of `request_piece_from_peers` that sends requests. -/
structure Sending where
  piece_index : Nat
  available_peers : List String
  /-- Blocks and peers of the request in hand and of those that are settled. -/
  current : Nat × String
  pairs : List (Nat × String)
  /-- The blocks of the endgame that have no peers yet. -/
  missing_blocks : List Nat
  deriving DecidableEq

inductive Task
  | request (piece_index : Nat)
  | sending (s : Sending)
  | verify (piece_index : Nat)
  /-- The executor has the piece; `last` if no other hash is compared after this one. -/
  | hashing (piece_index : Nat) (expected_hash : Bytes) (last : Bool) (is_valid : Option Bool)
  | finished
  deriving DecidableEq

/-- The callbacks, as they are called. -/
inductive Callback
  | on_piece_completed (piece_index : Nat)
  | on_piece_verified (piece_index : Nat)
  | on_download_complete
  deriving DecidableEq

/-- A request that was issued, and whether its peer has been removed since. -/
structure Request where
  piece_index : Nat
  block : Nat
  peer_key : String
  removed : Bool := false
  deriving DecidableEq

def Request.lose (peer_key : String) (r : Request) : Request :=
  if r.peer_key = peer_key then { r with removed := true } else r

structure System where
  manager : AsyncPieceManager
  tasks : List Task := []
  calls : List Callback := []
  requests : List Request := []

/-- What can happen next. -/
inductive Event
  | handle_piece_block (piece_index begin : Nat) (data : Bytes)
  | request_piece_from_peers (piece_index : Nat)
  | _verify_piece_hash (piece_index : Nat)
  | get_missing_pieces
  | _select_pieces (active_peers : Nat)
  | _add_peer (peer_key : String)
  | update_peer_availability (peer_key : String) (bitfield : Bytes)
  | update_peer_have (peer_key : String) (piece_index : Nat)
  | _remove_peer (peer_key : String)
  /-- The task runs to its next pause; `raises` if the request it waits for has failed. -/
  | resume (task : Nat) (peers : PeerManager) (raises : Bool)
  /-- The executor hashes the piece of the task. -/
  | hash (task : Nat)

namespace AsyncPieceManager

variable (m : AsyncPieceManager)

def getPeersForPiece (peers : PeerManager) (piece_index : Nat) : List String :=
  peers.active_peers.filter fun peer_key =>
    decide (piece_index ∈ m.piecesOf peer_key) && peers.can_request peer_key

/-- The order of `_request_blocks_normal`: the most reliable peer first. -/
def sortByReliability (available_peers : List String) : List String :=
  sortOn (fun peer_key => -((m.peer_availability.get? peer_key).getD {}).reliability_score)
    available_peers

/-- Which block `_request_blocks_normal` asks of which peer. -/
def distribute (missing_blocks : List Nat) (available_peers : List String) : List (Nat × String) :=
  let blocks_per_peer := max 1 (missing_blocks.length / available_peers.length)
  available_peers.zipIdx.flatMap fun (peer_key, i) =>
    ((missing_blocks.drop (i * blocks_per_peer)).take blocks_per_peer).map (·, peer_key)

def setState (piece_index : Nat) (state : PieceState) : AsyncPieceManager :=
  m.modifyPiece piece_index fun piece => { piece with state := state }

end AsyncPieceManager

namespace System

variable (config : Config) (s : System)

/-- A manager with callbacks, before anything has happened. -/
def new (t : TorrentData) (fm : Option FileSelectionManager)
    (on_piece_completed on_piece_verified on_download_complete : Bool) : System where
  manager :=
    { AsyncPieceManager.new config t fm with
      on_piece_completed := on_piece_completed
      on_piece_verified := on_piece_verified
      on_download_complete := on_download_complete }

def spawn (tasks : List Task) : System := { s with tasks := s.tasks ++ tasks }

def setTask (n : Nat) (task : Task) : System := { s with tasks := s.tasks.set n task }

def setManager (m : AsyncPieceManager) : System := { s with manager := m }

def call (isSet : Bool) (c : Callback) : System :=
  if isSet then { s with calls := s.calls ++ [c] } else s

def handlePieceBlock (piece_index begin : Nat) (data : Bytes) : System :=
  match s.manager.handlePieceBlock piece_index begin data with
  | (true, m) =>
    if m.on_piece_completed then
      ((s.setManager m).call true (.on_piece_completed piece_index)).spawn [.verify piece_index]
    else s.setManager m
  | (false, _) => s

/-- The request for a block that comes next in the endgame, with those for the same block. -/
def nextBlock (capable_peers : List String) : List Nat →
    Option ((Nat × String) × List (Nat × String) × List Nat)
  | [] => none
  | block :: missing_blocks =>
    match capable_peers.take config.endgame_duplicates with
    | [] => nextBlock capable_peers missing_blocks
    | peer_key :: peer_keys => some ((block, peer_key), peer_keys.map (block, ·), missing_blocks)

/-- The request that comes next: peers that cannot take one are passed over. -/
def nextRequest (peers : PeerManager) (available_peers : List String)
    (pairs : List (Nat × String)) (missing_blocks : List Nat) :
    Option ((Nat × String) × List (Nat × String) × List Nat) :=
  match pairs.dropWhile fun pair => !peers.can_request pair.2 with
  | pair :: pairs => some (pair, pairs, missing_blocks)
  | [] => nextBlock config (available_peers.filter peers.can_request) missing_blocks

/-- The task sends its next request, or ends with the piece in the state DOWNLOADING. -/
def sendNext (peers : PeerManager) (n piece_index : Nat) (available_peers : List String)
    (pairs : List (Nat × String)) (missing_blocks : List Nat) : System :=
  match nextRequest config peers available_peers pairs missing_blocks with
  | some (current, pairs, missing_blocks) =>
    { s.setTask n (.sending ⟨piece_index, available_peers, current, pairs, missing_blocks⟩) with
      requests := s.requests ++ [⟨piece_index, current.1, current.2, false⟩] }
  | none => (s.setManager (s.manager.setState piece_index .DOWNLOADING)).setTask n .finished

/-- `request_piece_from_peers` up to its first request. -/
def startRequest (peers : PeerManager) (n piece_index : Nat) : System :=
  let m := s.manager.initializePieces config
  match m.pieces[piece_index]? with
  | none => (s.setManager m).setTask n .finished
  | some piece =>
    if piece.state ≠ .MISSING then (s.setManager m).setTask n .finished
    else
      let m := m.modifyPiece piece_index fun piece =>
        { piece with state := .REQUESTED, request_count := piece.request_count + 1 }
      match m.getPeersForPiece peers piece_index, piece.getMissingBlocks with
      | [], _ => (s.setManager (m.setState piece_index .MISSING)).setTask n .finished
      | _ :: _, [] => (s.setManager m).setTask n .finished
      | peer_key :: peer_keys, missing_blocks =>
        if m.endgame_mode then
          (s.setManager m).sendNext config peers n piece_index (peer_key :: peer_keys) []
            missing_blocks
        else
          let available_peers := m.sortByReliability (peer_key :: peer_keys)
          (s.setManager m).sendNext config peers n piece_index available_peers
            (AsyncPieceManager.distribute missing_blocks available_peers) []

/-- A request was sent: `requested_from` is told, and the task goes on. -/
def requestSent (peers : PeerManager) (n : Nat) (t : Sending) : System :=
  (s.setManager (s.manager.modifyPiece t.piece_index fun piece =>
    piece.addRequestedFrom t.current.1 t.current.2)).sendNext config peers n t.piece_index
      t.available_peers t.pairs t.missing_blocks

/-- `_verify_piece_hash` up to the executor. -/
def startVerify (n piece_index : Nat) : System :=
  match s.manager.firstHash piece_index with
  | none => s.setTask n .finished
  | some (expected_hash, last) => s.setTask n (.hashing piece_index expected_hash last none)

def hashPiece (n piece_index : Nat) (expected_hash : Bytes) (last : Bool) : System :=
  let is_valid := s.manager.pieces[piece_index]?.any fun piece =>
    AsyncPieceManager.hashPieceOptimized config piece expected_hash
  s.setTask n (.hashing piece_index expected_hash last (some is_valid))

/-- The end of `_verify_piece_hash` for a piece whose hashes are right. -/
def pieceVerified (piece_index : Nat) : System :=
  let m := { s.manager.setState piece_index .VERIFIED with
    verified_pieces := insert piece_index s.manager.verified_pieces }
  let s := (s.setManager m).call m.on_piece_verified (.on_piece_verified piece_index)
  if m.verified_pieces.card = m.num_pieces then
    (s.setManager { m with download_complete := true }).call m.on_download_complete
      .on_download_complete
  else s

/-- `_verify_piece_hash` when the executor has answered. -/
def hashed (n piece_index : Nat) (last is_valid : Bool) : System :=
  if is_valid = false then s.setTask n .finished
  else if last then (s.setTask n .finished).pieceVerified piece_index
  else
    match s.manager.getV2PieceHash piece_index with
    | none => s.setTask n .finished
    | some expected_hash => s.setTask n (.hashing piece_index expected_hash true none)

/-- A task runs to its next pause. -/
def resume (n : Nat) (peers : PeerManager) (raises : Bool) : System :=
  match s.tasks[n]? with
  | some (.request piece_index) => s.startRequest config peers n piece_index
  | some (.sending t) => if raises then s.setTask n .finished else s.requestSent config peers n t
  | some (.verify piece_index) => s.startVerify n piece_index
  | some (.hashing piece_index _ last (some is_valid)) => s.hashed n piece_index last is_valid
  | some (.hashing _ _ _ none) | some .finished | none => s

def hash (n : Nat) : System :=
  match s.tasks[n]? with
  | some (.hashing piece_index expected_hash last none) =>
    s.hashPiece config n piece_index expected_hash last
  | _ => s

def step : Event → System
  | .handle_piece_block piece_index begin data => s.handlePieceBlock piece_index begin data
  | .request_piece_from_peers piece_index => s.spawn [.request piece_index]
  | ._verify_piece_hash piece_index =>
    if piece_index < s.manager.pieces.length then s.spawn [.verify piece_index] else s
  | .get_missing_pieces => s.setManager s.manager.getMissingPieces.2
  | ._select_pieces active_peers =>
    let (selected, m) := s.manager.selectPieces config active_peers
    (s.setManager m).spawn (selected.map .request)
  | ._add_peer peer_key => s.setManager (s.manager.addPeer peer_key)
  | .update_peer_availability peer_key bitfield =>
    s.setManager (s.manager.updatePeerAvailability peer_key bitfield)
  | .update_peer_have peer_key piece_index =>
    s.setManager (s.manager.updatePeerHave peer_key piece_index)
  | ._remove_peer peer_key =>
    { s.setManager (s.manager.removePeer peer_key) with
      requests := s.requests.map (Request.lose peer_key) }
  | .resume n peers raises => s.resume config n peers raises
  | .hash n => s.hash config n

end System

end Piece

end Ccbt
