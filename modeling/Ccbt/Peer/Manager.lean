import Ccbt.Peer.Connection
import Ccbt.Peer.PieceManager
import Ccbt.Protocols.BittorrentV2

/-!
# Handling the messages of a peer: `AsyncPeerConnectionManager`

The handlers of `message_handlers` and `_handle_message`, which dispatches on its
own. What a handler asks of the piece manager, the peer and the callbacks is a list
of calls; what these answer may depend on all calls made so far. An exception ends
a handler, and `_handle_message` logs it.
-/

namespace Ccbt

open Python

namespace Peer

/-- What a handler does outside the connection. -/
inductive Call
  /-- `_send_message` with a writer -/
  | send (message : PeerMessage)
  | update_peer_have (piece_index : UInt32)
  | start_download
  | set_peer_manager
  /-- `create_task(piece_manager._select_pieces())` -/
  | select_pieces
  /-- `create_task(trigger_piece_selection_with_retry())` -/
  | trigger_piece_selection_with_retry
  | get_block (piece_index begin length : Nat)
  | read_block (piece_index begin length : Nat)
  | on_bitfield_received (bitfield : Bytes)
  | on_piece_received (piece_index begin : UInt32) (block : Bytes)
  deriving DecidableEq

structure Environment where
  piece_manager : List Call → PieceManager
  /-- Whether the last of the calls raises. -/
  raises : List Call → Bool := fun _ => false
  time : List Call → Time := fun _ => 0
  /-- Whether the callbacks are set. -/
  on_bitfield_received : Bool := false
  on_piece_received : Bool := false

structure Session where
  connection : AsyncPeerConnection
  last_piece_selection_trigger : Time := 0
  calls : List Call := []

/-- What a block of the piece manager can be: `read_block` is a coroutine and is not awaited. -/
inductive Block
  | bytes (data : Bytes)
  | coroutine

namespace Environment

variable (env : Environment)

def call (s : Session) (c : Call) : Session := { s with calls := s.calls ++ [c] }

def sendMessage (s : Session) (message : PeerMessage) : Session × Bool :=
  if s.connection.writer then
    let s := call s (.send message)
    (s, !env.raises s.calls)
  else (s, false)

def sendInterested (s : Session) : Session :=
  let (s, ok) := env.sendMessage s .InterestedMessage
  if ok then { s with connection := { s.connection with am_interested := true } } else s

def handleChoke (s : Session) : Session :=
  { s with connection := { s.connection with peer_choking := true, state := .CHOKED } }

def handleUnchoke (s : Session) : Session :=
  call { s with connection := { s.connection with peer_choking := false, state := .ACTIVE } }
    .trigger_piece_selection_with_retry

def handleInterested (s : Session) : Session :=
  { s with connection := { s.connection with peer_interested := true } }

def handleNotInterested (s : Session) : Session :=
  { s with connection := { s.connection with peer_interested := false } }

/-- Seconds between two piece selections that have messages trigger. -/
def piece_selection_debounce_interval : Time := 1 / 10

/-- The end of `_handle_have`: a piece selection, unless the last one was just now. -/
def triggerSelection (s : Session) : Session :=
  let current_time := env.time s.calls
  if piece_selection_debounce_interval ≤ current_time - s.last_piece_selection_trigger then
    call { s with last_piece_selection_trigger := current_time } .select_pieces
  else s

/-- Where the download has not begun, `start_download` is called; exceptions are caught. -/
def startDownload (s : Session) : Session :=
  if (env.piece_manager s.calls).is_downloading then s else call s .start_download

def handleHave (s : Session) (piece_index : UInt32) : Session :=
  let peer_state := s.connection.peer_state
  if piece_index ∈ peer_state.pieces_we_have then s
  else
    let peer_state := { peer_state with
      pieces_we_have := peer_state.pieces_we_have ++ [piece_index] }
    let s := call { s with connection := { s.connection with peer_state := peer_state } }
      (.update_peer_have piece_index)
    let s := env.startDownload s
    if (env.piece_manager s.calls).is_downloading then env.triggerSelection s else s

/-- The bitfield handler sets `_peer_manager` before it calls `start_download`. -/
def startWithManager (s : Session) : Session :=
  if (env.piece_manager s.calls).is_downloading then s
  else if (env.piece_manager s.calls).peer_manager then call s .start_download
  else call (call s .set_peer_manager) .start_download

def notifyBitfield (s : Session) (bitfield : Bytes) : Session :=
  if env.on_bitfield_received then call s (.on_bitfield_received bitfield) else s

/-- With both bitfields exchanged, or when the peer has unchoked us before, the connection is
active. -/
def activate (s : Session) : Session :=
  if s.connection.state = .BITFIELD_SENT then
    { s with connection := { s.connection with state := .ACTIVE } }
  else if !s.connection.peer_choking then
    { s with connection := { s.connection with state := .ACTIVE } }
  else s

def handleBitfield (s : Session) (bitfield : Bytes) : Session :=
  if bitfield = [] then s
  else
    let c := s.connection
    let s := { s with connection := { c with
      peer_state := { c.peer_state with bitfield := some bitfield }
      state := .BITFIELD_RECEIVED } }
    let s := activate (if s.connection.am_interested then s else env.sendInterested s)
    env.notifyBitfield (env.startWithManager s) bitfield

def findBlock (s : Session) (piece_index begin length : Nat) : Session × Option Block :=
  let s := call s (.get_block piece_index begin length)
  match (env.piece_manager s.calls).getBlock piece_index begin length with
  | some block => (s, some (.bytes block))
  | none =>
    match (env.piece_manager s.calls).file_assembler with
    | some _ => (call s (.read_block piece_index begin length), some .coroutine)
    | none => (s, none)

/-- `len(block)` raises on a coroutine. -/
def handleRequest (s : Session) (piece_index begin length : UInt32) : Session :=
  match env.findBlock s piece_index.toNat begin.toNat length.toNat with
  | (s, some (.bytes block)) =>
    if block.length ≠ length.toNat then s
    else
      let (s, ok) := env.sendMessage s (.PieceMessage piece_index begin block)
      if ok then
        { s with connection := { s.connection with
          bytes_uploaded := s.connection.bytes_uploaded + block.length } }
      else s
  | (s, some .coroutine) => s
  | (s, none) => s

def handlePiece (s : Session) (piece_index begin : UInt32) (block : Bytes) : Session :=
  let c := s.connection
  let s := { s with connection := { c with
    bytes_downloaded := c.bytes_downloaded + block.length
    outstanding_requests :=
      c.outstanding_requests.erase (piece_index.toNat, begin.toNat, block.length) } }
  if env.on_piece_received then call s (.on_piece_received piece_index begin block) else s

def handleCancel (s : Session) (piece_index begin length : UInt32) : Session :=
  { s with connection := { s.connection with
    outstanding_requests := s.connection.outstanding_requests.erase
      (piece_index.toNat, begin.toNat, length.toNat) } }

/-- The handler that `message_handlers` has for a message; a keep-alive has none. -/
def registeredHandler (s : Session) : PeerMessage → Session
  | .KeepAliveMessage => s
  | .ChokeMessage => handleChoke s
  | .UnchokeMessage => handleUnchoke s
  | .InterestedMessage => handleInterested s
  | .NotInterestedMessage => handleNotInterested s
  | .HaveMessage piece_index => env.handleHave s piece_index
  | .BitfieldMessage bitfield => env.handleBitfield s bitfield
  | .RequestMessage piece_index begin length => env.handleRequest s piece_index begin length
  | .PieceMessage piece_index begin block => env.handlePiece s piece_index begin block
  | .CancelMessage piece_index begin length => handleCancel s piece_index begin length

/-- `_handle_message`: three kinds go to their handlers, and of the others it knows four. -/
def handleMessage (s : Session) (message : PeerMessage) : Session :=
  match message with
  | .KeepAliveMessage => s
  | .BitfieldMessage _ => env.registeredHandler s message
  | .HaveMessage _ => env.registeredHandler s message
  | .PieceMessage _ _ _ => env.registeredHandler s message
  | .ChokeMessage =>
    { s with connection := { s.connection with peer_choking := true, state := .CHOKED } }
  | .UnchokeMessage =>
    { s with connection := { s.connection with peer_choking := false, state := .ACTIVE } }
  | .InterestedMessage =>
    { s with connection := { s.connection with peer_interested := true } }
  | .NotInterestedMessage =>
    { s with connection := { s.connection with peer_interested := false } }
  | .RequestMessage _ _ _ => s
  | .CancelMessage _ _ _ => s

end Environment

end Peer

end Ccbt
