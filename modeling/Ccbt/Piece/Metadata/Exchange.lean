import Ccbt.Core.Bencode.Canonical
import Ccbt.Core.Torrent
import Ccbt.Python.Hashlib
import Ccbt.Transition.Run

/-!
# Metadata of magnet links: `AsyncMetadataExchange` of `piece/async_metadata_exchange.py`

Every peer has a session of its own, and all sessions fill one table of pieces. A session that
has negotiated goes through the numbers of its pieces and waits for one of them at a time; between
two answers the other sessions take their steps. The decoder is given fuel.
-/

namespace Ccbt

open Python Bencode Transition

namespace Metadata

/-- `math.ceil(metadata_size / 16384)`. The division is exact for every size of which there can be
the pieces. -/
def ceilPieces (metadata_size : Int) : Int := -(-metadata_size / 16384)

def isOctet : PyObj → Bool
  | .int n => 0 ≤ n ∧ n < 256
  | _ => false

/-- A session that has received the extended handshake of its peer. `next` is where the loop of
`_request_metadata_pieces` stands: the pieces before it are `pieces_requested`. -/
structure PeerMetadataSession where
  ut_metadata_id : Option PyObj
  metadata_size : Option PyObj
  num_pieces : Int := 0
  pieces_received : Dict Nat Bytes := .empty
  next : Nat := 0

/-- The piece that the session waits for. A request that cannot be packed fails at once. -/
def PeerMetadataSession.awaited (s : PeerMetadataSession) : Option Nat :=
  if s.next < s.num_pieces ∧ s.ut_metadata_id.any isOctet then some s.next else none

/-- What the sessions have and share. The keys of `metadata_pieces` are the numbers from 0 on, and
of a `MetadataPiece` only the data counts. -/
structure PieceTable where
  sessions : List PeerMetadataSession := []
  metadata_pieces : List (Option Bytes) := []

namespace PieceTable

/-- `_request_metadata_pieces` of a session that has negotiated, up to its first request. A size
that is not a number ends the session with a `TypeError`. -/
def requestMetadataPieces (t : PieceTable) (session : PeerMetadataSession) : PieceTable :=
  match session.ut_metadata_id, session.metadata_size with
  | some id, some (.int size) =>
    if Torrent.truth id ∧ Torrent.truth (.int size) then
      { sessions := t.sessions ++ [{ session with num_pieces := ceilPieces size }]
        metadata_pieces :=
          if t.metadata_pieces.isEmpty then List.replicate (ceilPieces size).toNat none
          else t.metadata_pieces }
    else { t with sessions := t.sessions ++ [session] }
  | _, _ => { t with sessions := t.sessions ++ [session] }

def awaited (t : PieceTable) (n : Nat) : Option Nat := t.sessions[n]?.bind (·.awaited)

/-- `_handle_metadata_piece` up to the check whether all pieces are there. -/
def storePiece (t : PieceTable) (n piece_idx : Nat) (piece_data : Bytes) : PieceTable where
  sessions := t.sessions.modify n fun s =>
    { s with
      pieces_received := s.pieces_received.set piece_idx piece_data
      next := s.next + 1 }
  metadata_pieces := t.metadata_pieces.set piece_idx (some piece_data)

def isMetadataComplete (t : PieceTable) : Bool :=
  !t.metadata_pieces.isEmpty && t.metadata_pieces.all Option.isSome

/-- The pieces in the order of their numbers, put together. -/
def assembled (t : PieceTable) : Bytes := t.metadata_pieces.flatMap (·.getD [])

end PieceTable

/-- What the tasks of the sessions do between two suspensions. -/
inductive Event
  /-- Another session has negotiated these values and asks for its first piece. -/
  | request (ut_metadata_id metadata_size : Option PyObj)
  /-- The piece that a session waits for arrives. -/
  | piece (n : Nat) (piece_data : Bytes)
  /-- The piece that a session waits for is rejected, or does not come in time. -/
  | failed (n : Nat)

namespace PieceTable

/-- What an event does to the table, whatever the metadata is. -/
def step (t : PieceTable) : Event → PieceTable
  | .request ut_metadata_id metadata_size =>
    t.requestMetadataPieces { ut_metadata_id, metadata_size }
  | .piece n piece_data =>
    match t.awaited n with
    | some piece_idx => t.storePiece n piece_idx piece_data
    | none => t
  | .failed n => { t with sessions := t.sessions.modify n fun s => { s with next := s.next + 1 } }

/-- The octets that an event makes the exchange assemble. -/
def assembledBy (t : PieceTable) : Event → Option Bytes
  | .piece n piece_data =>
    match t.awaited n with
    | some piece_idx =>
      let t := t.storePiece n piece_idx piece_data
      if t.isMetadataComplete then some t.assembled else none
    | none => none
  | _ => none

end PieceTable

structure AsyncMetadataExchange extends PieceTable where
  info_hash : Bytes
  completed : Bool := false
  metadata_data : Option Bytes := none
  metadata_dict : Option PyObj := none

/-- What the decoder makes of the metadata, if the encoding of it has the right hash. -/
def checkMetadata (fuel : Nat) (info_hash metadata_data : Bytes) : Option PyObj :=
  match (decode metadata_data fuel ⟨0, false⟩).1 with
  | .ok metadata_dict =>
    match encode metadata_dict with
    | .ok encoded_metadata => if sha1 encoded_metadata = info_hash then some metadata_dict else none
    | .error _ => none
  | .error _ => none

namespace AsyncMetadataExchange

def assembleMetadata (fuel : Nat) (x : AsyncMetadataExchange) : AsyncMetadataExchange :=
  match checkMetadata fuel x.info_hash x.assembled with
  | some metadata_dict =>
    { x with
      metadata_data := some x.assembled
      metadata_dict := some metadata_dict
      completed := true }
  | none => x

def handleMetadataPiece (fuel : Nat) (x : AsyncMetadataExchange) (n piece_idx : Nat)
    (piece_data : Bytes) : AsyncMetadataExchange :=
  let x := { x with toPieceTable := x.toPieceTable.storePiece n piece_idx piece_data }
  if x.isMetadataComplete then x.assembleMetadata fuel else x

def step (fuel : Nat) (x : AsyncMetadataExchange) : Event → AsyncMetadataExchange
  | .piece n piece_data =>
    match x.awaited n with
    | some piece_idx => x.handleMetadataPiece fuel n piece_idx piece_data
    | none => x
  | e => { x with toPieceTable := x.toPieceTable.step e }

def new (info_hash : Bytes) : AsyncMetadataExchange := { info_hash }

variable {fuel : Nat} {x : AsyncMetadataExchange} {e : Event}

/-- What a step does apart from the table: it accepts what it assembles, if that passes the
check. -/
theorem step_eq (x : AsyncMetadataExchange) (e : Event) : x.step fuel e =
    match x.assembledBy e with
    | some data =>
      match checkMetadata fuel x.info_hash data with
      | some metadata_dict =>
        { x with
          toPieceTable := x.toPieceTable.step e
          metadata_data := some data
          metadata_dict := some metadata_dict
          completed := true }
      | none => { x with toPieceTable := x.toPieceTable.step e }
    | none => { x with toPieceTable := x.toPieceTable.step e } := by
  cases e with
  | request id size => rfl
  | failed n => rfl
  | piece n data =>
    rw [step, PieceTable.assembledBy, PieceTable.step]
    cases x.awaited n with
    | none => rfl
    | some i =>
      dsimp only
      rw [handleMetadataPiece]
      split
      · rw [assembleMetadata]
      · rfl

/-- The table goes its own way. -/
@[simp] theorem toPieceTable_step :
    (x.step fuel e).toPieceTable = x.toPieceTable.step e := by
  rw [step_eq]
  split
  · split <;> rfl
  · rfl

@[simp] theorem info_hash_step : (x.step fuel e).info_hash = x.info_hash := by
  rw [step_eq]
  split
  · split <;> rfl
  · rfl

theorem toPieceTable_run (es : List Event) :
    (run (step fuel) x es).toPieceTable = run PieceTable.step x.toPieceTable es :=
  map_run fun _ _ => toPieceTable_step

theorem info_hash_run (es : List Event) : (run (step fuel) x es).info_hash = x.info_hash := by
  induction es generalizing x with
  | nil => rfl
  | cons e es ih => rw [run_cons, ih, info_hash_step]

end AsyncMetadataExchange

/-!
## The messages of one session, and what `fetch_metadata` returns

A peer sends octets of its own accord and more octets for every request that reaches it. Time is
left out: what a peer sends arrives whole while the client still waits for it, and where the client
waits for more than that its wait ends. The decoder is given fuel.
-/

/-- What a client sees of a peer. -/
structure Peer where
  /-- What it sends without having been asked for a piece. -/
  greeting : Bytes
  /-- What it sends for a message of the client. -/
  answer : Bytes → Bytes

def readexactly (n : Nat) (stream : Bytes) : Option (Bytes × Bytes) :=
  if n ≤ stream.length then some (stream.take n, stream.drop n) else none

/-- The payload of the next message. That of a keep-alive is empty. -/
def readMessage (stream : Bytes) : Option (Bytes × Bytes) := do
  let (length_data, stream) ← readexactly 4 stream
  readexactly (ofBigEndian length_data) stream

def frame (payload : Bytes) : Bytes := bigEndian 4 payload.length ++ payload

def msgId (payload : Bytes) : UInt8 := payload.headD 0

def extId (payload : Bytes) : UInt8 := (payload[1]?).getD 0

def extended (ext_id : UInt8) (payload : Bytes) : Bytes := frame (20 :: ext_id :: payload)

/-- `value == n` for a value that has been decoded. -/
def isNumber (n : Int) : Option PyObj → Bool
  | some (.int k) => k = n
  | _ => false

/-- `_validate_handshake` of 68 octets. -/
def validateHandshake (info_hash handshake_data : Bytes) : Bool :=
  (handshake_data.take 20).drop 1 = ascii "BitTorrent protocol" ∧
    (handshake_data.take 48).drop 28 = info_hash

/-- The id under which the client wants to be sent metadata. -/
def advertisedId : UInt8 := 1

/-- The message of `_send_extended_handshake`: the encoding of `{b"m": {b"ut_metadata": 1}}`. -/
def extendedHandshake : Bytes :=
  extended 0 (ascii "d" ++ (encodeString (ascii "m") ++ (ascii "d" ++
    (encodeString (ascii "ut_metadata") ++ encodeInteger advertisedId.toNat) ++ ascii "e")) ++
    ascii "e")

/-- What `_receive_extended_handshake` takes from the dictionary of the peer. A value that is no
dictionary under `m` ends it. -/
def negotiate (data : Torrent.PyDict) : PeerMetadataSession :=
  match Torrent.getKey data "m" with
  | none => { ut_metadata_id := none, metadata_size := Torrent.getKey data "metadata_size" }
  | some (.dict m) =>
    { ut_metadata_id := Torrent.getKey m "ut_metadata"
      metadata_size := Torrent.getKey data "metadata_size" }
  | some _ => { ut_metadata_id := none, metadata_size := none }

/-- `_receive_extended_handshake`: the rounds that are left, and what is left of the stream. -/
def receiveExtendedHandshake (fuel : Nat) : Nat → Bytes → PeerMetadataSession × Bytes
  | 0, stream => ({ ut_metadata_id := none, metadata_size := none }, stream)
  | rounds + 1, stream =>
    match readMessage stream with
    | none => ({ ut_metadata_id := none, metadata_size := none }, stream)
    | some (payload, stream) =>
      if msgId payload = 20 ∧ extId payload = 0 then
        match (decode (payload.drop 2) fuel ⟨0, false⟩).1 with
        | .ok (.dict data) => (negotiate data, stream)
        | _ => ({ ut_metadata_id := none, metadata_size := none }, stream)
      else receiveExtendedHandshake fuel rounds stream

/-- The request for a piece, if the id of the peer can be packed into it: the encoding of
`{b"msg_type": 0, b"piece": piece_idx}` behind the id. -/
def requestMessage (ut_metadata_id : Option PyObj) (piece_idx : Nat) : Option Bytes :=
  match ut_metadata_id with
  | some (.int id) =>
    if isOctet (.int id) then
      some (extended id.toNat.toUInt8 (ascii "d" ++ (encodeString (ascii "msg_type") ++
        encodeInteger 0 ++ (encodeString (ascii "piece") ++ encodeInteger piece_idx)) ++ ascii "e"))
    else none
  | _ => none

/-- What a message means to a session that waits for a piece. -/
inductive Response
  | data (piece_data : Bytes)
  /-- The piece is refused, or the message is not understood. -/
  | failed
  /-- Another message, after which the wait goes on. -/
  | other

/-- The body of the loop of `_wait_for_piece_response`. -/
def pieceResponse (fuel : Nat) (ut_metadata_id : Option PyObj) (piece_idx : Nat)
    (payload : Bytes) : Response :=
  if msgId payload = 20 ∧ isNumber (extId payload).toNat ut_metadata_id then
    match decode (payload.drop 2) fuel ⟨0, false⟩ with
    | (.ok (.dict header), decoder) =>
      if isNumber 1 (Torrent.getKey header "msg_type") ∧
          isNumber piece_idx (Torrent.getKey header "piece") then
        .data (slice payload (2 + decoder.pos) payload.length)
      else if isNumber 2 (Torrent.getKey header "msg_type") then .failed
      else .other
    | _ => .failed
  else .other

/-- `_wait_for_piece_response`, with a bound on the messages that the stream can hold: the piece, if
it comes, and what is left of the stream. -/
def waitForPieceResponse (fuel : Nat) (ut_metadata_id : Option PyObj) (piece_idx : Nat) :
    Nat → Bytes → Option Bytes × Bytes
  | 0, stream => (none, stream)
  | n + 1, stream =>
    match readMessage stream with
    | none => (none, stream)
    | some (payload, stream) =>
      match pieceResponse fuel ut_metadata_id piece_idx payload with
      | .data piece_data => (some piece_data, stream)
      | .failed => (none, stream)
      | .other => waitForPieceResponse fuel ut_metadata_id piece_idx n stream

/-- `_request_metadata_piece` of the only session: what comes of it, and what is left of the
stream. -/
def requestMetadataPiece (fuel : Nat) (peer : Peer) (ut_metadata_id : Option PyObj)
    (piece_idx : Nat) (stream : Bytes) : Event × Bytes :=
  match requestMessage ut_metadata_id piece_idx with
  | none => (.failed 0, stream)
  | some req_msg =>
    let stream := stream ++ peer.answer req_msg
    match waitForPieceResponse fuel ut_metadata_id piece_idx stream.length stream with
    | (some piece_data, stream) => (.piece 0 piece_data, stream)
    | (none, stream) => (.failed 0, stream)

/-- The loop of `_request_metadata_pieces` from a piece on, with the number of pieces left. -/
def requestLoop (fuel : Nat) (peer : Peer) (ut_metadata_id : Option PyObj) :
    Nat → Nat → Bytes → AsyncMetadataExchange → AsyncMetadataExchange
  | 0, _, _, x => x
  | left + 1, piece_idx, stream, x =>
    let (event, stream) := requestMetadataPiece fuel peer ut_metadata_id piece_idx stream
    requestLoop fuel peer ut_metadata_id left (piece_idx + 1) stream (x.step fuel event)

def numPieces (session : PeerMetadataSession) : Nat :=
  match session.metadata_size with
  | some (.int size) => (ceilPieces size).toNat
  | _ => 0

/-- `_connect_and_fetch` behind the connection. A session that has not negotiated ends here. -/
def connectAndFetch (fuel : Nat) (info_hash : Bytes) (peer : Peer) : AsyncMetadataExchange :=
  match readexactly 68 peer.greeting with
  | none => .new info_hash
  | some (handshake_data, stream) =>
    if validateHandshake info_hash handshake_data then
      let (session, stream) :=
        receiveExtendedHandshake fuel 10 (stream ++ peer.answer extendedHandshake)
      if session.ut_metadata_id.any Torrent.truth ∧ session.metadata_size.any Torrent.truth then
        requestLoop fuel peer session.ut_metadata_id (numPieces session) 0 stream
          ((AsyncMetadataExchange.new info_hash).step fuel
            (.request session.ut_metadata_id session.metadata_size))
      else .new info_hash
    else .new info_hash

/-- The validation at the end of `fetch_metadata`. There is no result either where it raises. -/
def validateMetadata (info_hash : Bytes) (metadata_dict : PyObj) : Option PyObj :=
  if Torrent.truth metadata_dict then
    match metadata_dict with
    | .dict entries =>
      match Torrent.getKey entries "info" with
      | none => none
      | some info_dict =>
        match encode info_dict with
        | .ok encoded =>
          if info_hash.isEmpty ∨ sha1 encoded = info_hash then some metadata_dict else none
        | .error _ => none
    | _ => none
  else some metadata_dict

/-- `fetch_metadata` from a single peer: `None` if the exchange is never completed. -/
def fetchMetadata (fuel : Nat) (info_hash : Bytes) (peer : Peer) : Option PyObj :=
  let x := connectAndFetch fuel info_hash peer
  if x.completed then x.metadata_dict.bind (validateMetadata info_hash) else none

end Metadata

end Ccbt
