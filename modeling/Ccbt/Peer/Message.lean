import Ccbt.Framing.Splitter
import Ccbt.Python.Bytes

/-!
# Peer wire messages: `PeerMessage` and its subclasses of `peer/peer.py`

A message travels as `[length][message_id][payload]`, with nothing after the length
for a keep-alive. `encode` has no value where `struct.pack` raises because the
length does not fit its four octets.
-/

namespace Ccbt

open Python

namespace Peer

inductive MessageType
  | CHOKE
  | UNCHOKE
  | INTERESTED
  | NOT_INTERESTED
  | HAVE
  | BITFIELD
  | REQUEST
  | PIECE
  | CANCEL
  deriving DecidableEq

def MessageType.toByte : MessageType → UInt8
  | CHOKE => 0
  | UNCHOKE => 1
  | INTERESTED => 2
  | NOT_INTERESTED => 3
  | HAVE => 4
  | BITFIELD => 5
  | REQUEST => 6
  | PIECE => 7
  | CANCEL => 8

theorem MessageType.toByte_injective {s t : MessageType} (h : s.toByte = t.toByte) : s = t := by
  revert h
  cases s <;> cases t <;> decide

inductive PeerMessage
  | KeepAliveMessage
  | ChokeMessage
  | UnchokeMessage
  | InterestedMessage
  | NotInterestedMessage
  | HaveMessage (piece_index : UInt32)
  | BitfieldMessage (bitfield : Bytes)
  | RequestMessage (piece_index begin length : UInt32)
  | PieceMessage (piece_index begin : UInt32) (block : Bytes)
  | CancelMessage (piece_index begin length : UInt32)
  deriving DecidableEq

namespace PeerMessage

/-- The `message_id`, which a keep-alive does not have. -/
def message_id : PeerMessage → Option MessageType
  | KeepAliveMessage => none
  | ChokeMessage => some .CHOKE
  | UnchokeMessage => some .UNCHOKE
  | InterestedMessage => some .INTERESTED
  | NotInterestedMessage => some .NOT_INTERESTED
  | HaveMessage _ => some .HAVE
  | BitfieldMessage _ => some .BITFIELD
  | RequestMessage _ _ _ => some .REQUEST
  | PieceMessage _ _ _ => some .PIECE
  | CancelMessage _ _ _ => some .CANCEL

/-- `struct.pack("!I", length) + struct.pack("B", message_id) + payload`, `none` where
`struct.pack` raises. -/
def encodeWith (length : Nat) (message_id : MessageType) (payload : Bytes) : Option Bytes :=
  if length < 2 ^ 32 then some (packI (UInt32.ofNat length) ++ [message_id.toByte] ++ payload)
  else none

def encode : PeerMessage → Option Bytes
  | KeepAliveMessage => some (packI 0)
  | ChokeMessage => encodeWith 1 .CHOKE []
  | UnchokeMessage => encodeWith 1 .UNCHOKE []
  | InterestedMessage => encodeWith 1 .INTERESTED []
  | NotInterestedMessage => encodeWith 1 .NOT_INTERESTED []
  | HaveMessage piece_index => encodeWith 5 .HAVE (packI piece_index)
  | BitfieldMessage bitfield => encodeWith (1 + bitfield.length) .BITFIELD bitfield
  | RequestMessage piece_index begin length =>
    encodeWith 13 .REQUEST (packI piece_index ++ packI begin ++ packI length)
  | PieceMessage piece_index begin block =>
    encodeWith (1 + 4 + 4 + block.length) .PIECE (packI piece_index ++ packI begin ++ block)
  | CancelMessage piece_index begin length =>
    encodeWith 13 .CANCEL (packI piece_index ++ packI begin ++ packI length)

/-- The octets after the length prefix. -/
def body : PeerMessage → Bytes
  | KeepAliveMessage => []
  | ChokeMessage => [MessageType.CHOKE.toByte]
  | UnchokeMessage => [MessageType.UNCHOKE.toByte]
  | InterestedMessage => [MessageType.INTERESTED.toByte]
  | NotInterestedMessage => [MessageType.NOT_INTERESTED.toByte]
  | HaveMessage piece_index => MessageType.HAVE.toByte :: packI piece_index
  | BitfieldMessage bitfield => MessageType.BITFIELD.toByte :: bitfield
  | RequestMessage piece_index begin length =>
    MessageType.REQUEST.toByte :: (packI piece_index ++ packI begin ++ packI length)
  | PieceMessage piece_index begin block =>
    MessageType.PIECE.toByte :: (packI piece_index ++ packI begin ++ block)
  | CancelMessage piece_index begin length =>
    MessageType.CANCEL.toByte :: (packI piece_index ++ packI begin ++ packI length)

end PeerMessage

/-- The octets after a length prefix: they are as many as four octets can tell. -/
structure Frame where
  body : Bytes
  body_lt : body.length < 2 ^ 32
  deriving DecidableEq

namespace Frame

def encode (f : Frame) : Bytes := packI (UInt32.ofNat f.body.length) ++ f.body

theorem unpackI_length (f : Frame) :
    (unpackI (packI (UInt32.ofNat f.body.length))).toNat = f.body.length := by
  rw [unpackI_packI, UInt32.toNat_ofNat']
  exact Nat.mod_eq_of_lt f.body_lt

/-- The first frame of a buffer, `none` while the buffer ends before it. -/
def split (buffer : Bytes) : Option (Frame × Bytes) :=
  if buffer.length < 4 then none
  else
    let length := (unpackI (buffer.take 4)).toNat
    if buffer.length < 4 + length then none
    else some (⟨(buffer.drop 4).take length,
      (List.length_take_le _ _).trans_lt (unpackI (buffer.take 4)).toNat_lt⟩,
      buffer.drop (4 + length))

theorem split_eq_some_iff {buffer rest : Bytes} {f : Frame} :
    split buffer = some (f, rest) ↔ buffer = f.encode ++ rest := by
  rw [split]
  constructor
  · intro h
    split at h
    · simp at h
    dsimp only at h
    split at h
    · simp at h
    next h4 hlen =>
    simp only [Option.some.injEq, Prod.mk.injEq] at h
    obtain ⟨rfl, rfl⟩ := h
    have hbody : ((buffer.drop 4).take (unpackI (buffer.take 4)).toNat).length =
        (unpackI (buffer.take 4)).toNat := by
      rw [List.length_take, List.length_drop]
      omega
    have htake : (buffer.take 4).length = 4 := by
      rw [List.length_take]
      omega
    rw [encode, hbody, UInt32.ofNat_toNat, packI_unpackI htake, List.append_assoc,
      ← List.drop_drop, List.take_append_drop, List.take_append_drop]
  · rintro rfl
    have hlength : (unpackI ((f.encode ++ rest).take 4)).toNat = f.body.length := by
      rw [encode, List.append_assoc, List.take_left' (packI_length _), unpackI_length]
    have hbody : ((f.encode ++ rest).drop 4).take f.body.length = f.body := by
      rw [encode, List.append_assoc, List.drop_left' (packI_length _), List.take_left]
    have hrest : (f.encode ++ rest).drop (4 + f.body.length) = rest :=
      List.drop_left' (by simp [encode])
    have hlen : (f.encode ++ rest).length = 4 + f.body.length + rest.length := by
      simp [encode, Nat.add_assoc]
    simp only [hlength, hbody, hrest]
    rw [if_neg (by omega), if_neg (by omega)]

/-- Taking frames off a buffer, as the loops of the decoders do. -/
def splitter : Framing.Splitter UInt8 Frame where
  split := split
  length_lt := by
    intro buffer f rest h
    rw [split_eq_some_iff.mp h, encode]
    simp
    omega
  append := by
    intro buffer f rest more h
    rw [split_eq_some_iff] at h ⊢
    rw [h, List.append_assoc]

theorem splitter_sound {buffer rest : Bytes} {f : Frame}
    (h : splitter.split buffer = some (f, rest)) : buffer = f.encode ++ rest :=
  split_eq_some_iff.mp h

theorem splitter_encode (f : Frame) (rest : Bytes) :
    splitter.split (f.encode ++ rest) = some (f, rest) :=
  split_eq_some_iff.mpr rfl

theorem encode_ne_nil (f : Frame) : f.encode ≠ [] := by
  intro h
  have := congrArg List.length h
  simp [encode] at this

end Frame

theorem PeerMessage.encodeWith_eq_some {length : Nat} {t : MessageType} {payload data : Bytes}
    (hlength : length = payload.length + 1) (h : encodeWith length t payload = some data) :
    ∃ f : Frame, f.body = t.toByte :: payload ∧ data = f.encode := by
  subst hlength
  rw [encodeWith] at h
  split at h
  · next hlt =>
    refine ⟨⟨t.toByte :: payload, hlt⟩, rfl, ?_⟩
    rw [← Option.some.inj h, List.append_assoc]
    rfl
  · simp at h

/-- A message that encodes gives a frame with the octets of its body. -/
theorem PeerMessage.encode_eq_some {m : PeerMessage} {data : Bytes} (h : m.encode = some data) :
    ∃ f : Frame, f.body = m.body ∧ data = f.encode := by
  cases m with
  | KeepAliveMessage => exact ⟨⟨[], by decide⟩, rfl, (Option.some.inj h).symm⟩
  | BitfieldMessage bitfield => exact encodeWith_eq_some (Nat.add_comm ..) h
  | PieceMessage piece_index begin block => exact encodeWith_eq_some (by simp; omega) h
  | _ => exact encodeWith_eq_some (by simp) h

end Peer

end Ccbt
