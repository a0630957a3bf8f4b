import Ccbt.Transport.Utp.Extensions

/-!
# uTP packets: `UTPPacket` of `transport/utp.py`

The header fields have the widths that the `struct` format `!BBBB HHH III` gives
them. An `OutgoingPacket` is a packet of one of the five known types, as the
connections build them; `pack` does not raise on these.
-/

namespace Ccbt

open Python

namespace Utp

inductive UTPPacketType
  | ST_DATA
  | ST_FIN
  | ST_STATE
  | ST_RESET
  | ST_SYN
  deriving DecidableEq

namespace UTPPacketType

def toByte : UTPPacketType → UInt8
  | ST_DATA => 0
  | ST_FIN => 1
  | ST_STATE => 2
  | ST_RESET => 3
  | ST_SYN => 4

theorem toByte_le (t : UTPPacketType) : t.toByte ≤ 4 := by cases t <;> decide

theorem toByte_injective {s t : UTPPacketType} (h : s.toByte = t.toByte) : s = t := by
  revert h
  cases s <;> cases t <;> decide

end UTPPacketType

structure UTPPacket where
  type : UInt8
  ver : UInt8 := 1
  extension : UInt8 := 0
  connection_id : UInt16 := 0
  seq_nr : UInt16 := 0
  ack_nr : UInt16 := 0
  wnd_size : UInt32 := 0
  timestamp : UInt32 := 0
  timestamp_diff : UInt32 := 0
  data : Bytes := []
  extensions : List UTPExtension := []
  deriving DecidableEq

namespace UTPPacket

def HEADER_SIZE : Nat := 22

/-- The extension octet of the header: the type of the first extension. -/
def extensionField (p : UTPPacket) : UInt8 :=
  match p.extensions with
  | [] => 0
  | e :: _ => e.extension_type.toByte

def header (p : UTPPacket) : Bytes :=
  [p.type, p.ver, p.extensionField, 0] ++ packH p.connection_id ++ packH p.seq_nr ++
    packH p.ack_nr ++ packI p.wnd_size ++ packI p.timestamp ++ packI p.timestamp_diff

def body (p : UTPPacket) : Bytes :=
  (if p.extensions = [] then [] else encodeExtensions p.extensions) ++ p.data

/-- The octets of the packet once its fields have been checked. -/
def serialize (p : UTPPacket) : Bytes := p.header ++ p.body

/-- The other checks of `pack` are the widths of the fields. -/
def pack (p : UTPPacket) : Except String Bytes :=
  if 4 < p.type then .error s!"Invalid packet type: {p.type.toNat}" else .ok p.serialize

def field (data : Bytes) (i n : Nat) : Bytes := (data.drop i).take n

/-- The extensions and the payload: there are extensions when the header says so. -/
def parseBody (extension : UInt8) (body : Bytes) : List UTPExtension × Bytes :=
  if extension = 0 then ([], body) else parseExtensions body

def unpack (data : Bytes) : Except String UTPPacket :=
  match data with
  | type :: ver :: extension :: _padding :: rest =>
    if rest.length + 4 < HEADER_SIZE then
      .error s!"Packet too small: {data.length} < {HEADER_SIZE}"
    else
      .ok {
        type := type
        ver := ver
        extension := extension
        connection_id := unpackH (field rest 0 2)
        seq_nr := unpackH (field rest 2 2)
        ack_nr := unpackH (field rest 4 2)
        wnd_size := unpackI (field rest 6 4)
        timestamp := unpackI (field rest 10 4)
        timestamp_diff := unpackI (field rest 14 4)
        data := (parseBody extension (rest.drop 18)).2
        extensions := (parseBody extension (rest.drop 18)).1 }
  | _ => .error s!"Packet too small: {data.length} < {HEADER_SIZE}"

/-- `pack` writes no terminator after the extensions, so a payload behind them
would be read as more extensions. -/
def Delimited (p : UTPPacket) : Prop := p.extensions = [] ∨ p.data = []

theorem field_left {a : Bytes} (b : Bytes) {n : Nat} (ha : a.length = n) :
    field (a ++ b) 0 n = a := List.take_left' ha

theorem field_right {a : Bytes} (b : Bytes) {k : Nat} (ha : a.length = k) (i n : Nat) :
    field (a ++ b) (k + i) n = field b i n := by
  rw [field, ← List.drop_drop, List.drop_left' ha, field]

/-- What follows the header is read as it was written. -/
theorem parseBody_body {p : UTPPacket} (h : p.Delimited) :
    parseBody p.extensionField p.body = (p.extensions, p.data) := by
  cases he : p.extensions with
  | nil => simp [parseBody, body, extensionField, he]
  | cons e es =>
    have hd : p.data = [] := h.resolve_left (by simp [he])
    have hne : p.extensionField ≠ 0 := by
      rw [extensionField, he]
      exact e.toByte_extension_type_ne_zero
    rw [parseBody, if_neg hne, body, he, if_neg (List.cons_ne_nil e es), hd, List.append_nil,
      parseExtensions_encodeExtensions (List.cons_ne_nil e es)]

/-- The number fields of the header, in front of the other octets. -/
def numbers (p : UTPPacket) (body : Bytes) : Bytes :=
  packH p.connection_id ++ (packH p.seq_nr ++ (packH p.ack_nr ++ (packI p.wnd_size ++
    (packI p.timestamp ++ (packI p.timestamp_diff ++ body)))))

theorem numbers_length (p : UTPPacket) (body : Bytes) :
    (p.numbers body).length = 18 + body.length := by
  simp only [numbers, List.length_append, packH_length, packI_length]
  omega

theorem drop_numbers (p : UTPPacket) (body : Bytes) : (p.numbers body).drop 18 = body := by
  have h : p.numbers body = (p.numbers []) ++ body := by simp [numbers]
  rw [h]
  exact List.drop_left' (numbers_length p [])

theorem serialize_eq_numbers (p : UTPPacket) :
    p.serialize = p.type :: p.ver :: p.extensionField :: 0 :: p.numbers p.body := by
  simp only [serialize, header, numbers, List.append_assoc, List.cons_append, List.nil_append]

theorem le_serialize_length (p : UTPPacket) : HEADER_SIZE ≤ p.serialize.length := by
  rw [serialize_eq_numbers]
  simp only [List.length_cons, numbers_length, HEADER_SIZE]
  omega

theorem unpackH_connection_id (p : UTPPacket) (body : Bytes) :
    unpackH (field (p.numbers body) 0 2) = p.connection_id := by
  rw [numbers, field_left _ (packH_length _), unpackH_packH]

theorem unpackH_seq_nr (p : UTPPacket) (body : Bytes) :
    unpackH (field (p.numbers body) 2 2) = p.seq_nr := by
  rw [numbers, field_right _ (packH_length _) 0, field_left _ (packH_length _), unpackH_packH]

theorem unpackH_ack_nr (p : UTPPacket) (body : Bytes) :
    unpackH (field (p.numbers body) 4 2) = p.ack_nr := by
  rw [numbers, field_right _ (packH_length _) 2, field_right _ (packH_length _) 0,
    field_left _ (packH_length _), unpackH_packH]

theorem unpackI_wnd_size (p : UTPPacket) (body : Bytes) :
    unpackI (field (p.numbers body) 6 4) = p.wnd_size := by
  rw [numbers, field_right _ (packH_length _) 4, field_right _ (packH_length _) 2,
    field_right _ (packH_length _) 0, field_left _ (packI_length _), unpackI_packI]

theorem unpackI_timestamp (p : UTPPacket) (body : Bytes) :
    unpackI (field (p.numbers body) 10 4) = p.timestamp := by
  rw [numbers, field_right _ (packH_length _) 8, field_right _ (packH_length _) 6,
    field_right _ (packH_length _) 4, field_right _ (packI_length _) 0,
    field_left _ (packI_length _), unpackI_packI]

theorem unpackI_timestamp_diff (p : UTPPacket) (body : Bytes) :
    unpackI (field (p.numbers body) 14 4) = p.timestamp_diff := by
  rw [numbers, field_right _ (packH_length _) 12, field_right _ (packH_length _) 10,
    field_right _ (packH_length _) 8, field_right _ (packI_length _) 4,
    field_right _ (packI_length _) 0, field_left _ (packI_length _), unpackI_packI]

/-- Reading a packet back gives its header, and the extensions and the payload that are found
behind it. -/
theorem unpack_serialize_eq (p : UTPPacket) :
    unpack p.serialize = .ok { p with
      extension := p.extensionField
      data := (parseBody p.extensionField p.body).2
      extensions := (parseBody p.extensionField p.body).1 } := by
  have hlen : ¬(p.numbers p.body).length + 4 < HEADER_SIZE := by
    rw [numbers_length, HEADER_SIZE]
    omega
  rw [serialize_eq_numbers, unpack.eq_1, if_neg hlen, drop_numbers, unpackH_connection_id,
    unpackH_seq_nr, unpackH_ack_nr, unpackI_wnd_size, unpackI_timestamp, unpackI_timestamp_diff]

/-- Reading a packet back gives all its fields, with the extension octet filled in. -/
theorem unpack_serialize {p : UTPPacket} (h : p.Delimited) :
    unpack p.serialize = .ok { p with extension := p.extensionField } := by
  rw [unpack_serialize_eq, parseBody_body h]

end UTPPacket

/-- A packet of a known type. -/
structure OutgoingPacket extends UTPPacket where
  type_le : toUTPPacket.type ≤ 4
  deriving DecidableEq

namespace OutgoingPacket

def bytes (p : OutgoingPacket) : Bytes := p.toUTPPacket.serialize

theorem pack_eq (p : OutgoingPacket) : p.toUTPPacket.pack = .ok p.bytes :=
  if_neg (by
    have := p.type_le
    simp only [UInt8.lt_iff_toNat_lt, UInt8.le_iff_toNat_le] at this ⊢
    omega)

/-- The clock is read when the packet is sent. -/
def setTimestamp (p : OutgoingPacket) (now : UInt32) : OutgoingPacket :=
  { p with timestamp := now }

end OutgoingPacket

/-!
## Reading back what `pack` has written

The extensions of a packet are written one after another, without a terminator,
and `parse_extensions` goes on into the payload. It stops in front of the payload
only if no extension can be cut off there, which depends on its first octets.
-/

/-- No extension and no terminator is found at the start of the octets. -/
def Stops : Bytes → Prop
  | [] => True
  | [t] => t ≠ 0
  | t :: ext_length :: rest => t ≠ 0 ∧ rest.length < ext_length.toNat

instance : DecidablePred Stops
  | [] => inferInstanceAs (Decidable True)
  | [t] => inferInstanceAs (Decidable (t ≠ 0))
  | t :: ext_length :: rest => inferInstanceAs (Decidable (t ≠ 0 ∧ rest.length < ext_length.toNat))

theorem parseChain_length_le (n : Nat) (data : Bytes) :
    (parseChain n data).2.length ≤ data.length := by
  fun_induction parseChain n data with
  | case1 data => exact le_rfl
  | case2 n => exact le_rfl
  | case3 n => simp
  | case4 n t h => exact le_rfl
  | case5 n ext_length rest => simp
  | case6 n t ext_length rest h0 hlt => exact le_rfl
  | case7 n t ext_length rest h0 hlt exts payload heq e hunpack ih =>
    rw [heq, List.length_drop] at ih
    simp only [List.length_cons] at ih ⊢
    omega
  | case8 n t ext_length rest h0 hlt exts payload heq hunpack ih =>
    rw [heq, List.length_drop] at ih
    simp only [List.length_cons] at ih ⊢
    omega

/-- The chain leaves the octets alone exactly if it stops there. -/
theorem parseChain_eq_self {n : Nat} {data : Bytes} (hn : data.length ≤ n) :
    parseChain n data = ([], data) ↔ Stops data := by
  match n, data, hn with
  | 0, [], _ => simp [parseChain, Stops]
  | n + 1, [], _ => simp [parseChain, Stops]
  | n + 1, [t], _ =>
    rw [parseChain, Stops]
    split
    · next h => simp [h]
    · next h => simp [h]
  | n + 1, t :: ext_length :: rest, _ =>
    rw [parseChain, Stops]
    split
    · next h => simp [h]
    · next h =>
      split
      · next hlt => simp [h, hlt]
      · next hlt =>
        have hshort := parseChain_length_le n (rest.drop ext_length.toNat)
        rw [List.length_drop] at hshort
        refine ⟨fun heq => absurd (congrArg (fun r => r.2.length) heq) ?_,
          fun hs => absurd hs.2 hlt⟩
        simp only
        split <;> simp only [List.length_cons] <;> omega

/-- Behind the extensions that were written, the chain goes on with the payload. -/
theorem parseChain_append (exts : List UTPExtension) (data : Bytes) {n : Nat}
    (hn : (exts.flatMap encodeExtension ++ data).length ≤ n) :
    ∃ m, data.length ≤ m ∧ parseChain n (exts.flatMap encodeExtension ++ data) =
      (exts ++ (parseChain m data).1, (parseChain m data).2) := by
  induction exts generalizing n with
  | nil => exact ⟨n, by simpa using hn, rfl⟩
  | cons e exts ih =>
    rw [List.flatMap_cons, List.append_assoc, List.length_append, encodeExtension_length] at hn
    obtain ⟨k, rfl⟩ : ∃ k, n = k + 1 := ⟨n - 1, by omega⟩
    obtain ⟨m, hm, hparse⟩ := @ih k (by omega)
    refine ⟨m, hm, ?_⟩
    rw [List.flatMap_cons, List.append_assoc, parseChain_cons, hparse]
    rfl

namespace UTPPacket

/-- The payload cannot be taken for extensions. -/
def PayloadStops (p : UTPPacket) : Prop := p.extensions = [] ∨ Stops p.data

instance (p : UTPPacket) : Decidable p.PayloadStops :=
  inferInstanceAs (Decidable (p.extensions = [] ∨ Stops p.data))

/-- What follows the header is read as it was written exactly if the payload stops the chain. -/
theorem parseBody_eq_iff (p : UTPPacket) :
    parseBody p.extensionField p.body = (p.extensions, p.data) ↔ p.PayloadStops := by
  cases he : p.extensions with
  | nil => simp [parseBody, body, extensionField, PayloadStops, he]
  | cons e es =>
    have hne : p.extensionField ≠ 0 := by
      rw [extensionField, he]
      exact e.toByte_extension_type_ne_zero
    obtain ⟨m, hm, hparse⟩ := parseChain_append (e :: es) p.data le_rfl
    have hbody : parseBody p.extensionField p.body =
        (e :: es ++ (parseChain m p.data).1, (parseChain m p.data).2) := by
      rw [parseBody, if_neg hne, body, he, if_neg (List.cons_ne_nil e es), encodeExtensions,
        if_neg (List.cons_ne_nil e es), parseExtensions, hparse]
    rw [hbody, PayloadStops, he, ← parseChain_eq_self hm]
    constructor
    · intro h
      have hexts := List.append_right_eq_self.mp (Prod.mk.inj h).1
      exact Or.inr (Prod.ext hexts (Prod.mk.inj h).2)
    · rintro (h | h)
      · exact absurd h (List.cons_ne_nil e es)
      · rw [h, List.append_nil]

/-- `q` has the fields of `p` that a packet is read for. -/
structure SameFields (p q : UTPPacket) : Prop where
  type : q.type = p.type
  connection_id : q.connection_id = p.connection_id
  seq_nr : q.seq_nr = p.seq_nr
  ack_nr : q.ack_nr = p.ack_nr
  wnd_size : q.wnd_size = p.wnd_size
  timestamp : q.timestamp = p.timestamp
  timestamp_diff : q.timestamp_diff = p.timestamp_diff
  extensions : q.extensions = p.extensions
  data : q.data = p.data

/-- The packet is written, and what is read back has its fields. -/
def RoundTrips (p : UTPPacket) : Prop :=
  ∃ b q, p.pack = .ok b ∧ unpack b = .ok q ∧ p.SameFields q

end UTPPacket

/-- A packet is read back as it was written exactly if it has no extensions or its payload does
not look like the start of another one. -/
theorem OutgoingPacket.roundTrips_iff (p : OutgoingPacket) :
    p.toUTPPacket.RoundTrips ↔ p.toUTPPacket.PayloadStops := by
  rw [← p.toUTPPacket.parseBody_eq_iff]
  constructor
  · rintro ⟨b, q, hb, hq, hsame⟩
    obtain rfl : p.bytes = b := Except.ok.inj (p.pack_eq.symm.trans hb)
    rw [OutgoingPacket.bytes, UTPPacket.unpack_serialize_eq] at hq
    obtain rfl := Except.ok.inj hq
    exact Prod.ext hsame.extensions hsame.data
  · intro hbody
    refine ⟨_, _, p.pack_eq, p.toUTPPacket.unpack_serialize_eq, ?_⟩
    rw [hbody]
    exact ⟨rfl, rfl, rfl, rfl, rfl, rfl, rfl, rfl, rfl⟩

/-- A data packet with an ECN extension and a payload that starts with a zero. -/
def zeroPayload : UTPPacket :=
  { type := UTPPacketType.ST_DATA.toByte, data := [0], extensions := [.ecn false false] }

theorem not_roundTrips_zeroPayload : zeroPayload.type ≤ 4 ∧ ¬zeroPayload.RoundTrips := by
  refine ⟨by decide, ?_⟩
  rintro ⟨b, q, hb, hq, hsame⟩
  obtain rfl : zeroPayload.serialize = b := Except.ok.inj hb
  rw [UTPPacket.unpack_serialize_eq] at hq
  obtain rfl := Except.ok.inj hq
  exact absurd hsame.data (by decide)

end Utp

end Ccbt
