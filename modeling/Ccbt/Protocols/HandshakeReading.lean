import Ccbt.Protocols.V2Handshake

/-!
# Which handshakes are read as they were made

`handle_v2_handshake` reads 80 octets, and takes what has 80 octets for a handshake of version 2. So
it reads such a handshake however it arrives, and no other one, whatever comes behind it.
-/

namespace Ccbt

open Python

namespace BittorrentV2

/-- A handshake of one of the three formats. -/
inductive Handshake
  | v1 (reserved_bytes info_hash_v1 peer_id : Bytes)
      (reserved_length : reserved_bytes.length = RESERVED_BYTES_LEN)
      (hash_length : info_hash_v1.length = INFO_HASH_V1_LEN)
      (peer_length : peer_id.length = PEER_ID_LEN)
  | v2 (info_hash_v2 peer_id : Bytes) (hash_length : info_hash_v2.length = INFO_HASH_V2_LEN)
      (peer_length : peer_id.length = PEER_ID_LEN)
  | hybrid (info_hash_v1 info_hash_v2 peer_id : Bytes)
      (hash_v1_length : info_hash_v1.length = INFO_HASH_V1_LEN)
      (hash_v2_length : info_hash_v2.length = INFO_HASH_V2_LEN)
      (peer_length : peer_id.length = PEER_ID_LEN)

namespace Handshake

def octets : Handshake → Bytes
  | v1 reserved_bytes info_hash_v1 peer_id _ _ _ =>
    handshakeStart reserved_bytes ++ info_hash_v1 ++ peer_id
  | v2 info_hash_v2 peer_id _ _ => handshakeStart supportsV2 ++ info_hash_v2 ++ peer_id
  | hybrid info_hash_v1 info_hash_v2 peer_id _ _ _ =>
    handshakeStart supportsV2 ++ info_hash_v1 ++ info_hash_v2 ++ peer_id

/-- The version. In version 1 the reserved octets may say that version 2 is supported as well. -/
def version : Handshake → ProtocolVersion
  | v1 reserved_bytes _ _ _ _ _ => if (reserved_bytes.headD 0) &&& 0x01 ≠ 0 then .HYBRID else .V1
  | v2 _ _ _ _ => .V2
  | hybrid _ _ _ _ _ _ => .HYBRID

def infoHashV1 : Handshake → Option Bytes
  | v1 _ info_hash_v1 _ _ _ _ => some info_hash_v1
  | v2 _ _ _ _ => none
  | hybrid info_hash_v1 _ _ _ _ _ => some info_hash_v1

def infoHashV2 : Handshake → Option Bytes
  | v1 _ _ _ _ _ _ => none
  | v2 info_hash_v2 _ _ _ => some info_hash_v2
  | hybrid _ info_hash_v2 _ _ _ _ => some info_hash_v2

def peerId : Handshake → Bytes
  | v1 _ _ peer_id _ _ _ => peer_id
  | v2 _ peer_id _ _ => peer_id
  | hybrid _ _ peer_id _ _ _ => peer_id

end Handshake

theorem handshakeStart_length {reserved_bytes : Bytes}
    (h : reserved_bytes.length = RESERVED_BYTES_LEN) :
    (handshakeStart reserved_bytes).length = 28 := by
  rw [handshakeStart, List.length_append, h]
  rfl

theorem createV2Handshake_eq_ok {info_hash_v2 peer_id b : Bytes} :
    createV2Handshake info_hash_v2 peer_id = .ok b ↔
      ∃ hh hp, b = (Handshake.v2 info_hash_v2 peer_id hh hp).octets := by
  unfold createV2Handshake
  constructor
  · intro h
    split at h
    · cases h
    · next hh =>
      split at h
      · cases h
      · next hp =>
        cases h
        exact ⟨not_not.mp hh, not_not.mp hp, rfl⟩
  · rintro ⟨hh, hp, rfl⟩
    rw [if_neg (not_not.mpr hh), if_neg (not_not.mpr hp)]
    rfl

theorem createHybridHandshake_eq_ok {info_hash_v1 info_hash_v2 peer_id b : Bytes} :
    createHybridHandshake info_hash_v1 info_hash_v2 peer_id = .ok b ↔
      ∃ h₁ h₂ hp, b = (Handshake.hybrid info_hash_v1 info_hash_v2 peer_id h₁ h₂ hp).octets := by
  unfold createHybridHandshake
  constructor
  · intro h
    split at h
    · cases h
    · next h₁ =>
      split at h
      · cases h
      · next h₂ =>
        split at h
        · cases h
        · next hp =>
          cases h
          exact ⟨not_not.mp h₁, not_not.mp h₂, not_not.mp hp, rfl⟩
  · rintro ⟨h₁, h₂, hp, rfl⟩
    rw [if_neg (not_not.mpr h₁), if_neg (not_not.mpr h₂), if_neg (not_not.mpr hp)]
    rfl

-- Octets are told apart by their number

/-- A check that has not raised. -/
theorem of_ite_raise {α : Type} {p : Prop} [Decidable p] {message : Str}
    {x : Except HandshakeError α} {a : α} (h : (if p then raise message else x) = .ok a) :
    ¬p ∧ x = .ok a := by
  split at h
  · cases h
  · next hp => exact ⟨hp, h⟩

theorem detectProtocolVersion_of_length {data : Bytes} {version : ProtocolVersion}
    (hlen : data.length = HANDSHAKE_V2_SIZE) (h : detectProtocolVersion data = .ok version) :
    version = .V2 := by
  obtain ⟨-, h⟩ := of_ite_raise h
  obtain ⟨-, h⟩ := of_ite_raise h
  obtain ⟨-, h⟩ := of_ite_raise h
  obtain ⟨-, h⟩ := of_ite_raise h
  have hv1 : ¬data.length - (1 + PROTOCOL_STRING_LEN + RESERVED_BYTES_LEN) =
      INFO_HASH_V1_LEN + PEER_ID_LEN := by
    rw [hlen]
    decide
  have hv2 : data.length - (1 + PROTOCOL_STRING_LEN + RESERVED_BYTES_LEN) =
      INFO_HASH_V2_LEN + PEER_ID_LEN := by
    rw [hlen]
    decide
  rw [if_neg hv1, if_pos hv2] at h
  cases h
  rfl

/-- 80 octets are no handshake but one of version 2. -/
theorem version_of_length {data : Bytes} {parsed : ParsedHandshake}
    (hlen : data.length = HANDSHAKE_V2_SIZE) (h : parseV2Handshake data = .ok parsed) :
    parsed.version = .V2 := by
  obtain ⟨-, h⟩ := of_ite_raise h
  obtain ⟨-, h⟩ := of_ite_raise h
  obtain ⟨-, h⟩ := of_ite_raise h
  split at h
  · cases h
  · cases h
    rfl
  · next hv => cases detectProtocolVersion_of_length hlen hv
  · next hv => cases detectProtocolVersion_of_length hlen hv

theorem slice_append_left {a b : Bytes} (start : Nat) {stop : Nat} (h : stop ≤ a.length) :
    slice (a ++ b) start stop = slice a start stop := by
  by_cases hs : start ≤ a.length
  · rw [slice, slice, List.drop_append_of_le_length hs, List.take_append_of_le_length]
    rw [List.length_drop]
    omega
  · have hz : stop - start = 0 := by omega
    rw [slice, slice, hz, List.take_zero, List.take_zero]

/-- The part behind what stands in front of it. -/
theorem slice_append_right {a b c : Bytes} {start stop : Nat} (ha : a.length = start)
    (hb : start + b.length = stop) : slice (a ++ b ++ c) start stop = b := by
  rw [slice, List.append_assoc, List.drop_left' ha, List.take_left' (by omega)]

/-- A handshake of version 2 is taken apart into what it was made of. -/
theorem parseV2Handshake_v2 {info_hash_v2 peer_id : Bytes}
    (hh : info_hash_v2.length = INFO_HASH_V2_LEN) (hp : peer_id.length = PEER_ID_LEN) :
    parseV2Handshake (Handshake.v2 info_hash_v2 peer_id hh hp).octets = .ok
      ⟨PROTOCOL_STRING, supportsV2, peer_id, .V2, some info_hash_v2, none⟩ := by
  have hstart : (handshakeStart supportsV2).length = 28 := handshakeStart_length rfl
  show parseV2Handshake (handshakeStart supportsV2 ++ info_hash_v2 ++ peer_id) = _
  have hlen : (handshakeStart supportsV2 ++ info_hash_v2 ++ peer_id).length = 80 := by
    rw [List.length_append, List.length_append, hstart, hh, hp]
    rfl
  have hhead : (handshakeStart supportsV2 ++ info_hash_v2 ++ peer_id).headD 0 = 19 := rfl
  have hhash : slice (handshakeStart supportsV2 ++ info_hash_v2 ++ peer_id) 28 60 = info_hash_v2 :=
    slice_append_right hstart (by rw [hh]; rfl)
  have hpeer : slice (handshakeStart supportsV2 ++ info_hash_v2 ++ peer_id) 60 80 = peer_id := by
    have hlast : slice (handshakeStart supportsV2 ++ info_hash_v2 ++ peer_id ++ []) 60 80 = peer_id :=
      slice_append_right (by rw [List.length_append, hstart, hh]; rfl) (by rw [hp]; rfl)
    rwa [List.append_nil] at hlast
  have hfront (start stop : Nat) (hstop : stop ≤ 28) :
      slice (handshakeStart supportsV2 ++ info_hash_v2 ++ peer_id) start stop =
        slice (handshakeStart supportsV2) start stop := by
    rw [List.append_assoc]
    exact slice_append_left start (by rw [hstart]; exact hstop)
  have hprotocol : slice (handshakeStart supportsV2 ++ info_hash_v2 ++ peer_id) 1 20 =
      PROTOCOL_STRING := by
    rw [hfront 1 20 (by decide)]
    decide
  have hreserved : slice (handshakeStart supportsV2 ++ info_hash_v2 ++ peer_id) 20 28 =
      supportsV2 := by
    rw [hfront 20 28 le_rfl]
    decide
  generalize handshakeStart supportsV2 ++ info_hash_v2 ++ peer_id = data at *
  have hdetect : detectProtocolVersion data = .ok .V2 := by
    unfold detectProtocolVersion
    rw [hlen, hhead]
    show (if slice data 1 20 ≠ PROTOCOL_STRING then _ else _) = _
    rw [hprotocol]
    rfl
  unfold parseV2Handshake
  rw [hlen, hhead, hdetect]
  show (if slice data 1 20 ≠ PROTOCOL_STRING then _ else
    Except.ok (⟨slice data 1 20, slice data 20 28, slice data 60 80, .V2,
      some (slice data 28 60), none⟩ : ParsedHandshake)) = _
  rw [hprotocol, hreserved, hpeer, hhash]
  rfl

-- What is read from a connection

/-- The handshake is read from the connection as it was made, and what comes behind it is left
there. -/
def ReadsExactly (h : Handshake) (t : Bytes) (our_info_hash_v2 our_info_hash_v1 : Bytes)
    (reader : StreamReader) : Prop :=
  ∃ parsed reader', handleV2Handshake reader our_info_hash_v2 our_info_hash_v1 =
      (.ok (h.version, h.peerId, parsed), reader') ∧
    parsed.version = h.version ∧ parsed.peer_id = h.peerId ∧
    parsed.info_hash_v1 = h.infoHashV1 ∧ parsed.info_hash_v2 = h.infoHashV2 ∧
    reader'.unread = t

/-- The handshake is of version 2, and its info hash is ours, if we say which one that is. -/
def Readable (our_info_hash_v2 : Bytes) : Handshake → Prop
  | .v1 .. => False
  | .v2 info_hash_v2 _ _ _ => our_info_hash_v2 = [] ∨ our_info_hash_v2 = info_hash_v2
  | .hybrid .. => False

instance (our_info_hash_v2 : Bytes) (h : Handshake) : Decidable (Readable our_info_hash_v2 h) := by
  cases h <;> unfold Readable <;> infer_instance

/-- Nothing but 80 octets is ever taken for a handshake. -/
theorem readHandshake_eq_ok {reader reader' : StreamReader} {data : Bytes}
    (h : readHandshake reader = (.ok data, reader')) :
    data = reader.unread.take HANDSHAKE_V2_SIZE ∧
      HANDSHAKE_V2_SIZE ≤ reader.unread.length ∧
      reader'.unread = reader.unread.drop HANDSHAKE_V2_SIZE := by
  unfold readHandshake at h
  by_cases hlen : HANDSHAKE_V2_SIZE ≤ reader.unread.length
  · obtain ⟨hdata, hrest⟩ := StreamReader.readexactly_of_le hlen
    revert h hdata hrest
    rcases reader.readexactly HANDSHAKE_V2_SIZE with ⟨result, reader₁⟩
    rintro h rfl hrest
    cases h
    exact ⟨rfl, hlen, hrest⟩
  · rw [StreamReader.readexactly_of_gt (by omega)] at h
    split at h
    · next hread =>
      split at hread <;> cases hread
    · cases h
    · next hread =>
      split at hread
      · cases hread
        -- the octets that were there are gone
        rw [StreamReader.readexactly_of_gt (by show 0 < HANDSHAKE_V1_SIZE; decide)] at h
        split at h
        · next hread =>
          split at hread <;> cases hread
        · cases h
        · cases h
      · cases hread

theorem readHandshake_of_le {reader : StreamReader}
    (h : HANDSHAKE_V2_SIZE ≤ reader.unread.length) : ∃ reader',
      readHandshake reader = (.ok (reader.unread.take HANDSHAKE_V2_SIZE), reader') ∧
        reader'.unread = reader.unread.drop HANDSHAKE_V2_SIZE := by
  obtain ⟨hdata, hrest⟩ := StreamReader.readexactly_of_le h
  unfold readHandshake
  revert hdata hrest
  rcases reader.readexactly HANDSHAKE_V2_SIZE with ⟨result, reader'⟩
  rintro rfl hrest
  exact ⟨reader', rfl, hrest⟩

theorem handleV2Handshake_eq_ok {reader reader' : StreamReader} {ours ours' : Bytes}
    {version : ProtocolVersion} {peer_id : Bytes} {parsed : ParsedHandshake}
    (h : handleV2Handshake reader ours ours' = (.ok (version, peer_id, parsed), reader')) :
    ∃ data, readHandshake reader = (.ok data, reader') ∧ parseV2Handshake data = .ok parsed ∧
      validateInfoHashes data parsed ours ours' = .ok () ∧ parsed.version = version := by
  unfold handleV2Handshake at h
  revert h
  rcases readHandshake reader with ⟨data, reader₁⟩
  intro h
  obtain ⟨hresult, rfl⟩ := Prod.mk.inj h
  cases data with
  | error e => cases hresult
  | ok data =>
    change (parseV2Handshake data >>= _) = _ at hresult
    cases hparse : parseV2Handshake data with
    | error e =>
      rw [hparse] at hresult
      cases hresult
    | ok parsed' =>
      rw [hparse] at hresult
      change (validateInfoHashes data parsed' ours ours' >>= _) = _ at hresult
      cases hvalid : validateInfoHashes data parsed' ours ours' with
      | error e =>
        rw [hvalid] at hresult
        cases hresult
      | ok u =>
        rw [hvalid] at hresult
        cases hresult
        exact ⟨data, rfl, hparse, hvalid, rfl⟩

/-- In a handshake of version 2 only its own info hash is looked at. -/
theorem validateInfoHashes_v2 (data reserved_bytes peer_id info_hash_v2 ours ours' : Bytes) :
    validateInfoHashes data
        ⟨PROTOCOL_STRING, reserved_bytes, peer_id, .V2, some info_hash_v2, none⟩ ours ours' = .ok () ↔
      ours = [] ∨ ours = info_hash_v2 := by
  unfold validateInfoHashes
  by_cases hnil : ours = []
  · simp [hnil]
    rfl
  · by_cases heq : info_hash_v2 = ours
    · subst heq
      simp [hnil]
      rfl
    · have hne : ¬ours = info_hash_v2 := fun h => heq h.symm
      simp [hnil, heq, hne, mismatch]

/-- A handshake is read as it was made exactly when it is of version 2. -/
theorem readsExactly_iff (h : Handshake) (t our_info_hash_v2 our_info_hash_v1 : Bytes)
    (reader : StreamReader) (harrives : reader.unread = h.octets ++ t) :
    ReadsExactly h t our_info_hash_v2 our_info_hash_v1 reader ↔ Readable our_info_hash_v2 h := by
  -- whatever is read is told to be of version 2
  have hversion : ReadsExactly h t our_info_hash_v2 our_info_hash_v1 reader →
      h.version = .V2 ∧ ∃ parsed, parsed.info_hash_v1 = h.infoHashV1 ∧
        parseV2Handshake (reader.unread.take HANDSHAKE_V2_SIZE) = .ok parsed ∧
        validateInfoHashes (reader.unread.take HANDSHAKE_V2_SIZE) parsed our_info_hash_v2
          our_info_hash_v1 = .ok () := by
    rintro ⟨parsed, reader', hread, hv, -, hv1, -, -⟩
    obtain ⟨data, hdata, hparse, hvalid, -⟩ := handleV2Handshake_eq_ok hread
    obtain ⟨rfl, hlen, -⟩ := readHandshake_eq_ok hdata
    exact ⟨hv.symm.trans (version_of_length (by rw [List.length_take]; omega) hparse), parsed, hv1,
      hparse, hvalid⟩
  cases h with
  | v1 reserved_bytes info_hash_v1 peer_id =>
    refine iff_of_false (fun hreads => ?_) id
    have hv := (hversion hreads).1
    simp only [Handshake.version] at hv
    split_ifs at hv
  | hybrid => exact iff_of_false (fun hreads => by cases (hversion hreads).1) id
  | v2 info_hash_v2 peer_id hh hp =>
    have hparse := parseV2Handshake_v2 hh hp
    have hlen : (Handshake.v2 info_hash_v2 peer_id hh hp).octets.length = HANDSHAKE_V2_SIZE := by
      show (handshakeStart supportsV2 ++ info_hash_v2 ++ peer_id).length = _
      rw [List.length_append, List.length_append, handshakeStart_length rfl, hh, hp]
      rfl
    have htake : reader.unread.take HANDSHAKE_V2_SIZE =
        (Handshake.v2 info_hash_v2 peer_id hh hp).octets := by
      rw [harrives, List.take_left' hlen]
    constructor
    · intro hreads
      obtain ⟨-, parsed, -, hparsed, hvalid⟩ := hversion hreads
      rw [htake] at hparsed hvalid
      cases hparse.symm.trans hparsed
      exact (validateInfoHashes_v2 _ _ _ _ _ _).mp hvalid
    · intro hours
      have hle : HANDSHAKE_V2_SIZE ≤ reader.unread.length := by
        rw [harrives, List.length_append, hlen]
        omega
      obtain ⟨reader', hread, hrest⟩ := readHandshake_of_le hle
      rw [htake] at hread
      rw [harrives, List.drop_left' hlen] at hrest
      refine ⟨⟨PROTOCOL_STRING, supportsV2, peer_id, .V2, some info_hash_v2, none⟩, reader', ?_,
        rfl, rfl, rfl, rfl, hrest⟩
      unfold handleV2Handshake
      rw [hread]
      show ((parseV2Handshake _ >>= _), _) = _
      rw [hparse]
      show ((validateInfoHashes _ _ _ _ >>= _), _) = _
      rw [(validateInfoHashes_v2 _ _ _ _ _ _).mpr hours]
      rfl

/-- A handshake of version 2 in two parts, and a message behind it. -/
theorem readsExactly_two_parts :
    let h : Handshake := .v2 (List.replicate 32 1) (List.replicate 20 2) rfl rfl
    let reader : StreamReader := ⟨[], [h.octets.take 30, h.octets.drop 30 ++ [0, 0, 0, 0]], false⟩
    reader.unread = h.octets ++ [0, 0, 0, 0] ∧ ReadsExactly h [0, 0, 0, 0] [] [] reader :=
  ⟨rfl, (readsExactly_iff _ _ _ _ _ rfl).mpr (.inl rfl)⟩

/-- A handshake of version 1 whose peer waits for the answer is not read at all. -/
theorem not_readsExactly_v1 :
    let h : Handshake := .v1 (List.replicate 8 0) (List.replicate 20 1) (List.replicate 20 2)
      rfl rfl rfl
    ¬ReadsExactly h [] [] [] ⟨[], [h.octets], false⟩ := by
  rintro h ⟨parsed, reader', hread, -⟩
  obtain ⟨data, hdata, -⟩ := handleV2Handshake_eq_ok hread
  obtain ⟨-, hlen, -⟩ := readHandshake_eq_ok hdata
  revert hlen
  decide

end BittorrentV2

end Ccbt
