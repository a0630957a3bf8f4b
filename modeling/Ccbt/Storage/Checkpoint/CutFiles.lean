import Ccbt.Storage.Checkpoint.RoundTrip

/-!
# Files that have been cut off

Nothing is read from a beginning of a JSON text or of binary data but the whole. Of a gzip file the
data may be there before its end.
-/

namespace Ccbt

open Python

namespace Checkpoint

variable {lib : Libraries} {config : DiskConfig} {c : TorrentCheckpoint} {now : Now}
  {info_hash data : Bytes} {d : CheckpointField → Value}

section Json

/-- Only the whole text of a checkpoint is read. -/
theorem loads_take {n : Nat} {v : Value}
    (h : lib.loads ((lib.dump (.record (jsonDict c))).1.take n) = some v) :
    (lib.dump (.record (jsonDict c))).2 = true ∧
      (lib.dump (.record (jsonDict c))).1.take n = (lib.dump (.record (jsonDict c))).1 := by
  cases himage : jsonImage lib.repr (.record (jsonDict c)) with
  | none =>
    obtain ⟨-, hcut⟩ := lib.dump_refused _ himage
    cases (hcut n).symm.trans h
  | some w =>
    obtain ⟨haccepted, -, hcut⟩ := lib.dump_accepted _ w himage
    refine ⟨haccepted, List.take_of_length_le ?_⟩
    by_contra hshort
    cases (hcut n (Nat.lt_of_not_le hshort)).symm.trans h

end Json

section Binary

theorem readExactly_eq_some {n : Nat} {a b : Bytes} (h : readExactly n data = some (a, b)) :
    data = a ++ b ∧ a.length = n := by
  rw [readExactly] at h
  split at h
  · next hn =>
    obtain ⟨rfl, rfl⟩ := Prod.mk.inj (Option.some.inj h)
    exact ⟨(List.take_append_drop n data).symm, List.length_take_of_le hn⟩
  · cases h

/-- What is read is laid out as it is written. -/
theorem readBinaryData_eq_some (h : readBinaryData lib info_hash data = some d) :
    ∃ timestamp total_pieces bitfield metadata_len metadata_bytes v,
      data = MAGIC_BYTES ++ ([1] ++ (info_hash ++ (timestamp ++ (total_pieces ++ (bitfield ++
        (metadata_len ++ metadata_bytes)))))) ∧
      info_hash.length = 20 ∧ timestamp.length = 8 ∧ total_pieces.length = 4 ∧
      bitfield.length = (ofLittleEndian total_pieces + 7) / 8 ∧ metadata_len.length = 4 ∧
      lib.unpackb (metadata_bytes.take (ofLittleEndian metadata_len)) = some v := by
  rw [readBinaryData] at h
  obtain ⟨⟨magic, data₁⟩, h₁, h⟩ := Option.bind_eq_some_iff.mp h
  dsimp only at h
  split at h
  · cases h
  next hmagic =>
  obtain ⟨⟨version, data₂⟩, h₂, h⟩ := Option.bind_eq_some_iff.mp h
  dsimp only at h
  split at h
  · cases h
  next hversion =>
  obtain ⟨⟨file_info_hash, data₃⟩, h₃, h⟩ := Option.bind_eq_some_iff.mp h
  dsimp only at h
  split at h
  · cases h
  next hhash =>
  obtain ⟨⟨timestamp, data₄⟩, h₄, h⟩ := Option.bind_eq_some_iff.mp h
  obtain ⟨⟨total_pieces, data₅⟩, h₅, h⟩ := Option.bind_eq_some_iff.mp h
  obtain ⟨⟨metadata_len, metadata_bytes⟩, h₆, h⟩ := Option.bind_eq_some_iff.mp h
  obtain ⟨v, hv, -⟩ := Option.bind_eq_some_iff.mp h
  obtain ⟨rfl, -⟩ := readExactly_eq_some h₁
  obtain ⟨rfl, -⟩ := readExactly_eq_some h₂
  obtain ⟨rfl, hhashLength⟩ := readExactly_eq_some h₃
  obtain ⟨rfl, htimestamp⟩ := readExactly_eq_some h₄
  obtain ⟨rfl, htotal⟩ := readExactly_eq_some h₅
  obtain ⟨hdrop, hlen⟩ := readExactly_eq_some h₆
  -- the octets of the length are there, so the bitfield has not been cut
  have hbitfield : (ofLittleEndian total_pieces + 7) / 8 ≤ data₅.length := by
    have hlength : (data₅.drop ((ofLittleEndian total_pieces + 7) / 8)).length =
      (metadata_len ++ metadata_bytes).length := congrArg List.length hdrop
    rw [List.length_drop, List.length_append] at hlength
    omega
  refine ⟨timestamp, total_pieces, data₅.take ((ofLittleEndian total_pieces + 7) / 8),
    metadata_len, metadata_bytes, v, ?_, ?_, htimestamp, htotal, List.length_take_of_le hbitfield,
    hlen, hv⟩
  · rw [not_not.mp hmagic, not_not.mp hversion, not_not.mp hhash, ← hdrop, List.take_append_drop]
  · rw [← not_not.mp hhash, hhashLength]

theorem prefix_of_append {a a' b b' : Bytes} (hlength : a.length = a'.length)
    (h : a ++ b <+: a' ++ b') : a = a' ∧ b <+: b' := by
  obtain ⟨rest, hrest⟩ := h
  rw [List.append_assoc] at hrest
  obtain ⟨rfl, rfl⟩ := List.append_inj hrest hlength
  exact ⟨rfl, rest, rfl⟩

/-- The octets up to the total are those that have been written. -/
theorem prefix_header {timestamp total_pieces rest rest' : Bytes} (htime : timestamp.length = 8)
    (htotal : total_pieces.length = 4)
    (h : MAGIC_BYTES ++ ([1] ++ (c.info_hash ++ (timestamp ++ (total_pieces ++ rest)))) <+:
      MAGIC_BYTES ++ ([1] ++ (c.info_hash ++ (littleEndian 8 (seconds now) ++
        (littleEndian 4 c.total_pieces ++ rest'))))) :
    timestamp = littleEndian 8 (seconds now) ∧ total_pieces = littleEndian 4 c.total_pieces ∧
      rest <+: rest' := by
  obtain ⟨-, h₁⟩ := prefix_of_append rfl h
  obtain ⟨-, h₂⟩ := prefix_of_append rfl h₁
  obtain ⟨-, h₃⟩ := prefix_of_append rfl h₂
  obtain ⟨htimestamp, h₄⟩ := prefix_of_append (htime.trans (littleEndian_length 8 _).symm) h₃
  exact ⟨htimestamp, prefix_of_append (htotal.trans (littleEndian_length 4 _).symm) h₄⟩

/-- Nothing is read from a beginning of the whole data but the whole. -/
theorem eq_of_prefix_wholeData {bitfield metadata_bytes : Bytes}
    (htotal : c.total_pieces < 2 ^ 32)
    (hbitfield : bitfield.length = (c.total_pieces + 7) / 8)
    (hpack : lib.packb (metadata c) = some metadata_bytes)
    (hfits : metadata_bytes.length < 2 ^ 32)
    (hbegin : data <+: wholeData c now bitfield metadata_bytes)
    (h : readBinaryData lib c.info_hash data = some d) :
    data = wholeData c now bitfield metadata_bytes := by
  obtain ⟨timestamp, total_pieces, bitfield', metadata_len, metadata_bytes', v, rfl, hhash, htime,
    htotalLength, hbitfield', hlen, hv⟩ := readBinaryData_eq_some h
  rw [wholeData] at hbegin ⊢
  obtain ⟨rfl, rfl, h₅⟩ := prefix_header htime htotalLength hbegin
  rw [ofLittleEndian_littleEndian htotal] at hbitfield'
  obtain ⟨rfl, h₆⟩ := prefix_of_append (hbitfield'.trans hbitfield.symm) h₅
  obtain ⟨rfl, hmetadata⟩ := prefix_of_append (hlen.trans (littleEndian_length 4 _).symm) h₆
  rw [ofLittleEndian_littleEndian hfits, List.take_of_length_le hmetadata.length_le] at hv
  -- what msgpack unpacks are not fewer octets than it has packed
  have hwhole : metadata_bytes.length ≤ metadata_bytes'.length := by
    by_contra hshort
    have hcut := (lib.unpackb_packb _ _ hpack).2 metadata_bytes'.length (Nat.lt_of_not_le hshort)
    rw [← List.prefix_iff_eq_take.mp hmetadata] at hcut
    cases hcut.symm.trans hv
  rw [hmetadata.eq_of_length_le hwhole]

theorem le_length_of_readBinaryData (h : readBinaryData lib info_hash data = some d) :
    41 ≤ data.length := by
  obtain ⟨timestamp, total_pieces, bitfield, metadata_len, metadata_bytes, v, rfl, hhash, htime,
    htotal, -, hlen, -⟩ := readBinaryData_eq_some h
  simp only [List.length_append, hhash, htime, htotal, hlen, List.length_singleton,
    show MAGIC_BYTES.length = 4 from rfl]
  omega

theorem length_binaryHeader : (binaryHeader c now).length = 33 := by
  simp only [binaryHeader, List.length_append, c.info_hash_length, littleEndian_length,
    List.length_singleton, show MAGIC_BYTES.length = 4 from rfl]

/-- Nothing is read from data that end with the bitfield. -/
theorem not_prefix_bitfield {bitfield : Bytes} (htotal : c.total_pieces < 2 ^ 32)
    (hbitfield : bitfield.length = (c.total_pieces + 7) / 8)
    (h : readBinaryData lib c.info_hash data = some d) :
    ¬ data <+: binaryHeader c now ++ littleEndian 4 c.total_pieces ++ bitfield := by
  intro hbegin
  obtain ⟨timestamp, total_pieces, bitfield', metadata_len, metadata_bytes', v, rfl, -, htime,
    htotalLength, hbitfield', hlen, -⟩ := readBinaryData_eq_some h
  simp only [binaryHeader, List.append_assoc] at hbegin
  obtain ⟨rfl, rfl, h₅⟩ := prefix_header htime htotalLength hbegin
  rw [ofLittleEndian_littleEndian htotal] at hbitfield'
  have hlength := h₅.length_le
  rw [List.length_append, List.length_append, hbitfield', hlen, hbitfield] at hlength
  omega

/-- Nothing is read from binary data, or a beginning of them, but from the whole. -/
theorem readBinaryData_beginning (hbegin : data <+: (binaryData lib c now).1)
    (h : readBinaryData lib c.info_hash data = some d) :
    BinarySaves lib c ∧ data = (binaryData lib c now).1 := by
  by_cases hsaves : BinarySaves lib c
  · obtain ⟨bitfield, metadata_bytes, hmarked, hpack, hfits, hwhole⟩ := hsaves.data now
    have hbitfield : bitfield.length = (c.total_pieces + 7) / 8 := by
      rw [length_foldlM_markPiece hmarked, List.length_replicate]
    rw [hwhole] at hbegin ⊢
    exact ⟨hsaves, eq_of_prefix_wholeData hsaves.total_pieces hbitfield hpack hfits hbegin h⟩
  · exfalso
    have hlength := (le_length_of_readBinaryData h).trans hbegin.length_le
    have hfailed : (binaryData lib c now).2 ≠ true := fun hwritten =>
      hsaves ((binaryData_iff now).mp hwritten)
    rw [binaryData] at hbegin hlength hfailed
    by_cases htotal : c.total_pieces < 2 ^ 32
    · rw [if_pos htotal] at hbegin hlength hfailed
      cases hmarked : pieceBitfield c with
      | none =>
        rw [hmarked] at hlength
        simp only [List.length_append, length_binaryHeader, littleEndian_length] at hlength
        omega
      | some bitfield =>
        have hbitfield : bitfield.length = (c.total_pieces + 7) / 8 := by
          rw [length_foldlM_markPiece hmarked, List.length_replicate]
        rw [hmarked] at hbegin hfailed
        cases hpack : lib.packb (metadata c) with
        | none =>
          rw [hpack] at hbegin
          exact not_prefix_bitfield htotal hbitfield h hbegin
        | some metadata_bytes =>
          rw [hpack] at hbegin hfailed
          by_cases hfits : metadata_bytes.length < 2 ^ 32
          · simp only [if_pos hfits] at hfailed
            exact hfailed rfl
          · simp only [if_neg hfits] at hbegin
            exact not_prefix_bitfield htotal hbitfield h hbegin
    · rw [if_neg htotal] at hlength
      simp only [length_binaryHeader] at hlength
      omega

end Binary

end Checkpoint

end Ccbt
