import Ccbt.Storage.Checkpoint.Bitfield
import Ccbt.Storage.Checkpoint.Fields

/-!
# Which checkpoints survive the binary format

A checkpoint can be written if its numbers fit and msgpack packs its metadata. It comes back if in
addition its pieces are sorted, msgpack allows the keys in `peer_info`, there is nothing in the
fields that are not written, and it is as old as its last update.
-/

namespace Ccbt

open Python

namespace Checkpoint

/-- A value that msgpack gives back as it is. -/
abbrev MsgpackPlain : Value → Prop := Value.Plain some unpackKey

/-- The data of the checkpoint can be written. -/
structure BinarySaves (lib : Libraries) (c : TorrentCheckpoint) : Prop where
  total_pieces : c.total_pieces < 2 ^ 32
  verified_pieces : ∀ i ∈ c.verified_pieces, InBitfield ((c.total_pieces + 7) / 8) i
  metadata : ∃ data, lib.packb (metadata c) = some data ∧ data.length < 2 ^ 32

/-- What a checkpoint must be like to come back from a binary file. -/
structure BinarySurvives (lib : Libraries) (config : DiskConfig) (c : TorrentCheckpoint)
    (now : Now) : Prop extends BinarySaves lib c where
  readable : config.checkpoint_compression = true → usesZstd lib config = false
  version : c.version = "1.0".toList
  created_at : ∃ q, c.created_at = .finite q ∧ ⌊q⌋ = ⌊now.val⌋
  sorted : c.verified_pieces.Pairwise (· < ·)
  in_range : ∀ i ∈ c.verified_pieces, 0 ≤ i ∧ i < c.total_pieces
  peer_info : ∀ d, c.peer_info = some d → MsgpackPlain d.val
  resume_data : c.resume_data = none
  file_selections : c.file_selections = none

variable {lib : Libraries} {config : DiskConfig} {c c' : TorrentCheckpoint} {now : Now}
  {bitfield metadata_bytes : Bytes}

section Data

/-- The data of a checkpoint, with the bitfield and the metadata that have been made of it. -/
def wholeData (c : TorrentCheckpoint) (now : Now) (bitfield metadata_bytes : Bytes) : Bytes :=
  MAGIC_BYTES ++ ([1] ++ (c.info_hash ++ (littleEndian 8 (seconds now) ++
    (littleEndian 4 c.total_pieces ++ (bitfield ++
      (littleEndian 4 metadata_bytes.length ++ metadata_bytes))))))

theorem binaryData_iff (now : Now) : (binaryData lib c now).2 = true ↔ BinarySaves lib c := by
  have hlength : (List.replicate ((c.total_pieces + 7) / 8) (0 : UInt8)).length =
    (c.total_pieces + 7) / 8 := List.length_replicate
  have hbitfield : (pieceBitfield c).isSome = true ↔
      ∀ i ∈ c.verified_pieces, InBitfield ((c.total_pieces + 7) / 8) i := by
    rw [pieceBitfield, foldlM_markPiece_isSome_iff, hlength]
  rw [binaryData]
  by_cases htotal : c.total_pieces < 2 ^ 32
  · rw [if_pos htotal]
    cases hmarked : pieceBitfield c with
    | none =>
      refine iff_of_false Bool.false_ne_true fun h => ?_
      have hsome := hbitfield.mpr h.verified_pieces
      rw [hmarked] at hsome
      exact Bool.false_ne_true hsome
    | some bitfield =>
      have hin := hbitfield.mp (by rw [hmarked]; rfl)
      cases hpack : lib.packb (metadata c) with
      | none =>
        refine iff_of_false Bool.false_ne_true fun h => ?_
        obtain ⟨data, hdata, -⟩ := h.metadata
        rw [hpack] at hdata
        cases hdata
      | some metadata_bytes =>
        dsimp only
        split
        · next hfits => exact iff_of_true rfl ⟨htotal, hin, metadata_bytes, hpack, hfits⟩
        · next hlong =>
          refine iff_of_false Bool.false_ne_true fun h => ?_
          obtain ⟨data, hdata, hfits⟩ := h.metadata
          rw [hpack] at hdata
          exact hlong (Option.some.inj hdata ▸ hfits)
  · rw [if_neg htotal]
    exact iff_of_false Bool.false_ne_true fun h => htotal h.total_pieces

/-- What is written of a checkpoint that can be written. -/
theorem BinarySaves.data (h : BinarySaves lib c) (now : Now) : ∃ bitfield metadata_bytes,
    pieceBitfield c = some bitfield ∧ lib.packb (Checkpoint.metadata c) = some metadata_bytes ∧
      metadata_bytes.length < 2 ^ 32 ∧
        (binaryData lib c now).1 = wholeData c now bitfield metadata_bytes := by
  obtain ⟨metadata_bytes, hpack, hfits⟩ := h.metadata
  have hbitfield : (pieceBitfield c).isSome = true := by
    rw [pieceBitfield, foldlM_markPiece_isSome_iff, List.length_replicate]
    exact h.verified_pieces
  obtain ⟨bitfield, hmarked⟩ := Option.isSome_iff_exists.mp hbitfield
  refine ⟨bitfield, metadata_bytes, hmarked, hpack, hfits, ?_⟩
  simp only [binaryData, if_pos h.total_pieces, hmarked, hpack, if_pos hfits, binaryHeader,
    wholeData, List.append_assoc]

theorem readExactly_append {n : Nat} {a : Bytes} (h : a.length = n) (b : Bytes) :
    readExactly n (a ++ b) = some (a, b) := by
  rw [readExactly, if_pos (by rw [List.length_append]; omega), List.take_left' h, List.drop_left' h]

theorem seconds_lt (now : Now) : seconds now < 256 ^ 8 := by
  have hfloor : ⌊now.val⌋ < 2 ^ 64 := Int.floor_lt.mpr (by exact_mod_cast now.property.2)
  rw [seconds]
  omega

theorem cast_seconds (now : Now) : (seconds now : Int) = ⌊now.val⌋ :=
  Int.toNat_of_nonneg (Int.floor_nonneg.mpr now.property.1)

/-- What has been written is read again, and the metadata are unpacked. -/
theorem readBinaryData_wholeData (htotal : c.total_pieces < 2 ^ 32)
    (hmarked : pieceBitfield c = some bitfield) (hfits : metadata_bytes.length < 2 ^ 32) :
    readBinaryData lib c.info_hash (wholeData c now bitfield metadata_bytes) =
      (lib.unpackb metadata_bytes).map (binaryDict c.info_hash (seconds now) c.total_pieces
        (piecesOfBitfield c.total_pieces bitfield)) := by
  have hlength : bitfield.length = (c.total_pieces + 7) / 8 := by
    rw [length_foldlM_markPiece hmarked, List.length_replicate]
  have hmagic : MAGIC_BYTES.length = 4 := rfl
  have hone : ([1] : Bytes).length = 1 := rfl
  have htime := ofLittleEndian_littleEndian (seconds_lt now)
  have hpieces : ofLittleEndian (littleEndian 4 c.total_pieces) = c.total_pieces :=
    ofLittleEndian_littleEndian htotal
  have hlen : ofLittleEndian (littleEndian 4 metadata_bytes.length) = metadata_bytes.length :=
    ofLittleEndian_littleEndian hfits
  simp only [readBinaryData, wholeData, readExactly_append hmagic, readExactly_append hone,
    readExactly_append c.info_hash_length, readExactly_append (littleEndian_length 8 _),
    readExactly_append (littleEndian_length 4 _), bind, Option.bind_some, ne_eq, not_true,
    if_false, hpieces, List.drop_left' hlength, List.take_left' hlength, hlen, List.take_length,
    htime]
  cases lib.unpackb metadata_bytes with
  | none => rfl
  | some v => rfl

end Data

section Checkpoints

/-- The same checkpoint, up to `updated_at` and with `created_at` rounded to seconds. -/
def SameRounded (c c' : TorrentCheckpoint) : Prop :=
  c' = { c with created_at := c'.created_at, updated_at := c'.updated_at } ∧
    ∃ q, c.created_at = .finite q ∧ c'.created_at = .finite ⌊q⌋

theorem readBinaryData_nil (info_hash : Bytes) : readBinaryData lib info_hash [] = none := rfl

/-- What is compressed is read again, unless it has been compressed with zstd. -/
theorem uncompressed_compressed (config : DiskConfig) (data : Bytes)
    (h : config.checkpoint_compression = true → usesZstd lib config = false) :
    uncompressed lib config (compressed lib config data) = some data := by
  rw [uncompressed, compressed]
  cases hcompression : config.checkpoint_compression with
  | true =>
    rw [if_pos rfl, if_pos rfl, h hcompression]
    exact lib.gunzip_gzip data
  | false => rfl

/-- The metadata that are read back are made of the images of the entries. -/
theorem unpackb_metadata_iff (hpack : lib.packb (metadata c) = some metadata_bytes) {v : Value} :
    lib.unpackb metadata_bytes = some v ↔ ∃ g : MetadataField → Value,
      (∀ k, Value.image some unpackKey (metadataFields c k) = some (g k)) ∧ v = .record g := by
  rw [(lib.unpackb_packb _ _ hpack).1]
  exact Value.image_record_eq_some_iff keepsCommon_msgpack.key

theorem get?_metadata (g : MetadataField → Value) (k : MetadataField) :
    (Value.record g).get? k.name = some (g k) := Value.get?_record g k

/-- The metadata that are read, with what `peer_info` has become. -/
def metadataBack (c : TorrentCheckpoint) (peer_info : Option StrDict) : MetadataField → Value
  | .peer_info => optional Subtype.val peer_info
  | k => metadataFields c k

/-- The checkpoint is read again but for what is not written and what its `peer_info` has become. -/
structure BinaryReturns (lib : Libraries) (config : DiskConfig) (c : TorrentCheckpoint)
    (peer_info : Option StrDict) : Prop extends BinarySaves lib c where
  readable : config.checkpoint_compression = true → usesZstd lib config = false
  sorted : c.verified_pieces.Pairwise (· < ·)
  in_range : ∀ i ∈ c.verified_pieces, 0 ≤ i ∧ i < c.total_pieces
  peer_info : msgpackImage (optional Subtype.val c.peer_info) =
    some (optional Subtype.val peer_info)

/-- The metadata come back but for `peer_info`. -/
theorem image_metadataFields {peer_info : Option StrDict}
    (h : msgpackImage (optional Subtype.val c.peer_info) =
      some (optional Subtype.val peer_info)) (k : MetadataField) :
    Value.image some unpackKey (metadataFields c k) = some (metadataBack c peer_info k) := by
  have hcommon := keepsCommon_msgpack
  cases k with
  | piece_states => exact image_pieceStates hcommon c
  | download_stats => exact image_downloadStats hcommon c.download_stats
  | files => exact image_list fun file _ => image_fileCheckpoint hcommon fun _ _ => rfl
  | peer_info => exact h
  | torrent_file_path => exact image_optional hcommon fun _ _ => rfl
  | magnet_uri => exact image_optional hcommon fun _ _ => rfl
  | announce_urls => exact image_list fun _ _ => rfl
  | display_name => exact image_optional hcommon fun _ _ => rfl
  | _ => rfl

/-- The checkpoint that a binary file gives. -/
def binaryBack (c : TorrentCheckpoint) (now : Now) (peer_info : Option StrDict) :
    TorrentCheckpoint :=
  { c with
    version := "1.0".toList
    created_at := .finite (seconds now)
    updated_at := .finite (seconds now)
    peer_info := peer_info
    resume_data := none
    file_selections := none }

/-- What is read from the file of a checkpoint that can be read. -/
theorem readBinary_of_returns {peer_info : Option StrDict}
    (h : BinaryReturns lib config c peer_info) :
    ((uncompressed lib config (compressed lib config (binaryData lib c now).1)).bind
      (readBinaryData lib c.info_hash)).bind asTorrentCheckpoint =
        some (binaryBack c now peer_info) := by
  obtain ⟨bitfield, metadata_bytes, hmarked, hpack, hfits, hdata⟩ := h.toBinarySaves.data now
  have hunpack : lib.unpackb metadata_bytes = some (.record (metadataBack c peer_info)) :=
    (unpackb_metadata_iff hpack).mpr ⟨_, image_metadataFields h.peer_info, rfl⟩
  have hpieces := (piecesOfBitfield_eq_iff hmarked).mpr ⟨h.sorted, h.in_range⟩
  have hget : ∀ k : MetadataField,
      (Value.record (metadataBack c peer_info)).get? k.name = some (metadataBack c peer_info k) :=
    get?_metadata (metadataBack c peer_info)
  rw [hdata, uncompressed_compressed config _ h.readable, Option.bind_some,
    readBinaryData_wholeData h.total_pieces hmarked hfits, hunpack, Option.map_some,
    Option.bind_some, asTorrentCheckpoint_eq_some_iff]
  constructor
  · rfl
  · rfl
  · rw [binaryDict, hget]
    rfl
  · exact asFloat_natCast _
  · exact asFloat_natCast _
  · rfl
  · rw [binaryDict, hget]
    rfl
  · rw [binaryDict, hget]
    rfl
  · show Value.list _ = Value.list (c.verified_pieces.map .int)
    rw [← hpieces, List.map_map]
    rfl
  · rw [binaryDict, hget]
    exact asPieceStates c
  · rw [binaryDict, hget]
    exact asDownloadStats_modelDump c.download_stats
  · rw [binaryDict, hget]
    rfl
  · rw [binaryDict, hget]
    exact asList_map c.files fun file _ => asFileCheckpoint_modelDump file
  · rw [binaryDict, hget]
    rfl
  · rw [binaryDict, hget]
    rfl
  · rw [binaryDict, hget]
    rfl
  · rw [binaryDict, hget]
    rfl
  · rw [binaryDict, hget]
    rfl
  · rw [binaryDict, hget]
    rfl
  · rfl
  · rfl

/-- A file compressed with zstd is not read. -/
theorem readable_of_readBinary {info_hash data : Bytes} {d : CheckpointField → Value}
    (h : (uncompressed lib config (compressed lib config data)).bind
      (readBinaryData lib info_hash) = some d) :
    config.checkpoint_compression = true → usesZstd lib config = false := by
  intro hcompression
  cases hzstd : usesZstd lib config with
  | false => rfl
  | true =>
    rw [uncompressed, compressed, hcompression, hzstd, if_pos rfl, if_pos rfl, if_pos rfl] at h
    have hcut := lib.gunzip_zstd_take data (lib.zstd data).length
    rw [List.take_length] at hcut
    rcases hcut with hnone | hempty
    · rw [hnone] at h
      cases h
    · rw [hempty, Option.bind_some, readBinaryData_nil] at h
      cases h

/-- Only a checkpoint with sorted pieces is read from its file with these pieces. -/
theorem returns_of_readBinary (hsaves : BinarySaves lib c)
    (hread : ((uncompressed lib config (compressed lib config (binaryData lib c now).1)).bind
      (readBinaryData lib c.info_hash)).bind asTorrentCheckpoint = some c')
    (hpieces : c'.verified_pieces = c.verified_pieces) :
    BinaryReturns lib config c c'.peer_info ∧ c'.version = "1.0".toList ∧
      c'.created_at = .finite (seconds now) ∧ c'.resume_data = none ∧
        c'.file_selections = none := by
  obtain ⟨bitfield, metadata_bytes, hmarked, hpack, hfits, hdata⟩ := hsaves.data now
  obtain ⟨d, hd, hread⟩ := Option.bind_eq_some_iff.mp hread
  have hreadable := readable_of_readBinary hd
  rw [hdata, uncompressed_compressed config _ hreadable, Option.bind_some,
    readBinaryData_wholeData hsaves.total_pieces hmarked hfits] at hd
  obtain ⟨v, hv, rfl⟩ := Option.map_eq_some_iff.mp hd
  obtain ⟨g, hg, rfl⟩ := (unpackb_metadata_iff hpack).mp hv
  have hdescribes := asTorrentCheckpoint_eq_some_iff.mp hread
  have hback : ((piecesOfBitfield c.total_pieces bitfield).map fun i : Nat => (i : Int)) =
      c.verified_pieces := by
    have hlist : Value.list _ = Value.list (c'.verified_pieces.map .int) :=
      hdescribes.verified_pieces
    rw [hpieces] at hlist
    apply List.map_injective_iff.mpr (fun _ _ h => Value.int.inj h)
    rw [List.map_map]
    exact Value.list.inj hlist
  obtain ⟨hsorted, hin⟩ := (piecesOfBitfield_eq_iff hmarked).mp hback
  refine ⟨⟨hsaves, hreadable, hsorted, hin, ?_⟩, ?_, ?_, ?_, ?_⟩
  · have hpeer : Value.image some unpackKey (optional Subtype.val c.peer_info) =
      some (g .peer_info) := hg .peer_info
    have hpeerBack := hdescribes.peer_info
    rw [binaryDict, get?_metadata, Option.getD_some] at hpeerBack
    rw [← hpeerBack]
    exact hpeer
  · exact (Value.str.inj hdescribes.version).symm
  · have hcreated := hdescribes.created_at
    rw [binaryDict, asFloat_natCast] at hcreated
    exact (Option.some.inj hcreated).symm
  · cases hresume : c'.resume_data with
    | none => rfl
    | some d =>
      have hval : Value.none = optional Subtype.val c'.resume_data := hdescribes.resume_data
      rw [hresume] at hval
      exact absurd hval.symm (strDict_ne_none d)
  · exact (Option.some.inj hdescribes.file_selections).symm

/-- A checkpoint is written and read again, up to the rounded times, if and only if it survives
the binary format. -/
theorem binarySurvives_iff : BinarySurvives lib config c now ↔
    (binaryData lib c now).2 = true ∧ ∃ c',
      ((uncompressed lib config (compressed lib config (binaryData lib c now).1)).bind
        (readBinaryData lib c.info_hash)).bind asTorrentCheckpoint = some c' ∧
      SameRounded c c' := by
  constructor
  · intro h
    obtain ⟨q, hq, hfloor⟩ := h.created_at
    have hreturns : BinaryReturns lib config c c.peer_info :=
      ⟨h.toBinarySaves, h.readable, h.sorted, h.in_range,
        image_optional keepsCommon_msgpack fun d hd =>
          (Value.image_eq_self_iff _).mpr (h.peer_info d hd)⟩
    refine ⟨(binaryData_iff now).mpr h.toBinarySaves, _, readBinary_of_returns hreturns, ?_, q, hq,
      ?_⟩
    · rw [binaryBack, ← h.version, ← h.resume_data, ← h.file_selections]
    · rw [hfloor, ← cast_seconds, Int.cast_natCast]
      rfl
  · rintro ⟨hwritten, c', hread, hsame, q, hq, hrounded⟩
    have hpieces : c'.verified_pieces = c.verified_pieces := by rw [hsame]
    obtain ⟨h, hversion, hcreated, hresume, hselections⟩ :=
      returns_of_readBinary ((binaryData_iff now).mp hwritten) hread hpieces
    refine ⟨h.toBinarySaves, h.readable, ?_, ⟨q, hq, ?_⟩, h.sorted, h.in_range,
      fun d hd => ?_, ?_, ?_⟩
    · rw [hsame] at hversion
      exact hversion
    · rw [hrounded, PyFloat.finite.injEq] at hcreated
      rw [← cast_seconds]
      exact_mod_cast hcreated
    · have hpeer := h.peer_info
      rw [hsame, hd] at hpeer
      exact (Value.image_eq_self_iff _).mp hpeer
    · rw [hsame] at hresume
      exact hresume
    · rw [hsame] at hselections
      exact hselections

end Checkpoints

end Checkpoint

end Ccbt
