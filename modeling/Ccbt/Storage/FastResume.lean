import Ccbt.Piece.Availability
import Ccbt.Storage.Checkpoint.Bitfield
import Mathlib.Data.Nat.Bitwise

/-!
# Fast resume data

The bitmaps of `FastResumeData` in `storage/resume_data.py`, the other loops that read the bits of a
bitfield, and `validate_resume_data` of `session/fast_resume.py`. All loops read the bits that
`Checkpoint.hasPiece` tells. The validation reads a bitmap for as many pieces as the torrent has, so
that it never meets a piece that the torrent has not.
-/

namespace Ccbt

open Python

/-- The module `gzip`: `compress`, and `decompress`, `none` where it raises. -/
structure Gzip where
  compress : Bytes → Bytes
  decompress : Bytes → Option Bytes

/-- What is compressed is decompressed again, and compressed data begin with a magic number. -/
structure Gzip.Lawful (gzip : Gzip) : Prop where
  decompress_compress : ∀ data, gzip.decompress (gzip.compress data) = some data
  compress_ne_nil : ∀ data, gzip.compress data ≠ []

namespace FastResume

section Bitmaps

/-- `byte_val & (1 << (7 - bit_idx))` as a condition. -/
def bitIsSet (byte_val : UInt8) (bit_idx : Nat) : Bool :=
  byte_val.toNat &&& (1 <<< (7 - bit_idx)) ≠ 0

/-- `bitfield[byte_idx] |= 1 << (7 - bit_idx)` for a verified piece that is in range. -/
def setBit (total_pieces : Nat) (bitfield : Bytes) (piece_idx : Int) : Bytes :=
  if 0 ≤ piece_idx ∧ piece_idx < total_pieces then
    let byte_idx := piece_idx.toNat / 8
    let bit_idx := piece_idx.toNat % 8
    if byte_idx < bitfield.length then
      bitfield.modify byte_idx (· ||| UInt8.ofNat (1 <<< (7 - bit_idx)))
    else bitfield
  else bitfield

/-- `encode_piece_bitmap`, for the set of the verified pieces in the order in which they come. -/
def encodePieceBitmap (gzip : Gzip) (verified_pieces : List Int) (total_pieces : Nat) : Bytes :=
  if total_pieces = 0 then gzip.compress []
  else
    gzip.compress
      (verified_pieces.foldl (setBit total_pieces) (List.replicate ((total_pieces + 7) / 8) 0))

/-- The body of the loops of `decode_piece_bitmap` and of `update_peer_availability`: a piece that
is out of range is passed over. -/
def collectBit (total_pieces byte_idx : Nat) (byte_val : UInt8) (pieces : Finset Nat)
    (bit_idx : Nat) : Finset Nat :=
  let piece_idx := byte_idx * 8 + bit_idx
  if piece_idx < total_pieces ∧ bitIsSet byte_val bit_idx then insert piece_idx pieces else pieces

/-- These loops, from octet `byte_idx` on. -/
def collectBits (total_pieces : Nat) : Nat → Bytes → Finset Nat → Finset Nat
  | _, [], pieces => pieces
  | byte_idx, byte_val :: bitfield, pieces =>
    collectBits total_pieces (byte_idx + 1) bitfield
      ((List.range 8).foldl (collectBit total_pieces byte_idx byte_val) pieces)

def decodePieceBitmap (gzip : Gzip) (bitmap_data : Bytes) (total_pieces : Nat) : Finset Nat :=
  if bitmap_data = [] ∨ total_pieces = 0 then ∅
  else
    match gzip.decompress bitmap_data with
    | none => ∅
    | some bitfield => collectBits total_pieces 0 bitfield ∅

/-- The body of the loop of `parse_bitfield`, which returns at a piece that is out of range: what
is returned is the error here. -/
def parseBit (num_pieces byte_idx : Nat) (byte_val : UInt8) (pieces : Finset Nat) (bit_idx : Nat) :
    Except (Finset Nat) (Finset Nat) :=
  let piece_idx := byte_idx * 8 + bit_idx
  if piece_idx ≥ num_pieces then .error pieces
  else if bitIsSet byte_val bit_idx then .ok (insert piece_idx pieces)
  else .ok pieces

/-- The loop of `parse_bitfield`, from octet `byte_idx` on. -/
def parseBits (num_pieces : Nat) : Nat → Bytes → Finset Nat → Finset Nat
  | _, [], pieces => pieces
  | byte_idx, byte_val :: bitfield, pieces =>
    match (List.range 8).foldlM (parseBit num_pieces byte_idx byte_val) pieces with
    | .error pieces => pieces
    | .ok pieces => parseBits num_pieces (byte_idx + 1) bitfield pieces

/-- `parse_bitfield` of `utils/bitfield.py`. -/
def parseBitfield (bitfield : Bytes) (num_pieces : Nat) : Finset Nat :=
  if bitfield = [] ∨ num_pieces = 0 then ∅ else parseBits num_pieces 0 bitfield ∅

open Checkpoint (hasPiece)

variable {gzip : Gzip} {bitfield : Bytes} {byte_val : UInt8} {n k i : Nat} {pieces : Finset Nat}

theorem bitIsSet_eq (byte_val : UInt8) (bit_idx : Nat) :
    bitIsSet byte_val bit_idx = byte_val.toNat.testBit (7 - bit_idx) := by
  rw [bitIsSet, Nat.one_shiftLeft, Nat.and_two_pow]
  cases byte_val.toNat.testBit (7 - bit_idx) <;> simp

/-- The pieces of a bitfield, as what all loops come to. -/
def piecesOf (num_pieces : Nat) (bitfield : Bytes) : Finset Nat :=
  (Finset.range num_pieces).filter fun i => hasPiece bitfield i = true

theorem mem_piecesOf : i ∈ piecesOf n bitfield ↔ i < n ∧ hasPiece bitfield i = true := by
  rw [piecesOf, Finset.mem_filter, Finset.mem_range]

theorem hasPiece_of_le (h : 8 * bitfield.length ≤ i) : hasPiece bitfield i = false := by
  rw [hasPiece, List.getD_eq_getElem?_getD, List.getElem?_eq_none (by omega)]
  exact Nat.zero_testBit _

theorem hasPiece_nil (i : Nat) : hasPiece [] i = false := hasPiece_of_le (Nat.zero_le i)

/-- The first eight bits are those of the first octet. -/
theorem hasPiece_cons (byte_val : UInt8) (bitfield : Bytes) (i : Nat) :
    hasPiece (byte_val :: bitfield) i =
      if i < 8 then bitIsSet byte_val i else hasPiece bitfield (i - 8) := by
  split
  · next hlt =>
    rw [hasPiece, Nat.div_eq_of_lt hlt, Nat.mod_eq_of_lt hlt, bitIsSet_eq]
    rfl
  · next hge =>
    rw [hasPiece, hasPiece, show i / 8 = (i - 8) / 8 + 1 by omega,
      show (i - 8) % 8 = i % 8 by omega]
    rfl

section Encode

theorem length_setBit (bitfield : Bytes) (piece_idx : Int) :
    (setBit n bitfield piece_idx).length = bitfield.length := by
  rw [setBit]
  dsimp only
  split
  · split
    · exact List.length_modify ..
    · rfl
  · rfl

/-- The bit of the piece is set if it is in range, and the others stay. -/
theorem hasPiece_setBit (hroom : n ≤ 8 * bitfield.length) (piece_idx : Int) (i : Nat) :
    hasPiece (setBit n bitfield piece_idx) i =
      (hasPiece bitfield i || decide (i < n ∧ (i : Int) = piece_idx)) := by
  rw [setBit]
  split
  · next hrange =>
    obtain ⟨k, rfl⟩ := Int.eq_ofNat_of_zero_le hrange.1
    have hoctet : k / 8 < bitfield.length := by omega
    have hmark : Checkpoint.markPiece bitfield (k : Int) =
        some (bitfield.modify (k / 8) (· ||| UInt8.ofNat (1 <<< (7 - k % 8)))) := by
      have hindex : Checkpoint.octetIndex bitfield.length ((k : Int) / 8) = ((k / 8 : Nat) : Int) := by
        rw [Checkpoint.octetIndex, if_neg (by omega)]
        omega
      have hbit : ((k : Int) % 8).toNat = k % 8 := by omega
      rw [Checkpoint.markPiece, hindex, if_pos (by omega), hbit, Nat.one_shiftLeft,
        Int.toNat_natCast]
    dsimp only
    rw [Int.toNat_natCast, if_pos hoctet, Checkpoint.hasPiece_markPiece hmark]
    congr 1
    rw [decide_eq_decide]
    omega
  · next hrange =>
    rw [decide_eq_false (by omega), Bool.or_false]

/-- The bits of the pieces in range are set, and the others stay. -/
theorem hasPiece_foldl_setBit (hroom : n ≤ 8 * bitfield.length) (verified_pieces : List Int)
    (i : Nat) : hasPiece (verified_pieces.foldl (setBit n) bitfield) i =
      (hasPiece bitfield i || decide (i < n ∧ (i : Int) ∈ verified_pieces)) := by
  induction verified_pieces generalizing bitfield with
  | nil => simp
  | cons piece_idx verified_pieces ih =>
    rw [List.foldl_cons, ih (by rwa [length_setBit]), hasPiece_setBit hroom, Bool.or_assoc,
      ← Bool.decide_or]
    congr 1
    rw [decide_eq_decide, ← and_or_left, List.mem_cons]

theorem hasPiece_zeros (length i : Nat) : hasPiece (List.replicate length 0) i = false := by
  rw [hasPiece, List.getD_eq_getElem?_getD, List.getElem?_replicate]
  split
  · exact Nat.zero_testBit _
  · exact Nat.zero_testBit _

end Encode

section Decode

/-- The bits of one octet. -/
theorem mem_foldl_collectBit {bits : List Nat} :
    i ∈ bits.foldl (collectBit n k byte_val) pieces ↔
      i ∈ pieces ∨ ∃ bit_idx ∈ bits, i = k * 8 + bit_idx ∧ i < n ∧ bitIsSet byte_val bit_idx := by
  induction bits generalizing pieces with
  | nil => simp
  | cons bit_idx bits ih =>
    have hbit : i ∈ collectBit n k byte_val pieces bit_idx ↔
        i ∈ pieces ∨ (i = k * 8 + bit_idx ∧ i < n ∧ bitIsSet byte_val bit_idx) := by
      rw [collectBit]
      split
      · next hset =>
        rw [Finset.mem_insert, or_comm]
        exact or_congr_right ⟨fun heq => ⟨heq, heq ▸ hset⟩, And.left⟩
      · next hset =>
        refine (or_iff_left ?_).symm
        rintro ⟨rfl, hset'⟩
        exact hset hset'
    rw [List.foldl_cons, ih, hbit, List.exists_mem_cons_iff, or_assoc]

/-- What is collected from octet `k` on. -/
theorem mem_collectBits : i ∈ collectBits n k bitfield pieces ↔
    i ∈ pieces ∨ (k * 8 ≤ i ∧ i < n ∧ hasPiece bitfield (i - k * 8) = true) := by
  induction bitfield generalizing k pieces with
  | nil => simp [collectBits, hasPiece_nil]
  | cons byte_val bitfield ih =>
    rw [collectBits, ih, mem_foldl_collectBit, or_assoc, hasPiece_cons]
    refine or_congr_right ⟨?_, ?_⟩
    · rintro (⟨bit_idx, hmem, rfl, hlt, hset⟩ | ⟨hle, hlt, hset⟩)
      · have hbit := List.mem_range.mp hmem
        rw [Nat.add_sub_cancel_left, if_pos hbit]
        exact ⟨Nat.le_add_right _ _, hlt, hset⟩
      · rw [if_neg (by omega), show i - k * 8 - 8 = i - (k + 1) * 8 by omega]
        exact ⟨by omega, hlt, hset⟩
    · rintro ⟨hle, hlt, hset⟩
      by_cases hbit : i - k * 8 < 8
      · rw [if_pos hbit] at hset
        exact .inl ⟨i - k * 8, List.mem_range.mpr hbit, by omega, hlt, hset⟩
      · rw [if_neg hbit, show i - k * 8 - 8 = i - (k + 1) * 8 by omega] at hset
        exact .inr ⟨by omega, hlt, hset⟩

theorem collectBits_eq (n : Nat) (bitfield : Bytes) :
    collectBits n 0 bitfield ∅ = piecesOf n bitfield := by
  ext i
  simp [mem_collectBits, mem_piecesOf]

theorem piecesOf_zero (bitfield : Bytes) : piecesOf 0 bitfield = ∅ := rfl

theorem decodePieceBitmap_compress (hgzip : gzip.Lawful) (n : Nat) (bitfield : Bytes) :
    decodePieceBitmap gzip (gzip.compress bitfield) n = piecesOf n bitfield := by
  have hdata := hgzip.compress_ne_nil bitfield
  rw [decodePieceBitmap, hgzip.decompress_compress]
  split
  · next hempty =>
    rw [or_iff_right hdata] at hempty
    rw [hempty, piecesOf_zero]
  · exact collectBits_eq n bitfield

end Decode

section Parse

/-- Bits that are out of range are not collected. -/
theorem foldl_collectBit_of_le {bits : List Nat} (h : ∀ bit_idx ∈ bits, n ≤ k * 8 + bit_idx) :
    bits.foldl (collectBit n k byte_val) pieces = pieces := by
  ext i
  rw [mem_foldl_collectBit, or_iff_left_iff_imp]
  rintro ⟨bit_idx, hmem, rfl, hlt, -⟩
  exact absurd hlt (Nat.not_lt_of_le (h bit_idx hmem))

/-- The loop over bits in order comes to what is collected, whether it returns early or not. -/
theorem foldlM_parseBit {bits : List Nat} (hsorted : bits.Pairwise (· ≤ ·)) :
    bits.foldlM (parseBit n k byte_val) pieces =
      if ∃ bit_idx ∈ bits, n ≤ k * 8 + bit_idx then
        .error (bits.foldl (collectBit n k byte_val) pieces)
      else .ok (bits.foldl (collectBit n k byte_val) pieces) := by
  induction bits generalizing pieces with
  | nil =>
    rw [if_neg (by simp)]
    rfl
  | cons bit_idx bits ih =>
    obtain ⟨hfirst, hrest⟩ := List.pairwise_cons.mp hsorted
    rw [List.foldlM_cons, parseBit]
    by_cases hout : n ≤ k * 8 + bit_idx
    · -- those that follow are out of range as well
      have hall : ∀ j ∈ bit_idx :: bits, n ≤ k * 8 + j := by
        rw [List.forall_mem_cons]
        exact ⟨hout, fun j hj => hout.trans (Nat.add_le_add_left (hfirst j hj) _)⟩
      rw [if_pos hout, if_pos ⟨bit_idx, List.mem_cons_self, hout⟩, foldl_collectBit_of_le hall]
      rfl
    · have hcollect : (if bitIsSet byte_val bit_idx then
          .ok (insert (k * 8 + bit_idx) pieces) else .ok pieces : Except (Finset Nat) (Finset Nat)) =
            .ok (collectBit n k byte_val pieces bit_idx) := by
        rw [collectBit]
        have hin : k * 8 + bit_idx < n := Nat.lt_of_not_le hout
        simp only [hin, true_and]
        split <;> rfl
      have hexists : (∃ j ∈ bit_idx :: bits, n ≤ k * 8 + j) ↔ ∃ j ∈ bits, n ≤ k * 8 + j := by
        rw [List.exists_mem_cons_iff, or_iff_right hout]
      rw [if_neg hout, hcollect, List.foldl_cons]
      simp only [hexists]
      exact ih hrest

/-- When the loop returns early, no piece that follows is in range. -/
theorem parseBits_eq (n k : Nat) (bitfield : Bytes) (pieces : Finset Nat) :
    parseBits n k bitfield pieces = collectBits n k bitfield pieces := by
  induction bitfield generalizing k pieces with
  | nil => rfl
  | cons byte_val bitfield ih =>
    rw [parseBits, collectBits, foldlM_parseBit (List.pairwise_lt_range.imp Nat.le_of_lt)]
    split_ifs with hreturn
    · obtain ⟨bit_idx, hmem, hout⟩ := hreturn
      have hbit := List.mem_range.mp hmem
      ext i
      rw [mem_collectBits, or_iff_left]
      rintro ⟨hle, hlt, -⟩
      omega
    · exact ih _ _

theorem parseBitfield_eq (bitfield : Bytes) (n : Nat) :
    parseBitfield bitfield n = piecesOf n bitfield := by
  rw [parseBitfield]
  split
  · next hempty =>
    ext i
    rw [mem_piecesOf]
    obtain rfl | rfl := hempty
    · simp [hasPiece_nil]
    · simp
  · rw [parseBits_eq, collectBits_eq]

end Parse

/-- The pieces that `AsyncPieceManager` reads are those that its loop collects. -/
theorem managerPieces_eq (n : Nat) (bitfield : Bytes) :
    Piece.AsyncPieceManager.parseBitfield n bitfield = collectBits n 0 bitfield ∅ := by
  rw [collectBits_eq]
  ext i
  rw [Piece.AsyncPieceManager.parseBitfield, mem_piecesOf, Finset.mem_filter, Finset.mem_range]
  by_cases hlt : i < 8 * bitfield.length
  · have hoctet : i / 8 < bitfield.length := by omega
    rw [and_iff_right hlt, hasPiece, List.getD_eq_getElem?_getD, List.getElem?_eq_getElem hoctet]
    simp
  · rw [hasPiece_of_le (by omega)]
    simp [hlt]

theorem decodePieceBitmap_encode (hgzip : gzip.Lawful) (verified_pieces : List Int) (n : Nat) :
    decodePieceBitmap gzip (encodePieceBitmap gzip verified_pieces n) n =
      (Finset.range n).filter fun i : Nat => (i : Int) ∈ verified_pieces := by
  rw [encodePieceBitmap]
  split
  · next hzero =>
    rw [decodePieceBitmap_compress hgzip, hzero]
    rfl
  · rw [decodePieceBitmap_compress hgzip]
    ext i
    have hroom : n ≤ 8 * (List.replicate ((n + 7) / 8) (0 : UInt8)).length := by
      rw [List.length_replicate]
      omega
    rw [mem_piecesOf, hasPiece_foldl_setBit hroom, hasPiece_zeros, Bool.false_or,
      decide_eq_true_eq, Finset.mem_filter, Finset.mem_range, and_self_left]

/-- A bitmap is read back as the pieces in range, and every loop reads the same pieces. -/
theorem bitmaps_agree (hgzip : gzip.Lawful) :
    (∀ (verified_pieces : List Int) (n : Nat),
      decodePieceBitmap gzip (encodePieceBitmap gzip verified_pieces n) n =
        (Finset.range n).filter fun i : Nat => (i : Int) ∈ verified_pieces) ∧
    ∀ (bitfield : Bytes) (n : Nat),
      decodePieceBitmap gzip (gzip.compress bitfield) n = parseBitfield bitfield n ∧
      collectBits n 0 bitfield ∅ = parseBitfield bitfield n ∧
      ∀ (m : Piece.AsyncPieceManager) (peer_key : String), m.num_pieces = n →
        (m.updatePeerAvailability peer_key bitfield).piecesOf peer_key =
          parseBitfield bitfield n := by
  refine ⟨decodePieceBitmap_encode hgzip, fun bitfield n => ⟨?_, ?_, ?_⟩⟩
  · rw [decodePieceBitmap_compress hgzip, parseBitfield_eq]
  · rw [collectBits_eq, parseBitfield_eq]
  · rintro m peer_key rfl
    rw [parseBitfield_eq, ← collectBits_eq, ← managerPieces_eq]
    exact m.piecesOf_setPieces peer_key _

/-- `gzip`, as far as the octet 0x40 goes; other data are marked by a zero in front. -/
def oneOctetGzip : Gzip where
  compress data :=
    if data = [0x40] then
      [0x1F, 0x8B, 8, 0, 0, 0, 0, 0, 2, 3, 115, 0, 0, 29, 174, 222, 164, 1, 0, 0, 0]
    else 0 :: data
  decompress data :=
    match data with
    | 0 :: data => some data
    | 0x1F :: _ => some [0x40]
    | _ => none

theorem oneOctetGzip_lawful : oneOctetGzip.Lawful where
  decompress_compress := by
    intro data
    by_cases h : data = [0x40]
    · rw [h]
      rfl
    · dsimp only [oneOctetGzip]
      rw [if_neg h]
      rfl
  compress_ne_nil := by
    intro data
    dsimp only [oneOctetGzip]
    split <;> exact List.cons_ne_nil _ _

theorem bitmaps_agree_oneOctet : oneOctetGzip.Lawful ∧
    decodePieceBitmap oneOctetGzip (encodePieceBitmap oneOctetGzip [1, 2] 2) 2 = {1} := by
  refine ⟨oneOctetGzip_lawful, ?_⟩
  rw [(bitmaps_agree oneOctetGzip_lawful).1 [1, 2] 2]
  decide

end Bitmaps

section Validation

/-- Resume data, as far as they are validated. -/
structure FastResumeData where
  info_hash : Bytes
  piece_completion_bitmap : Bytes

/-- What is said about a torrent: a dictionary with a hash, if there is one, and the hashes of the
pieces; a `TorrentInfoModel`; or another object with or without an attribute `total_pieces`. -/
inductive TorrentMetadata
  | dict (info_hash : Option Bytes) (pieces : Bytes)
  | model (info_hash : Bytes) (num_pieces : Nat)
  | object (info_hash : Option Bytes) (total_pieces : Option Nat)

namespace TorrentMetadata

def expectedHash : TorrentMetadata → Option Bytes
  | dict info_hash _ => info_hash
  | model info_hash _ => some info_hash
  | object info_hash _ => info_hash

/-- `total_pieces` of the validation. A `TorrentInfoModel` has no such attribute. -/
def totalPieces : TorrentMetadata → Nat
  | dict _ pieces => if pieces ≠ [] then pieces.length / 20 else 0
  | model _ _ => 0
  | object _ total_pieces => total_pieces.getD 0

def numPieces : TorrentMetadata → Nat
  | dict _ pieces => pieces.length / 20
  | model _ num_pieces => num_pieces
  | object _ total_pieces => total_pieces.getD 0

end TorrentMetadata

def validateResumeData (gzip : Gzip) (resume_data : FastResumeData)
    (torrent_info : TorrentMetadata) : Bool × List String :=
  let hashErrors :=
    match torrent_info.expectedHash with
    | none => []
    | some expected_hash =>
      if expected_hash ≠ [] ∧ resume_data.info_hash ≠ expected_hash then ["Info hash mismatch"]
      else []
  let total_pieces := torrent_info.totalPieces
  let verified_pieces := decodePieceBitmap gzip resume_data.piece_completion_bitmap total_pieces
  let countErrors :=
    let count := verified_pieces.card
    if count > total_pieces then [s!"Verified pieces ({count}) > total ({total_pieces})"] else []
  let indexErrors :=
    if total_pieces > 0 then
      let invalid_pieces := verified_pieces.filter fun p => p ≥ total_pieces
      let listed := invalid_pieces.sort
      if invalid_pieces ≠ ∅ then [s!"Invalid piece indices: {listed}"] else []
    else []
  let errors := hashErrors ++ countErrors ++ indexErrors
  (errors = [], errors)

variable {gzip : Gzip}

/-- A decoder never gives a piece that is out of its range. -/
theorem decodePieceBitmap_subset (gzip : Gzip) (bitmap_data : Bytes) (total_pieces : Nat) :
    decodePieceBitmap gzip bitmap_data total_pieces ⊆ Finset.range total_pieces := by
  intro i hi
  rw [decodePieceBitmap] at hi
  split at hi
  · exact absurd hi (Finset.notMem_empty i)
  · split at hi
    · exact absurd hi (Finset.notMem_empty i)
    · rw [collectBits_eq, mem_piecesOf] at hi
      exact Finset.mem_range.mpr hi.1

/-- The hash of the torrent is compared with the one that is stored, unless it is empty. -/
def HashRefused (resume_data : FastResumeData) (torrent_info : TorrentMetadata) : Prop :=
  ∃ expected_hash, torrent_info.expectedHash = some expected_hash ∧ expected_hash ≠ [] ∧
    resume_data.info_hash ≠ expected_hash

/-- Nothing but the hash is ever refused. -/
theorem validateResumeData_eq_false_iff (gzip : Gzip) (resume_data : FastResumeData)
    (torrent_info : TorrentMetadata) :
    (validateResumeData gzip resume_data torrent_info).1 = false ↔
      HashRefused resume_data torrent_info := by
  have hsubset := decodePieceBitmap_subset gzip resume_data.piece_completion_bitmap
    torrent_info.totalPieces
  have hcount := Finset.card_le_card hsubset
  rw [Finset.card_range] at hcount
  have hinvalid : (decodePieceBitmap gzip resume_data.piece_completion_bitmap
      torrent_info.totalPieces).filter (fun p => p ≥ torrent_info.totalPieces) = ∅ :=
    Finset.filter_eq_empty_iff.mpr fun p hp => Nat.not_le.mpr (Finset.mem_range.mp (hsubset hp))
  rw [validateResumeData, HashRefused]
  dsimp only
  rw [if_neg (Nat.not_lt.mpr hcount), hinvalid, List.append_nil]
  cases torrent_info.expectedHash with
  | none => simp
  | some expected_hash =>
    simp only [ne_eq, not_true_eq_false, if_false, ite_self, List.append_nil,
      Option.some.injEq, exists_eq_left', decide_eq_false_iff_not, ite_eq_right_iff,
      List.cons_ne_nil, imp_false, not_not]

/-- The info hash of the torrent is another one. -/
def HashDiffers (resume_data : FastResumeData) (torrent_info : TorrentMetadata) : Prop :=
  torrent_info.expectedHash ≠ some resume_data.info_hash

/-- The bitmap of the pieces among so many marks one that the torrent has not. -/
def MarksBeyond (verified_pieces : List Int) (total_pieces : Nat)
    (torrent_info : TorrentMetadata) : Prop :=
  ∃ i ∈ verified_pieces, torrent_info.numPieces ≤ i ∧ i < total_pieces

/-- Resume data of another layout are rejected if and only if the hash tells them apart. -/
theorem rejects_iff (gzip : Gzip) (info_hash : Bytes) (verified_pieces : List Int)
    (total_pieces : Nat) (torrent_info : TorrentMetadata) :
    let resume_data : FastResumeData :=
      ⟨info_hash, encodePieceBitmap gzip verified_pieces total_pieces⟩
    (HashDiffers resume_data torrent_info ∨
        MarksBeyond verified_pieces total_pieces torrent_info →
      (validateResumeData gzip resume_data torrent_info).1 = false) ↔
    HashRefused resume_data torrent_info ∨
      (¬HashDiffers resume_data torrent_info ∧
        ¬MarksBeyond verified_pieces total_pieces torrent_info) := by
  intro resume_data
  rw [validateResumeData_eq_false_iff]
  tauto

/-- A torrent with one piece takes the bitmap of one with two pieces. -/
theorem accepts_beyond : oneOctetGzip.Lawful ∧
    encodePieceBitmap oneOctetGzip [1] 2 = oneOctetGzip.compress [0x40] ∧
    MarksBeyond [1] 2 (.dict (some (List.replicate 20 7)) (List.replicate 20 8)) ∧
    (validateResumeData oneOctetGzip
      ⟨List.replicate 20 7, encodePieceBitmap oneOctetGzip [1] 2⟩
      (.dict (some (List.replicate 20 7)) (List.replicate 20 8))).1 = true := by
  refine ⟨oneOctetGzip_lawful, by decide, ⟨1, List.mem_cons_self, by decide, by decide⟩, ?_⟩
  rw [← Bool.not_eq_false, validateResumeData_eq_false_iff]
  rintro ⟨expected_hash, hexpected, -, hne⟩
  exact hne (Option.some.inj hexpected)

end Validation

end FastResume

end Ccbt
