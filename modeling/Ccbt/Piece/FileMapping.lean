import Ccbt.Core.Torrent
import Ccbt.Interval.Overlap
import Ccbt.Python.Dict

/-!
# Pieces and files: `PieceToFileMapper` of `piece/file_selection.py`

Files lie one after the other in the torrent. A piece is met by the files one by one, and
each of them that is no padding file leaves a segment where it meets the piece.
-/

namespace Ccbt

open Python Torrent Interval

def Torrent.FileInfo.isPadding (f : FileInfo) : Bool :=
  match f.attributes with
  | some attributes => attributes.contains 'p'
  | none => false

namespace Piece

/-- A part of a file in a piece, as `(file_index, file_offset, length)`. -/
structure Segment where
  file_index : Nat
  file_offset : Int
  length : Int
  deriving DecidableEq

/-- The octet `k` of the file `f` lies in the segment. -/
def Segment.Holds (f : Nat) (k : Int) (s : Segment) : Prop :=
  s.file_index = f ∧ s.file_offset ≤ k ∧ k < s.file_offset + s.length

instance (f : Nat) (k : Int) (s : Segment) : Decidable (s.Holds f k) :=
  inferInstanceAs (Decidable (_ ∧ _))

structure PieceToFileMapper where
  piece_to_files : Dict Nat (List Segment) := .empty
  file_to_pieces : Dict Nat (List Nat) := .empty

section Pieces

variable (t : TorrentInfo) (piece_index : Nat)

def pieceStart : Int := piece_index * t.pieceLength

def pieceEnd : Int := min (pieceStart t piece_index + t.pieceLength) t.totalLength

theorem pieceStart_succ : pieceStart t (piece_index + 1) =
    pieceStart t piece_index + t.pieceLength := by
  rw [pieceStart, pieceStart, Int.natCast_add, Int.add_mul, Int.natCast_one, Int.one_mul]

end Pieces

namespace PieceToFileMapper

def fileOffsets : Int → List FileInfo → List Int
  | _, [] => []
  | current_offset, f :: files => current_offset :: fileOffsets (current_offset + f.length) files

/-- What of a file lies in a piece. -/
def overlapSegment (piece_start piece_end : Int) (file_index : Nat) (file_start : Int)
    (file_info : FileInfo) : Option Segment :=
  if file_info.isPadding then none
  else
    let file_end := file_start + file_info.length
    let overlap_start := max piece_start file_start
    let overlap_end := min piece_end file_end
    if overlap_start < overlap_end then
      some ⟨file_index, overlap_start - file_start, overlap_end - overlap_start⟩
    else none

def appendNew (piece_index : Nat) (pieces : List Nat) : List Nat :=
  if piece_index ∈ pieces then pieces else pieces ++ [piece_index]

/-- Appends to the list of a piece, and enters the piece in the list of the file. -/
def record (m : PieceToFileMapper) (piece_index : Nat) (s : Segment) : PieceToFileMapper :=
  let segments := (m.piece_to_files.get? piece_index).getD []
  let pieces := (m.file_to_pieces.get? s.file_index).getD []
  { piece_to_files := m.piece_to_files.set piece_index (segments ++ [s])
    file_to_pieces := m.file_to_pieces.set s.file_index (appendNew piece_index pieces) }

def mapPiece (t : TorrentInfo) (m : PieceToFileMapper) (piece_index : Nat) : PieceToFileMapper :=
  let file_offsets := fileOffsets 0 t.files
  t.files.zipIdx.foldl (fun m (file_info, file_index) =>
    match overlapSegment (pieceStart t piece_index) (pieceEnd t piece_index) file_index
      (file_offsets.getD file_index 0) file_info with
    | some s => m.record piece_index s
    | none => m)
    { m with piece_to_files := m.piece_to_files.set piece_index [] }

/-- `_build_mappings` -/
def ofTorrent (t : TorrentInfo) : PieceToFileMapper :=
  let m := (List.range t.numPieces).foldl (mapPiece t) {}
  { m with file_to_pieces := m.file_to_pieces.mapValues (sortOn id) }

def segments (m : PieceToFileMapper) (piece_index : Nat) : List Segment :=
  (m.piece_to_files.get? piece_index).getD []

def piecesForFile (m : PieceToFileMapper) (file_index : Nat) : List Nat :=
  (m.file_to_pieces.get? file_index).getD []

section Loops

variable {t : TorrentInfo} {m : PieceToFileMapper} {ps pe o : Int} {i j f : Nat} {s : Segment}
  {ss : List Segment} {files : List FileInfo}

/-- The segments of a piece in the files from number `j` and offset `o` on. -/
def segmentsFrom (ps pe : Int) : Nat → Int → List FileInfo → List Segment
  | _, _, [] => []
  | j, o, file :: files =>
    (overlapSegment ps pe j o file).toList ++ segmentsFrom ps pe (j + 1) (o + file.length) files

def segmentsOf (t : TorrentInfo) (piece_index : Nat) : List Segment :=
  segmentsFrom (pieceStart t piece_index) (pieceEnd t piece_index) 0 0 t.files

theorem filterMap_overlapSegment {before : List Int} (h : before.length = j) :
    (files.zipIdx j).filterMap (fun (file, i) =>
      overlapSegment ps pe i ((before ++ fileOffsets o files).getD i 0) file) =
      segmentsFrom ps pe j o files := by
  induction files generalizing j o before with
  | nil => rfl
  | cons file files ih =>
    have hhead : (before ++ fileOffsets o (file :: files)).getD j 0 = o := by
      simp [fileOffsets, List.getD, ← h]
    have htail : before ++ fileOffsets o (file :: files) =
        (before ++ [o]) ++ fileOffsets (o + file.length) files := by
      rw [fileOffsets, List.append_assoc, List.singleton_append]
    have hlength : (before ++ [o]).length = j + 1 := by simp [h]
    have ih' := ih (o := o + file.length) hlength
    rw [List.zipIdx_cons, List.filterMap_cons, segmentsFrom, ← ih', ← htail]
    dsimp only
    rw [hhead]
    cases overlapSegment ps pe j o file <;> rfl

theorem mapPiece_eq : mapPiece t m i = (segmentsOf t i).foldl (fun m s => m.record i s)
    { m with piece_to_files := m.piece_to_files.set i [] } := by
  have hsegments : t.files.zipIdx.filterMap (fun (file, k) => overlapSegment (pieceStart t i)
      (pieceEnd t i) k (([] ++ fileOffsets 0 t.files).getD k 0) file) =
        segmentsFrom (pieceStart t i) (pieceEnd t i) 0 0 t.files := filterMap_overlapSegment rfl
  rw [List.nil_append] at hsegments
  rw [segmentsOf, ← hsegments, List.foldl_filterMap]
  refine List.foldl_ext _ _ _ fun m (file, k) _ => ?_
  dsimp only
  cases overlapSegment (pieceStart t i) (pieceEnd t i) k ((fileOffsets 0 t.files).getD k 0) file <;>
    rfl

theorem segments_record :
    (m.record i s).segments j = if j = i then m.segments i ++ [s] else m.segments j := by
  simp only [segments, record, Dict.get?_set]
  split <;> rfl

theorem piecesForFile_record : (m.record i s).piecesForFile f =
    if f = s.file_index then appendNew i (m.piecesForFile f) else m.piecesForFile f := by
  simp only [piecesForFile, record, Dict.get?_set]
  split
  · next hf => rw [hf, Option.getD_some]
  · rfl

theorem segments_foldl_record :
    (ss.foldl (fun m s => m.record i s) m).segments j =
      if j = i then m.segments i ++ ss else m.segments j := by
  induction ss generalizing m with
  | nil =>
    split
    · next h => rw [List.foldl_nil, List.append_nil, h]
    · rfl
  | cons s ss ih =>
    rw [List.foldl_cons, ih, segments_record, segments_record, if_pos rfl]
    split
    · rw [List.append_assoc, List.singleton_append]
    · rfl

theorem appendNew_appendNew (l : List Nat) : appendNew i (appendNew i l) = appendNew i l := by
  have hmem : i ∈ appendNew i l := by
    unfold appendNew
    split
    · assumption
    · simp
  rw [appendNew, if_pos hmem]

theorem piecesForFile_foldl_record :
    (ss.foldl (fun m s => m.record i s) m).piecesForFile f =
      if f ∈ ss.map Segment.file_index then appendNew i (m.piecesForFile f)
      else m.piecesForFile f := by
  induction ss generalizing m with
  | nil => simp
  | cons s ss ih =>
    rw [List.foldl_cons, ih, piecesForFile_record, List.map_cons]
    by_cases hf : f = s.file_index
    · rw [if_pos hf, if_pos (List.mem_cons.mpr (.inl hf)), appendNew_appendNew, ite_self]
    · rw [if_neg hf]
      simp only [List.mem_cons, hf, false_or]

/-- What the loop has entered after the pieces below `n`. -/
theorem foldl_mapPiece (n : Nat) :
    let m := (List.range n).foldl (mapPiece t) {}
    (∀ i, m.segments i = if i < n then segmentsOf t i else []) ∧
      ∀ f, m.piecesForFile f =
        (List.range n).filter fun i => f ∈ (segmentsOf t i).map Segment.file_index := by
  induction n with
  | zero =>
    constructor
    · intro i
      rfl
    · intro f
      rfl
  | succ n ih =>
    obtain ⟨hsegments, hpieces⟩ := ih
    dsimp only
    rw [List.range_succ, List.foldl_append, List.foldl_cons, List.foldl_nil, mapPiece_eq]
    generalize hm : (List.range n).foldl (mapPiece t) {} = m at hsegments hpieces
    constructor
    · intro i
      rw [segments_foldl_record]
      by_cases hi : i = n
      · have hempty : PieceToFileMapper.segments
            { m with piece_to_files := m.piece_to_files.set n [] } n = [] := by
          rw [segments, Dict.get?_set_self, Option.getD_some]
        rw [if_pos hi, hempty, hi, if_pos n.lt_succ_self, List.nil_append]
      · have hkeep : PieceToFileMapper.segments
            { m with piece_to_files := m.piece_to_files.set n [] } i = m.segments i := by
          rw [segments, Dict.get?_set_ne _ hi, segments]
        rw [if_neg hi, hkeep, hsegments]
        congr 1
        exact propext ⟨fun h => h.trans n.lt_succ_self, fun h => by omega⟩
    · intro f
      rw [piecesForFile_foldl_record, List.filter_append]
      have hkeep : PieceToFileMapper.piecesForFile
          { m with piece_to_files := m.piece_to_files.set n [] } f = m.piecesForFile f := rfl
      have hnot : n ∉ m.piecesForFile f := by
        rw [hpieces]
        simp
      rw [hkeep]
      by_cases hf : f ∈ (segmentsOf t n).map Segment.file_index
      · rw [if_pos hf, appendNew, if_neg hnot, hpieces, List.filter_cons_of_pos (by simpa using hf),
          List.filter_nil]
      · rw [if_neg hf, hpieces, List.filter_cons_of_neg (by simpa using hf), List.filter_nil,
          List.append_nil]

theorem segments_ofTorrent :
    (ofTorrent t).segments i = if i < t.numPieces then segmentsOf t i else [] :=
  (foldl_mapPiece t.numPieces).1 i

/-- The pieces of a file are those with a segment of it, in ascending order. -/
theorem piecesForFile_ofTorrent : (ofTorrent t).piecesForFile f =
    (List.range t.numPieces).filter fun i => f ∈ (segmentsOf t i).map Segment.file_index := by
  have hloop := (foldl_mapPiece (t := t) t.numPieces).2 f
  have hsorted : ((List.range t.numPieces).filter fun i =>
      f ∈ (segmentsOf t i).map Segment.file_index).Pairwise fun i j => id i ≤ id j :=
    (List.pairwise_lt_range.filter _).imp le_of_lt
  rw [← sortOn_eq_self id hsorted, ← hloop]
  simp only [piecesForFile, ofTorrent, Dict.get?_mapValues]
  cases ((List.range t.numPieces).foldl (mapPiece t) {}).file_to_pieces.get? f <;> rfl

end Loops

section Tiling

variable {t : TorrentInfo} {ps pe o k : Int} {i j n : Nat} {s : Segment} {file : FileInfo}
  {files : List FileInfo}

/-- The number of octets before a file. -/
def lengthBefore (files : List FileInfo) (n : Nat) : Int := ((files.take n).map FileInfo.length).sum

/-- The octets of a piece that belong to padding files. -/
def paddingBytes (ps pe o : Int) (files : List FileInfo) : Int :=
  ((files.zip (fileOffsets o files)).map fun (file, start) =>
    if file.isPadding then overlap ps pe start (start + file.length) else 0).sum

/-- What an exact tiling of the files by the pieces is. -/
structure Tiles (t : TorrentInfo) (m : PieceToFileMapper) : Prop where
  /-- Every octet of a file that is no padding lies in exactly one of the segments, -/
  covered : ∀ f file, t.files[f]? = some file → file.isPadding = false →
    ∀ k, 0 ≤ k → k < file.length →
      ((List.range t.numPieces).flatMap m.segments).countP (fun s => s.Holds f k) = 1
  /-- and the segments have no other octets. -/
  within : ∀ i, ∀ s ∈ m.segments i, i < t.numPieces ∧ ∃ file, t.files[s.file_index]? = some file ∧
    file.isPadding = false ∧ 0 ≤ s.file_offset ∧ 0 < s.length ∧
      s.file_offset + s.length ≤ file.length
  filled : ∀ i < t.numPieces, ((m.segments i).map Segment.length).sum +
    paddingBytes (pieceStart t i) (pieceEnd t i) 0 t.files = pieceEnd t i - pieceStart t i
  ordered : ∀ i, (m.segments i).Pairwise fun a b => a.file_index < b.file_index
  inverse : ∀ f, m.piecesForFile f =
    (List.range t.numPieces).filter fun i => f ∈ (m.segments i).map Segment.file_index

theorem overlapSegment_eq_some : overlapSegment ps pe j o file = some s ↔
    file.isPadding = false ∧ max ps o < min pe (o + file.length) ∧
      s = ⟨j, max ps o - o, min pe (o + file.length) - max ps o⟩ := by
  cases hpad : file.isPadding with
  | true => simp [overlapSegment, hpad]
  | false =>
    simp only [overlapSegment, hpad, Bool.false_eq_true, if_false, true_and]
    split
    · next h => simp only [Option.some.injEq, h, true_and, eq_comm]
    · next h => simp only [reduceCtorEq, h, false_and]

theorem lengthBefore_zero : lengthBefore files 0 = 0 := rfl

theorem lengthBefore_succ : lengthBefore (file :: files) (n + 1) =
    file.length + lengthBefore files n := by
  rw [lengthBefore, List.take_succ_cons, List.map_cons, List.sum_cons, lengthBefore]

theorem lengthBefore_succ_of_file (hfile : files[n]? = some file) :
    lengthBefore files (n + 1) = lengthBefore files n + file.length := by
  rw [lengthBefore, lengthBefore, List.take_add_one, hfile, Option.toList_some, List.map_append,
    List.sum_append, List.map_singleton, List.sum_singleton]

theorem mem_segmentsFrom : s ∈ segmentsFrom ps pe j o files ↔
    ∃ n file, files[n]? = some file ∧
      overlapSegment ps pe (j + n) (o + lengthBefore files n) file = some s := by
  induction files generalizing j o with
  | nil => simp [segmentsFrom]
  | cons first files ih =>
    rw [segmentsFrom, List.mem_append, ih, Option.mem_toList]
    constructor
    · rintro (h | ⟨n, file, hfile, h⟩)
      · exact ⟨0, first, rfl, by rwa [lengthBefore_zero, add_zero, add_zero]⟩
      · refine ⟨n + 1, file, hfile, ?_⟩
        rwa [lengthBefore_succ, ← add_assoc o, ← add_assoc j, add_right_comm j]
    · rintro ⟨n, file, hfile, h⟩
      cases n with
      | zero =>
        cases hfile
        rw [lengthBefore_zero, add_zero, add_zero] at h
        exact .inl h
      | succ n =>
        refine .inr ⟨n, file, hfile, ?_⟩
        rwa [lengthBefore_succ, ← add_assoc o, ← add_assoc j, add_right_comm j] at h

theorem le_file_index_of_mem (h : s ∈ segmentsFrom ps pe j o files) : j ≤ s.file_index := by
  obtain ⟨n, file, -, hs⟩ := mem_segmentsFrom.mp h
  obtain ⟨-, -, rfl⟩ := overlapSegment_eq_some.mp hs
  exact Nat.le_add_right j n

theorem pairwise_segmentsFrom :
    (segmentsFrom ps pe j o files).Pairwise fun a b => a.file_index < b.file_index := by
  induction files generalizing j o with
  | nil => exact List.Pairwise.nil
  | cons file files ih =>
    rw [segmentsFrom]
    cases h : overlapSegment ps pe j o file with
    | none => exact ih
    | some s =>
      obtain ⟨-, -, rfl⟩ := overlapSegment_eq_some.mp h
      refine List.pairwise_cons.mpr ⟨fun b hb => ?_, ih⟩
      exact le_file_index_of_mem hb

/-- A file has at most one segment in a piece. -/
theorem filter_segmentsFrom (hfile : files[n]? = some file) :
    (segmentsFrom ps pe j o files).filter (fun s => s.file_index = j + n) =
      (overlapSegment ps pe (j + n) (o + lengthBefore files n) file).toList := by
  induction files generalizing j o n with
  | nil => cases hfile
  | cons first files ih =>
    rw [segmentsFrom, List.filter_append]
    cases n with
    | zero =>
      obtain rfl : first = file := Option.some.inj hfile
      have hhead : (overlapSegment ps pe j o first).toList.filter (fun s => s.file_index = j + 0) =
          (overlapSegment ps pe j o first).toList := by
        rw [List.filter_eq_self]
        intro s hs
        obtain ⟨-, -, rfl⟩ := overlapSegment_eq_some.mp (Option.mem_toList.mp hs)
        exact decide_eq_true rfl
      have hlater : (segmentsFrom ps pe (j + 1) (o + first.length) files).filter
          (fun s => s.file_index = j + 0) = [] := by
        rw [List.filter_eq_nil_iff]
        intro s hs
        have := le_file_index_of_mem hs
        rw [decide_eq_true_eq]
        omega
      rw [hhead, hlater, List.append_nil, lengthBefore_zero, add_zero, add_zero]
    | succ n =>
      have hhead : (overlapSegment ps pe j o first).toList.filter
          (fun s => s.file_index = j + (n + 1)) = [] := by
        rw [List.filter_eq_nil_iff]
        intro s hs
        obtain ⟨-, -, rfl⟩ := overlapSegment_eq_some.mp (Option.mem_toList.mp hs)
        rw [decide_eq_true_eq]
        dsimp only
        omega
      have hrest := ih (j := j + 1) (o := o + first.length) (n := n) hfile
      rw [hhead, List.nil_append, lengthBefore_succ, ← add_assoc o, ← add_assoc j,
        add_right_comm j, hrest]

/-- An octet of a file lies in one segment of a piece if the piece has it, and else in none. -/
theorem countP_segmentsFrom (hfile : files[n]? = some file) (hpad : file.isPadding = false)
    (hk : 0 ≤ k) (hk' : k < file.length) :
    (segmentsFrom ps pe j o files).countP (fun s => s.Holds (j + n) k) =
      if ps ≤ o + lengthBefore files n + k ∧ o + lengthBefore files n + k < pe then 1 else 0 := by
  have hsplit : (segmentsFrom ps pe j o files).countP (fun s => s.Holds (j + n) k) =
      ((segmentsFrom ps pe j o files).filter fun s => s.file_index = j + n).countP
        (fun s => s.Holds (j + n) k) := by
    rw [List.countP_filter]
    refine List.countP_congr fun s _ => ?_
    rw [Bool.and_eq_true, decide_eq_true_eq, decide_eq_true_eq]
    exact ⟨fun h => ⟨h, h.1⟩, And.left⟩
  rw [hsplit, filter_segmentsFrom hfile, overlapSegment, hpad]
  simp only [Bool.false_eq_true, if_false]
  by_cases hmeet :
      max ps (o + lengthBefore files n) < min pe (o + lengthBefore files n + file.length)
  · rw [if_pos hmeet, Option.toList_some, List.countP_singleton]
    refine if_congr ?_ rfl rfl
    rw [decide_eq_true_eq, Segment.Holds]
    dsimp only
    omega
  · rw [if_neg hmeet, Option.toList_none, List.countP_nil, if_neg]
    omega

/-- The length of a file's segment in a piece is what the two share. -/
theorem sum_filter_segmentsFrom (hfile : files[n]? = some file) (hpad : file.isPadding = false) :
    (((segmentsFrom ps pe j o files).filter fun s => s.file_index = j + n).map Segment.length).sum =
      overlap ps pe (o + lengthBefore files n) (o + lengthBefore files n + file.length) := by
  rw [filter_segmentsFrom hfile, overlapSegment, hpad]
  simp only [Bool.false_eq_true, if_false]
  split
  · next h => rw [overlap_of_lt h, Option.toList_some, List.map_singleton, List.sum_singleton]
  · next h => rw [overlap_of_le (not_lt.mp h), Option.toList_none, List.map_nil, List.sum_nil]

/-- Segments and padding make up what the files share with a piece. -/
theorem sum_segmentsFrom : ((segmentsFrom ps pe j o files).map Segment.length).sum +
    paddingBytes ps pe o files = (overlaps ps pe o (files.map FileInfo.length)).sum := by
  induction files generalizing j o with
  | nil => rfl
  | cons file files ih =>
    have ih' := ih (j := j + 1) (o := o + file.length)
    have hfile : ((overlapSegment ps pe j o file).toList.map Segment.length).sum +
        (if file.isPadding then overlap ps pe o (o + file.length) else 0) =
          overlap ps pe o (o + file.length) := by
      cases hpad : file.isPadding with
      | true => simp [overlapSegment, hpad]
      | false =>
        simp only [overlapSegment, hpad, Bool.false_eq_true, if_false, add_zero]
        split
        · next h => rw [overlap_of_lt h, Option.toList_some, List.map_singleton, List.sum_singleton]
        · next h => rw [overlap_of_le (not_lt.mp h), Option.toList_none, List.map_nil, List.sum_nil]
    simp only [paddingBytes, fileOffsets, List.zip_cons_cons, List.map_cons, List.sum_cons,
      segmentsFrom, List.map_append, List.sum_append, overlaps] at ih' hfile ⊢
    omega

theorem sum_map_ite_eq (q : Nat) :
    ((List.range n).map fun i => if i = q then 1 else 0).sum = if q < n then 1 else 0 := by
  induction n with
  | zero => rfl
  | succ n ih =>
    rw [List.range_succ, List.map_append, List.sum_append, ih, List.map_singleton,
      List.sum_singleton]
    split_ifs <;> omega

variable (htotal : t.totalLength = (t.files.map FileInfo.length).sum)
  (hnum : (t.numPieces : Int) = (t.totalLength + t.pieceLength - 1) / t.pieceLength)

include htotal in
theorem lengthBefore_add_le (hfile : t.files[n]? = some file) :
    lengthBefore t.files n + file.length ≤ t.totalLength := by
  have hsplit : (t.files.map FileInfo.length).sum = lengthBefore t.files n +
      (file.length + ((t.files.drop (n + 1)).map FileInfo.length).sum) := by
    obtain ⟨hlt, rfl⟩ := List.getElem?_eq_some_iff.mp hfile
    rw [lengthBefore, ← List.sum_cons, ← List.map_cons, ← List.drop_eq_getElem_cons hlt,
      ← List.sum_append, ← List.map_append, List.take_append_drop]
  have hrest : 0 ≤ ((t.files.drop (n + 1)).map FileInfo.length).sum := by
    apply List.sum_nonneg
    intro x hx
    obtain ⟨f, -, rfl⟩ := List.mem_map.mp hx
    exact f.length_nonneg
  omega

theorem lengthBefore_nonneg (n : Nat) : 0 ≤ lengthBefore t.files n := by
  apply List.sum_nonneg
  intro x hx
  obtain ⟨f, -, rfl⟩ := List.mem_map.mp hx
  exact f.length_nonneg

/-- Each octet of the torrent has its piece. -/
theorem mem_piece_iff {p : Int} (hp : 0 ≤ p) (hp' : p < t.totalLength) :
    (pieceStart t i ≤ p ∧ p < pieceEnd t i) ↔ i = (p / t.pieceLength).toNat := by
  have hpos := t.pieceLength_pos
  have hquot : 0 ≤ p / t.pieceLength := Int.ediv_nonneg hp hpos.le
  have hiff : p / t.pieceLength = i ↔
      pieceStart t i ≤ p ∧ p < pieceStart t i + t.pieceLength :=
    Int.ediv_eq_iff_of_pos hpos
  have hend : p < pieceEnd t i ↔ p < pieceStart t i + t.pieceLength := by
    unfold pieceEnd
    omega
  rw [hend, ← hiff]
  omega

include hnum in
/-- The last piece begins before the end of the torrent. -/
theorem pieceStart_lt (hi : i < t.numPieces) : pieceStart t i < t.totalLength := by
  have hpos := t.pieceLength_pos
  have hle : (i : Int) + 1 ≤ (t.totalLength + t.pieceLength - 1) / t.pieceLength := by omega
  rw [Int.le_ediv_iff_mul_le hpos, add_mul, one_mul] at hle
  unfold pieceStart
  omega

include hnum in
theorem piece_lt {p : Int} (hp : 0 ≤ p) (hp' : p < t.totalLength) :
    (p / t.pieceLength).toNat < t.numPieces := by
  have hpos := t.pieceLength_pos
  have hquot : 0 ≤ p / t.pieceLength := Int.ediv_nonneg hp hpos.le
  have hlt : p / t.pieceLength < (t.totalLength + t.pieceLength - 1) / t.pieceLength := by
    rw [Int.lt_iff_add_one_le, Int.le_ediv_iff_mul_le hpos, add_mul, one_mul]
    have := Int.ediv_mul_le p hpos.ne'
    omega
  omega

include htotal hnum in
theorem countP_segments_ofTorrent {f : Nat} (hfile : t.files[f]? = some file)
    (hpad : file.isPadding = false) (hk : 0 ≤ k) (hk' : k < file.length) :
    ((List.range t.numPieces).flatMap (ofTorrent t).segments).countP
      (fun s => s.Holds f k) = 1 := by
  have hend := lengthBefore_add_le htotal hfile
  have hstart := lengthBefore_nonneg (t := t) f
  have hp : 0 ≤ lengthBefore t.files f + k := by omega
  have hp' : lengthBefore t.files f + k < t.totalLength := by omega
  have hpiece : ∀ i ∈ List.range t.numPieces,
      ((ofTorrent t).segments i).countP (fun s => s.Holds f k) =
        if i = ((lengthBefore t.files f + k) / t.pieceLength).toNat then 1 else 0 := by
    intro i hi
    have hcount : (segmentsFrom (pieceStart t i) (pieceEnd t i) 0 0 t.files).countP
        (fun s => s.Holds (0 + f) k) =
          if pieceStart t i ≤ 0 + lengthBefore t.files f + k ∧
            0 + lengthBefore t.files f + k < pieceEnd t i then 1 else 0 :=
      countP_segmentsFrom hfile hpad hk hk'
    rw [zero_add, zero_add] at hcount
    rw [segments_ofTorrent, if_pos (List.mem_range.mp hi), segmentsOf, hcount]
    exact if_congr (mem_piece_iff hp hp') rfl rfl
  calc ((List.range t.numPieces).flatMap (ofTorrent t).segments).countP (fun s => s.Holds f k)
    _ = ((List.range t.numPieces).map fun i =>
          ((ofTorrent t).segments i).countP (fun s => s.Holds f k)).sum := List.countP_flatMap
    _ = ((List.range t.numPieces).map fun i =>
          if i = ((lengthBefore t.files f + k) / t.pieceLength).toNat then 1 else 0).sum :=
        congrArg List.sum (List.map_congr_left hpiece)
    _ = 1 := by rw [sum_map_ite_eq, if_pos (piece_lt hnum hp hp')]

include htotal hnum in
theorem sum_segments_ofTorrent (hi : i < t.numPieces) :
    (((ofTorrent t).segments i).map Segment.length).sum +
      paddingBytes (pieceStart t i) (pieceEnd t i) 0 t.files = pieceEnd t i - pieceStart t i := by
  have hstart := pieceStart_lt hnum hi
  have hpos := t.pieceLength_pos
  have hlengths : ∀ n ∈ t.files.map FileInfo.length, 0 ≤ n := by
    intro x hx
    obtain ⟨f, -, rfl⟩ := List.mem_map.mp hx
    exact f.length_nonneg
  have hnonneg : 0 ≤ pieceStart t i := by
    unfold pieceStart
    positivity
  have hle : pieceEnd t i ≤ t.totalLength := min_le_right _ _
  have hlt : pieceStart t i < pieceEnd t i := by
    unfold pieceEnd
    omega
  rw [segments_ofTorrent, if_pos hi, segmentsOf, sum_segmentsFrom, sum_overlaps hlengths, ← htotal,
    zero_add]
  exact overlap_inside hnonneg hlt.le hle

theorem within_segments_ofTorrent (hs : s ∈ (ofTorrent t).segments i) :
    i < t.numPieces ∧ ∃ file, t.files[s.file_index]? = some file ∧ file.isPadding = false ∧
      0 ≤ s.file_offset ∧ 0 < s.length ∧ s.file_offset + s.length ≤ file.length := by
  rw [segments_ofTorrent] at hs
  split at hs
  · next hi =>
    obtain ⟨n, file, hfile, h⟩ := mem_segmentsFrom.mp hs
    obtain ⟨hpad, hlt, rfl⟩ := overlapSegment_eq_some.mp h
    rw [zero_add] at hlt ⊢
    refine ⟨hi, file, by rwa [zero_add], hpad, ?_, ?_, ?_⟩ <;> dsimp only <;> omega
  · exact absurd hs List.not_mem_nil

/-- The mapping is an exact tiling when the torrent says its total length and its number of
pieces as they are. -/
theorem tiles_ofTorrent
    (htotal : t.totalLength = (t.files.map FileInfo.length).sum)
    (hnum : (t.numPieces : Int) = (t.totalLength + t.pieceLength - 1) / t.pieceLength) :
    Tiles t (ofTorrent t) where
  covered f file hfile hpad k hk hk' := countP_segments_ofTorrent htotal hnum hfile hpad hk hk'
  within i s hs := within_segments_ofTorrent hs
  filled i hi := sum_segments_ofTorrent htotal hnum hi
  ordered i := by
    rw [segments_ofTorrent]
    split
    · exact pairwise_segmentsFrom
    · exact List.Pairwise.nil
  inverse f := by
    rw [piecesForFile_ofTorrent]
    apply List.filter_congr
    intro i hi
    rw [segments_ofTorrent, if_pos (List.mem_range.mp hi)]

def plainFile (length : Nat) (attributes : Option Str) : FileInfo where
  name := ['f']
  length := length
  path := none
  fullPath := none
  attributes := attributes
  symlinkPath := none
  fileSha1 := none
  length_nonneg := Int.natCast_nonneg length
  sha1_length := Torrent.length_of_no_hash

def plainTorrent (files : List FileInfo) (pieceLength : Nat) (h : 0 < (pieceLength : Int)) :
    TorrentInfo where
  name := ['t']
  infoHash := sha1 []
  announce := []
  announceList := none
  comment := none
  createdBy := none
  creationDate := none
  encoding := none
  isPrivate := false
  files := files
  totalLength := (files.map FileInfo.length).sum
  pieceLength := pieceLength
  pieces := []
  numPieces := (((files.map FileInfo.length).sum + pieceLength - 1) / pieceLength).toNat
  metaVersion := 1
  infoHash_length := sha1_length []
  pieceLength_pos := h

/-- Four files of 5, 3, 0 and 6 octets, the second of them padding, in pieces of 4. -/
def paddedTorrent : TorrentInfo :=
  plainTorrent [plainFile 5 none, plainFile 3 (some ['p']), plainFile 0 none, plainFile 6 none] 4
    (by decide)

theorem tiles_paddedTorrent : Tiles paddedTorrent (ofTorrent paddedTorrent) :=
  tiles_ofTorrent (by decide) (by decide)

example : (ofTorrent paddedTorrent).segments 1 = [⟨0, 4, 1⟩] := by decide

end Tiling

end PieceToFileMapper

end Piece

end Ccbt
