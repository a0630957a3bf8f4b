import Mathlib.Data.List.Perm.Basic
import Ccbt.Piece.FileMapping

/-!
# The segments of an assembler: `AsyncFileAssembler._build_file_segments`

The assembler finds the parts of files in pieces in one pass over the files. A cursor in the
pieces is carried from file to file: it goes on while the piece under it ends inside the file,
and padding files only move the offset. A torrent of one file is cut into its pieces directly.
-/

namespace Ccbt

open Python Torrent Piece Piece.PieceToFileMapper

namespace Storage

structure FileSegment where
  file_path : Str
  start_offset : Int
  end_offset : Int
  piece_index : Nat
  piece_offset : Int
  deriving DecidableEq

def pathJoin (output_dir name : Str) : Str :=
  if name.head? = some '/' then name
  else if output_dir.isEmpty || output_dir.getLast? = some '/' then output_dir ++ name
  else output_dir ++ '/' :: name

def fullPathOrName (f : FileInfo) : Str :=
  match f.fullPath with
  | some path => if path.isEmpty then f.name else path
  | none => f.name

section Build

variable (t : TorrentInfo) (output_dir : Str)

/-- The loop over the pieces of a single file; `n` pieces are left. -/
def singleLoop (file_path : Str) : Nat → Nat → Int → List FileSegment
  | 0, _, _ => []
  | n + 1, piece_index, current_offset =>
    let piece_end :=
      if (piece_index : Int) = t.numPieces - 1 then t.totalLength
      else current_offset + t.pieceLength
    ⟨file_path, current_offset, piece_end, piece_index, 0⟩ ::
      singleLoop file_path n (piece_index + 1) piece_end

/-- The loop over the pieces that meet a file, with the piece it stops at; `n` pieces are
left. -/
def pieceLoop (file_path : Str) (file_start file_end : Int) : Nat → Nat → List FileSegment × Nat
  | 0, current_piece => ([], current_piece)
  | n + 1, current_piece =>
    let piece_start := pieceStart t current_piece
    let piece_end := pieceEnd t current_piece
    let overlap_start := max piece_start file_start
    let overlap_end := min piece_end file_end
    let segments :=
      if overlap_start < overlap_end then
        [⟨file_path, overlap_start - file_start, overlap_end - file_start, current_piece,
          overlap_start - piece_start⟩]
      else []
    -- the piece is not left yet: the next file begins in it or right behind it
    if file_end ≤ piece_end then (segments, current_piece)
    else
      let found := pieceLoop file_path file_start file_end n (current_piece + 1)
      (segments ++ found.1, found.2)

def fileLoop : Int → Nat → List FileInfo → List FileSegment
  | _, _, [] => []
  | current_offset, current_piece, f :: files =>
    let file_end := current_offset + f.length
    -- the cursor stays, also where the padding goes on into later pieces
    if f.isPadding then fileLoop file_end current_piece files
    else
      let found := pieceLoop t (pathJoin output_dir (fullPathOrName f)) current_offset file_end
        (t.numPieces - current_piece) current_piece
      found.1 ++ fileLoop file_end found.2 files

def buildFileSegments : List FileSegment :=
  match t.files with
  | [f] =>
    if f.isPadding then [] else singleLoop t (pathJoin output_dir f.name) t.numPieces 0 0
  | files => fileLoop t output_dir 0 0 files

/-- Where a file is written. -/
def filePath (f : FileInfo) : Str :=
  pathJoin output_dir (if t.files.length = 1 then f.name else fullPathOrName f)

/-- A segment of the mapping, as the assembler has it: the piece offset is where its first
octet lies in the piece. -/
def segmentOf (piece_index : Nat) (s : Segment) : FileSegment where
  file_path := ((t.files[s.file_index]?).map (filePath t output_dir)).getD []
  start_offset := s.file_offset
  end_offset := s.file_offset + s.length
  piece_index := piece_index
  piece_offset := lengthBefore t.files s.file_index + s.file_offset - pieceStart t piece_index

end Build

section Pairs

variable {t : TorrentInfo} {j : Nat} {o : Int} {files : List FileInfo}

def pairsOfFile (t : TorrentInfo) (j : Nat) (o : Int) (f : FileInfo) : List (Nat × Segment) :=
  (List.range t.numPieces).filterMap fun i =>
    (overlapSegment (pieceStart t i) (pieceEnd t i) j o f).map (i, ·)

/-- The parts of the files in the pieces, file by file. -/
def pairsFrom (t : TorrentInfo) : Nat → Int → List FileInfo → List (Nat × Segment)
  | _, _, [] => []
  | j, o, f :: files => pairsOfFile t j o f ++ pairsFrom t (j + 1) (o + f.length) files

/-- The entries of a mapping. -/
def mappedPairs (m : PieceToFileMapper) (num_pieces : Nat) : List (Nat × Segment) :=
  (List.range num_pieces).flatMap fun i => (m.segments i).map (i, ·)

/-- File by file and piece by piece the same parts are found. -/
theorem pairsFrom_perm : (pairsFrom t j o files).Perm ((List.range t.numPieces).flatMap fun i =>
    (segmentsFrom (pieceStart t i) (pieceEnd t i) j o files).map (i, ·)) := by
  induction files generalizing j o with
  | nil => simp [pairsFrom, segmentsFrom]
  | cons f files ih =>
    have hhead : pairsOfFile t j o f = (List.range t.numPieces).flatMap fun i =>
        (overlapSegment (pieceStart t i) (pieceEnd t i) j o f).toList.map (i, ·) := by
      rw [pairsOfFile, List.filterMap_eq_flatMap_toList]
      refine List.flatMap_congr fun i _ => ?_
      cases overlapSegment (pieceStart t i) (pieceEnd t i) j o f <;> rfl
    simp only [pairsFrom, segmentsFrom, List.map_append]
    rw [hhead]
    exact (ih.append_left _).trans (List.flatMap_append_perm _ _ _)

theorem pairsFrom_perm_ofTorrent :
    (pairsFrom t 0 0 t.files).Perm (mappedPairs (ofTorrent t) t.numPieces) := by
  refine pairsFrom_perm.trans (List.Perm.of_eq ?_)
  refine List.flatMap_congr fun i hi => ?_
  rw [segments_ofTorrent, if_pos (List.mem_range.mp hi), segmentsOf]

end Pairs

section Sweep

variable {t : TorrentInfo} {output_dir file_path : Str} {i j c n : Nat} {o file_start : Int}
  {f : FileInfo} {files : List FileInfo}

theorem pieceEnd_le_pieceStart (h : i < j) : pieceEnd t i ≤ pieceStart t j := by
  have hpos := t.pieceLength_pos
  have hij : ((i : Int) + 1) * t.pieceLength ≤ j * t.pieceLength :=
    Int.mul_le_mul_of_nonneg_right (by omega) hpos.le
  rw [add_mul, one_mul] at hij
  unfold pieceEnd pieceStart
  omega

/-- A piece that ends before a file has no part of it. -/
theorem overlapSegment_of_end_le (h : pieceEnd t i ≤ o) :
    overlapSegment (pieceStart t i) (pieceEnd t i) j o f = none := by
  rw [Option.eq_none_iff_forall_ne_some]
  intro s hs
  have hlt := (overlapSegment_eq_some.mp hs).2.1
  omega

/-- A piece that begins after a file has no part of it. -/
theorem overlapSegment_of_le_start (h : o + f.length ≤ pieceStart t i) :
    overlapSegment (pieceStart t i) (pieceEnd t i) j o f = none := by
  rw [Option.eq_none_iff_forall_ne_some]
  intro s hs
  have hlt := (overlapSegment_eq_some.mp hs).2.1
  omega

/-- What the loop appends for the piece under the cursor. -/
theorem overlapSegment_map (hpad : f.isPadding = false)
    (hfile : t.files[j]? = some f) (ho : o = lengthBefore t.files j)
    (hpath : file_path = filePath t output_dir f) :
    ((overlapSegment (pieceStart t c) (pieceEnd t c) j o f).map (c, ·)).toList.map
        (fun p => segmentOf t output_dir p.1 p.2) =
      if max (pieceStart t c) o < min (pieceEnd t c) (o + f.length) then
        [⟨file_path, max (pieceStart t c) o - o, min (pieceEnd t c) (o + f.length) - o, c,
          max (pieceStart t c) o - pieceStart t c⟩]
      else [] := by
  by_cases hlt : max (pieceStart t c) o < min (pieceEnd t c) (o + f.length)
  · rw [if_pos hlt, overlapSegment_eq_some.mpr ⟨hpad, hlt, rfl⟩]
    simp only [Option.map_some, Option.toList_some, List.map_cons, List.map_nil, segmentOf, hfile,
      Option.getD_some, hpath, List.cons.injEq, FileSegment.mk.injEq, true_and, and_true]
    omega
  · have hnone : overlapSegment (pieceStart t c) (pieceEnd t c) j o f = none := by
      rw [Option.eq_none_iff_forall_ne_some]
      exact fun s hs => hlt (overlapSegment_eq_some.mp hs).2.1
    rw [if_neg hlt, hnone]
    rfl

/-- From the cursor on the loop finds all parts of the file, and behind the cursor it leaves only
pieces that end before the end of the file. -/
theorem pieceLoop_spec (hpad : f.isPadding = false) (hfile : t.files[j]? = some f)
    (ho : o = lengthBefore t.files j) (hpath : file_path = filePath t output_dir f)
    (hbehind : ∀ i < c, pieceEnd t i ≤ o + f.length) :
    (pieceLoop t file_path o (o + f.length) n c).1 =
        ((List.range' c n).filterMap fun i =>
          (overlapSegment (pieceStart t i) (pieceEnd t i) j o f).map (i, ·)).map
            (fun p => segmentOf t output_dir p.1 p.2) ∧
      (pieceLoop t file_path o (o + f.length) n c).2 ≤ c + n ∧
      ∀ i < (pieceLoop t file_path o (o + f.length) n c).2, pieceEnd t i ≤ o + f.length := by
  induction n generalizing c with
  | zero => exact ⟨rfl, le_rfl, hbehind⟩
  | succ n ih =>
    have hhead := overlapSegment_map (c := c) hpad hfile ho hpath
    rw [pieceLoop, List.filterMap_eq_flatMap_toList, List.range'_succ, List.flatMap_cons,
      ← List.filterMap_eq_flatMap_toList, List.map_append, hhead]
    by_cases hend : o + f.length ≤ pieceEnd t c
    · -- the pieces that are left begin after the file
      have hrest : (List.range' (c + 1) n).filterMap (fun i =>
          (overlapSegment (pieceStart t i) (pieceEnd t i) j o f).map (i, ·)) = [] := by
        rw [List.filterMap_eq_nil_iff]
        intro i hi
        have hci : c < i := (List.mem_range'_1.mp hi).1
        rw [overlapSegment_of_le_start (hend.trans (pieceEnd_le_pieceStart hci)), Option.map_none]
      dsimp only
      rw [if_pos hend, hrest, List.map_nil, List.append_nil]
      exact ⟨rfl, by omega, hbehind⟩
    · have hbehind' : ∀ i < c + 1, pieceEnd t i ≤ o + f.length := by
        intro i hi
        rcases Nat.lt_succ_iff_lt_or_eq.mp hi with hi | rfl
        · exact hbehind i hi
        · omega
      obtain ⟨hsegments, hle, hcursor⟩ := ih hbehind'
      dsimp only
      rw [if_neg hend]
      exact ⟨by rw [hsegments], by dsimp only; omega, hcursor⟩

/-- From a cursor that is not too far on the parts of the files that are left are found. -/
theorem fileLoop_eq (hfiles : t.files.drop j = files) (ho : o = lengthBefore t.files j)
    (hone : t.files.length ≠ 1) (hc : c ≤ t.numPieces) (hbehind : ∀ i < c, pieceEnd t i ≤ o) :
    fileLoop t output_dir o c files =
      (pairsFrom t j o files).map fun p => segmentOf t output_dir p.1 p.2 := by
  induction files generalizing j o c with
  | nil => rfl
  | cons f files ih =>
    have hlt : j < t.files.length := by
      by_contra hge
      rw [List.drop_eq_nil_of_le (Nat.not_lt.mp hge)] at hfiles
      exact nomatch hfiles
    rw [List.drop_eq_getElem_cons hlt] at hfiles
    obtain ⟨hhead, htail⟩ := List.cons.inj hfiles
    have hfile : t.files[j]? = some f := by rw [List.getElem?_eq_getElem hlt, hhead]
    have hnext : o + f.length = lengthBefore t.files (j + 1) := by
      rw [ho, lengthBefore_succ_of_file hfile]
    have hnonneg := f.length_nonneg
    have hbehind' : ∀ i < c, pieceEnd t i ≤ o + f.length := by
      intro i hi
      have := hbehind i hi
      omega
    rw [fileLoop, pairsFrom, List.map_append]
    dsimp only
    by_cases hpad : f.isPadding = true
    · have hnone : pairsOfFile t j o f = [] := by
        rw [pairsOfFile, List.filterMap_eq_nil_iff]
        intro i _
        rw [overlapSegment, if_pos hpad, Option.map_none]
      rw [if_pos hpad, hnone, List.map_nil, List.nil_append, ih htail hnext hc hbehind']
    · rw [Bool.not_eq_true] at hpad
      have hpath : pathJoin output_dir (fullPathOrName f) = filePath t output_dir f := by
        rw [filePath, if_neg hone]
      obtain ⟨hsegments, hle, hcursor⟩ :=
        pieceLoop_spec (n := t.numPieces - c) hpad hfile ho hpath hbehind'
      have hall : pairsOfFile t j o f = (List.range' c (t.numPieces - c)).filterMap fun i =>
          (overlapSegment (pieceStart t i) (pieceEnd t i) j o f).map (i, ·) := by
        have hsplit : List.range t.numPieces =
            List.range c ++ List.range' c (t.numPieces - c) := by
          have happend := List.range'_append_1 (s := 0) (m := c) (n := t.numPieces - c)
          rw [Nat.zero_add, Nat.add_sub_cancel' hc] at happend
          rw [List.range_eq_range', List.range_eq_range', happend]
        have hbefore : (List.range c).filterMap (fun i =>
            (overlapSegment (pieceStart t i) (pieceEnd t i) j o f).map (i, ·)) = [] := by
          rw [List.filterMap_eq_nil_iff]
          intro i hi
          rw [overlapSegment_of_end_le (hbehind i (List.mem_range.mp hi)), Option.map_none]
        rw [pairsOfFile, hsplit, List.filterMap_append, hbefore, List.nil_append]
      rw [if_neg (by rw [hpad]; exact Bool.false_ne_true), hsegments, hall,
        ih htail hnext (by omega) hcursor]

/-- A single file has one part in each piece, the whole of it. -/
theorem singleLoop_eq (hfiles : t.files = [f]) (hpad : f.isPadding = false)
    (htotal : t.totalLength = (t.files.map FileInfo.length).sum)
    (hnum : (t.numPieces : Int) = (t.totalLength + t.pieceLength - 1) / t.pieceLength)
    (hn : c + n = t.numPieces) (ho : n ≠ 0 → o = pieceStart t c) :
    singleLoop t (filePath t output_dir f) n c o =
      ((List.range' c n).filterMap fun i =>
        (overlapSegment (pieceStart t i) (pieceEnd t i) 0 0 f).map (i, ·)).map
          (fun p => segmentOf t output_dir p.1 p.2) := by
  induction n generalizing c o with
  | zero => rfl
  | succ n ih =>
    have hlength : t.totalLength = f.length := by
      rw [htotal, hfiles, List.map_singleton, List.sum_singleton]
    have hlt : pieceStart t c < t.totalLength := pieceStart_lt hnum (by omega)
    have hpos := t.pieceLength_pos
    have hstart : 0 ≤ pieceStart t c := by
      unfold pieceStart
      positivity
    have hend : (if (c : Int) = t.numPieces - 1 then t.totalLength else o + t.pieceLength) =
        pieceEnd t c := by
      rw [ho (Nat.succ_ne_zero n), pieceEnd]
      split
      · next hlast =>
        have hceil : t.totalLength + t.pieceLength - 1 <
            ((t.totalLength + t.pieceLength - 1) / t.pieceLength + 1) * t.pieceLength :=
          Int.lt_ediv_add_one_mul_self _ hpos
        rw [← hnum, ← sub_add_cancel (t.numPieces : Int) 1, ← hlast, add_mul, add_mul,
          one_mul] at hceil
        unfold pieceStart
        omega
      · next hlast =>
        have hle : pieceStart t (c + 1) < t.totalLength := pieceStart_lt hnum (by omega)
        rw [pieceStart_succ] at hle
        omega
    have hhead := overlapSegment_map (c := c) (o := 0) (j := 0) hpad (by rw [hfiles]; rfl)
      lengthBefore_zero.symm (rfl : filePath t output_dir f = _)
    have hend_le : pieceEnd t c ≤ t.totalLength := min_le_right _ _
    have hend_lt : pieceStart t c < pieceEnd t c := by
      unfold pieceEnd
      omega
    rw [singleLoop, hend, List.filterMap_eq_flatMap_toList, List.range'_succ, List.flatMap_cons,
      ← List.filterMap_eq_flatMap_toList, List.map_append, hhead, if_pos (by omega),
      List.singleton_append, ih (by omega) fun hn => ?_]
    · simp only [List.cons.injEq, FileSegment.mk.injEq, true_and, and_true]
      rw [ho (Nat.succ_ne_zero n)]
      omega
    · have hle : pieceStart t (c + 1) < t.totalLength := pieceStart_lt hnum (by omega)
      rw [pieceStart_succ] at hle ⊢
      unfold pieceEnd
      omega

/-- The segments of a single file that is no padding: it goes by its name, not by its full path. -/
theorem buildFileSegments_of_single (hfiles : t.files = [f]) (hpad : f.isPadding = false) :
    buildFileSegments t output_dir =
      singleLoop t (filePath t output_dir f) t.numPieces 0 0 := by
  have hpath : pathJoin output_dir f.name = filePath t output_dir f := by
    rw [filePath, hfiles, List.length_singleton, if_pos rfl]
  rw [buildFileSegments, hfiles]
  dsimp only
  rw [if_neg (by rw [hpad]; exact Bool.false_ne_true), hpath]

theorem buildFileSegments_of_padding (hfiles : t.files = [f]) (hpad : f.isPadding = true) :
    buildFileSegments t output_dir = [] := by
  rw [buildFileSegments, hfiles]
  exact if_pos hpad

/-- The segments of several files, file by file. -/
theorem buildFileSegments_of_many (hone : t.files.length ≠ 1) : buildFileSegments t output_dir =
    (pairsFrom t 0 0 t.files).map fun p => segmentOf t output_dir p.1 p.2 := by
  rw [buildFileSegments]
  split
  · next f hfiles => exact absurd (by rw [hfiles, List.length_singleton]) hone
  · exact fileLoop_eq rfl lengthBefore_zero.symm hone (Nat.zero_le _)
      fun i hi => absurd hi (Nat.not_lt_zero i)

variable (htotal : t.totalLength = (t.files.map FileInfo.length).sum)
  (hnum : (t.numPieces : Int) = (t.totalLength + t.pieceLength - 1) / t.pieceLength)

include htotal hnum in
theorem buildFileSegments_eq : buildFileSegments t output_dir =
    (pairsFrom t 0 0 t.files).map fun p => segmentOf t output_dir p.1 p.2 := by
  by_cases hone : t.files.length = 1
  · obtain ⟨f, hfiles⟩ := List.length_eq_one_iff.mp hone
    rw [hfiles, pairsFrom, pairsFrom, List.append_nil, pairsOfFile]
    by_cases hpad : f.isPadding = true
    · have hnone : (List.range t.numPieces).filterMap (fun i =>
          (overlapSegment (pieceStart t i) (pieceEnd t i) 0 0 f).map (i, ·)) = [] := by
        rw [List.filterMap_eq_nil_iff]
        intro i _
        rw [overlapSegment, if_pos hpad, Option.map_none]
      rw [buildFileSegments_of_padding hfiles hpad, hnone, List.map_nil]
    · rw [Bool.not_eq_true] at hpad
      rw [buildFileSegments_of_single hfiles hpad, singleLoop_eq hfiles hpad htotal hnum
        (Nat.zero_add _) fun _ => by rw [pieceStart, Int.natCast_zero, Int.zero_mul],
        List.range_eq_range']
  · exact buildFileSegments_of_many hone

include htotal hnum in
/-- The segments of the assembler are the entries of the mapping, each once, file by file instead
of piece by piece, and each with the position of its first octet in its piece. -/
theorem buildFileSegments_agree : ∃ pairs : List (Nat × Segment),
    pairs.Perm (mappedPairs (ofTorrent t) t.numPieces) ∧
      buildFileSegments t output_dir = pairs.map fun p => segmentOf t output_dir p.1 p.2 :=
  ⟨pairsFrom t 0 0 t.files, pairsFrom_perm_ofTorrent, buildFileSegments_eq htotal hnum⟩

/-- Four files of 5, 3, 0 and 6 octets, the second of them padding, in pieces of 4. -/
theorem buildFileSegments_paddedTorrent : ∃ pairs : List (Nat × Segment),
    pairs.Perm (mappedPairs (ofTorrent paddedTorrent) paddedTorrent.numPieces) ∧
      buildFileSegments paddedTorrent "out".toList =
        pairs.map fun p => segmentOf paddedTorrent "out".toList p.1 p.2 :=
  buildFileSegments_agree (by decide) (by decide)

end Sweep

end Storage

end Ccbt
