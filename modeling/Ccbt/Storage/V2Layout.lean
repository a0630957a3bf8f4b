import Ccbt.Core.TorrentV2.PieceCount
import Ccbt.Piece.V2PieceHash
import Ccbt.Storage.FileAssembler

/-!
# Where the pieces of a v2 torrent are stored

The pieces of a v2 torrent are cut from its files one by one, so a piece never goes on into the
next file. The assembler and the piece manager lay the files out one behind the other and cut
the whole. Both are the same only if all files but the last are made of full pieces.
-/

namespace Ccbt

open Python Torrent TorrentV2 Piece Piece.PieceToFileMapper PositionalWrite

namespace Storage

section Numbering

variable (t : TorrentInfo)

def filePieces (f : FileInfo) : Nat := expectedNumPieces f.length t.pieceLength

def firstPiece (k : Nat) : Nat := ((t.files.take k).map (filePieces t)).sum

def numFilePieces : Nat := (t.files.map (filePieces t)).sum

variable {t} {f : FileInfo} {i j k m : Nat}

theorem lt_filePieces_iff : j < filePieces t f ↔ (j : Int) * t.pieceLength < f.length := by
  have hpos := t.pieceLength_pos
  have hle : (j : Int) + 1 ≤ (f.length + t.pieceLength - 1) / t.pieceLength ↔
      ((j : Int) + 1) * t.pieceLength ≤ f.length + t.pieceLength - 1 :=
    Int.le_ediv_iff_mul_le hpos
  rw [add_mul, one_mul] at hle
  rw [filePieces, expectedNumPieces, Int.lt_toNat]
  omega

/-- A file of full pieces. -/
theorem length_eq_of_dvd (h : t.pieceLength ∣ f.length) :
    f.length = filePieces t f * t.pieceLength := by
  have hpos := t.pieceLength_pos
  have hnonneg := f.length_nonneg
  obtain ⟨q, hq⟩ := h
  have hdiv : (f.length + t.pieceLength - 1) / t.pieceLength = q := by
    have hsplit : f.length + t.pieceLength - 1 = t.pieceLength - 1 + t.pieceLength * q := by omega
    rw [hsplit, Int.add_mul_ediv_left _ _ (by omega), Int.ediv_eq_zero_of_lt (by omega) (by omega),
      zero_add]
  have hq0 : 0 ≤ q := by
    rw [← hdiv]
    exact Int.ediv_nonneg (by omega) (by omega)
  rw [filePieces, expectedNumPieces, hdiv, Int.toNat_of_nonneg hq0, hq, mul_comm]

theorem firstPiece_succ (hfile : t.files[k]? = some f) :
    firstPiece t (k + 1) = firstPiece t k + filePieces t f := by
  rw [firstPiece, firstPiece, List.take_add_one, hfile, Option.toList_some, List.map_append,
    List.sum_append, List.map_singleton, List.sum_singleton]

theorem firstPiece_mono (h : k ≤ m) : firstPiece t k ≤ firstPiece t m := by
  obtain ⟨d, rfl⟩ := Nat.exists_eq_add_of_le h
  rw [firstPiece, firstPiece, List.take_add, List.map_append, List.sum_append]
  exact Nat.le_add_right _ _

theorem firstPiece_le (k : Nat) : firstPiece t k ≤ numFilePieces t := by
  have hle : firstPiece t (min k t.files.length) ≤ firstPiece t t.files.length :=
    firstPiece_mono (min_le_right _ _)
  rw [firstPiece, firstPiece, List.take_length, ← List.take_eq_take_min] at hle
  exact hle

/-- The pieces of a file are pieces of the torrent. -/
theorem firstPiece_add_lt (hfile : t.files[k]? = some f) (hj : j < filePieces t f) :
    firstPiece t k + j < numFilePieces t := by
  have hle := firstPiece_le (t := t) (k + 1)
  rw [firstPiece_succ hfile] at hle
  omega

/-- A piece of a later file is behind those of the file. -/
theorem firstPiece_add_le (hfile : t.files[k]? = some f) (h : k < m) :
    firstPiece t k + filePieces t f ≤ firstPiece t m := by
  rw [← firstPiece_succ hfile]
  exact firstPiece_mono h

end Numbering

section Segments

variable {t : TorrentInfo} {output_dir : Str} {f : FileInfo} {i j k m : Nat}

/-- The part of a file that a piece of it was hashed from, for the segments of piece `i`. -/
def hashedRange (t : TorrentInfo) (output_dir : Str) (f : FileInfo) (i j : Nat) : FileSegment where
  file_path := filePath t output_dir f
  start_offset := j * t.pieceLength
  end_offset := min ((j + 1) * t.pieceLength) f.length
  piece_index := i
  piece_offset := 0

/-- The files in front of the last one are made of full pieces. -/
def FullPieces (t : TorrentInfo) : Prop :=
  ∀ k f, t.files[k]? = some f → k + 1 < t.files.length → t.pieceLength ∣ f.length

/-- Then the files begin where their pieces do. -/
theorem FullPieces.lengthBefore_eq (h : FullPieces t) (hk : k < t.files.length) :
    lengthBefore t.files k = firstPiece t k * t.pieceLength := by
  induction k with
  | zero => rw [lengthBefore_zero, firstPiece, List.take_zero, List.map_nil, List.sum_nil,
      Nat.cast_zero, zero_mul]
  | succ k ih =>
    have hfile : t.files[k]? = some t.files[k] := List.getElem?_eq_getElem (by omega)
    rw [lengthBefore_succ_of_file hfile, firstPiece_succ hfile, ih (by omega), Nat.cast_add,
      add_mul, ← length_eq_of_dvd (h k _ hfile hk)]

theorem FullPieces.pieceStart_eq (h : FullPieces t) (hfile : t.files[k]? = some f) :
    pieceStart t (firstPiece t k + j) = lengthBefore t.files k + j * t.pieceLength := by
  rw [h.lengthBefore_eq (List.getElem?_eq_some_iff.mp hfile).1, pieceStart, Nat.cast_add, add_mul]

/-- A piece of a file meets no other file. -/
theorem FullPieces.eq_of_meets (h : FullPieces t) (hfile : t.files[k]? = some f)
    (hj : j < filePieces t f) {g : FileInfo} (hg : t.files[m]? = some g)
    (hmeet : max (pieceStart t (firstPiece t k + j)) (lengthBefore t.files m) <
      min (pieceEnd t (firstPiece t k + j)) (lengthBefore t.files m + g.length)) : m = k := by
  have hpos := t.pieceLength_pos
  have hstart := h.pieceStart_eq (j := j) hfile
  have hend : pieceEnd t (firstPiece t k + j) ≤
    pieceStart t (firstPiece t k + j) + t.pieceLength := min_le_left _ _
  have hfront : 0 ≤ (j : Int) * t.pieceLength := by positivity
  rcases lt_trichotomy m k with hlt | heq | hgt
  · have hle := lengthBefore_add_le_of_lt hg hlt
    omega
  · exact heq
  · -- the file is not the last one, so its last piece is full
    have hm := (List.getElem?_eq_some_iff.mp hg).1
    have hfull := length_eq_of_dvd (h k f hfile (by omega))
    have hle := lengthBefore_add_le_of_lt hfile hgt
    have hlast : ((j : Int) + 1) * t.pieceLength ≤ filePieces t f * t.pieceLength :=
      Int.mul_le_mul_of_nonneg_right (by omega) hpos.le
    rw [add_mul, one_mul] at hlast
    omega

variable (htotal : t.totalLength = (t.files.map FileInfo.length).sum)

include htotal in
/-- What the pieces meet of the files. -/
theorem FullPieces.segmentsOf_eq (h : FullPieces t) (hpad : ∀ f ∈ t.files, f.isPadding = false)
    (hfile : t.files[k]? = some f) (hj : j < filePieces t f) :
    segmentsOf t (firstPiece t k + j) = [⟨k, j * t.pieceLength,
      min ((j + 1) * t.pieceLength) f.length - j * t.pieceLength⟩] := by
  have hpos := t.pieceLength_pos
  have hstart := h.pieceStart_eq (j := j) hfile
  have hlt := lt_filePieces_iff.mp hj
  have hend := lengthBefore_add_le htotal hfile
  have hfront : 0 ≤ (j : Int) * t.pieceLength := by positivity
  have hall : (segmentsOf t (firstPiece t k + j)).filter (fun s => s.file_index = 0 + k) =
      segmentsOf t (firstPiece t k + j) := by
    rw [List.filter_eq_self]
    intro s hs
    obtain ⟨m, g, hg, hsegment⟩ := mem_segmentsFrom.mp hs
    obtain ⟨-, hmeet, rfl⟩ := overlapSegment_eq_some.mp hsegment
    rw [zero_add] at hmeet
    rw [decide_eq_true_eq, h.eq_of_meets hfile hj hg hmeet]
  rw [← hall, segmentsOf, filter_segmentsFrom hfile, zero_add, zero_add,
    Option.toList_eq_singleton_iff, overlapSegment_eq_some]
  refine ⟨hpad f (List.mem_of_getElem? hfile), ?_, ?_⟩
  · unfold pieceEnd
    omega
  · rw [Segment.mk.injEq]
    unfold pieceEnd
    rw [add_mul, one_mul]
    omega

end Segments

section Pieces

variable {t : TorrentInfo} {output_dir file_path : Str} {f : FileInfo} {files : List FileInfo}
  {c i j k n : Nat} {o : Int}

theorem filterMap_range_eq {α : Type} (r : Option α) (hi : i < n) :
    ((List.range n).filterMap fun k => if k = i then r else none) = r.toList := by
  have hnone (l : List Nat) (hl : i ∉ l) :
      (l.filterMap fun k => if k = i then r else none) = [] := by
    rw [List.filterMap_eq_nil_iff]
    intro k hk
    rw [if_neg]
    rintro rfl
    exact hl hk
  induction n with
  | zero => exact absurd hi (Nat.not_lt_zero i)
  | succ n ih =>
    rw [List.range_succ, List.filterMap_append]
    by_cases hin : i < n
    · rw [ih hin, hnone [n] (by simp; omega), List.append_nil]
    · obtain rfl : i = n := by omega
      rw [hnone _ (by simp), List.nil_append]
      cases r <;> simp

/-- Of the parts of the files those in one piece. -/
theorem filter_pairsFrom (hi : i < t.numPieces) :
    (pairsFrom t j o files).filter (fun p => p.1 = i) =
      (segmentsFrom (pieceStart t i) (pieceEnd t i) j o files).map (i, ·) := by
  induction files generalizing j o with
  | nil => rfl
  | cons f files ih =>
    have hhead : (pairsOfFile t j o f).filter (fun p => p.1 = i) =
        (overlapSegment (pieceStart t i) (pieceEnd t i) j o f).toList.map (i, ·) := by
      have hpoint : (fun k => ((overlapSegment (pieceStart t k) (pieceEnd t k) j o f).map
          (k, ·)).filter fun p => decide (p.1 = i)) = fun k => if k = i then
            (overlapSegment (pieceStart t i) (pieceEnd t i) j o f).map (i, ·) else none := by
        funext k
        split
        · next hk =>
          rw [hk]
          cases overlapSegment (pieceStart t i) (pieceEnd t i) j o f <;> simp
        · next hk =>
          cases overlapSegment (pieceStart t k) (pieceEnd t k) j o f <;> simp [hk]
      rw [pairsOfFile, List.filter_filterMap, hpoint, filterMap_range_eq _ hi]
      cases overlapSegment (pieceStart t i) (pieceEnd t i) j o f <;> rfl
    rw [pairsFrom, List.filter_append, hhead, ih, segmentsFrom, List.map_append]

/-- Of several files a piece has the parts that it meets. -/
theorem pieceSegments_of_many (hone : t.files.length ≠ 1) (hi : i < t.numPieces) :
    pieceSegments t output_dir i = (segmentsOf t i).map (segmentOf t output_dir i) := by
  rw [pieceSegments, buildFileSegments_of_many hone, List.filter_map]
  have hindex : (fun seg : FileSegment => decide (seg.piece_index = i)) ∘
      (fun p : Nat × Segment => segmentOf t output_dir p.1 p.2) = fun p => decide (p.1 = i) := rfl
  rw [hindex, filter_pairsFrom hi, List.map_map, segmentsOf]
  rfl

theorem le_piece_index_of_mem {seg : FileSegment} (h : seg ∈ singleLoop t file_path n c o) :
    c ≤ seg.piece_index := by
  induction n generalizing c o with
  | zero => exact absurd h List.not_mem_nil
  | succ n ih =>
    rw [singleLoop] at h
    rcases List.mem_cons.mp h with rfl | h
    · exact le_rfl
    · have := ih h
      omega

theorem filter_singleLoop (hn : c + n = t.numPieces) (hc : c ≤ i) (hi : i < t.numPieces) :
    (singleLoop t file_path n c (pieceStart t c)).filter (fun seg => seg.piece_index = i) =
      [⟨file_path, pieceStart t i, if i + 1 = t.numPieces then t.totalLength
        else pieceStart t i + t.pieceLength, i, 0⟩] := by
  induction n generalizing c with
  | zero => omega
  | succ n ih =>
    rw [singleLoop]
    by_cases hic : c = i
    · have hrest (o : Int) : (singleLoop t file_path n (c + 1) o).filter
          (fun seg => seg.piece_index = i) = [] := by
        rw [List.filter_eq_nil_iff]
        intro seg hseg
        have := le_piece_index_of_mem hseg
        rw [decide_eq_true_eq]
        omega
      rw [List.filter_cons_of_pos (by simpa using hic), hrest, hic]
      have hlast : ((i : Int) = t.numPieces - 1) ↔ i + 1 = t.numPieces := by omega
      simp only [hlast]
    · rw [List.filter_cons_of_neg (by simpa using hic), if_neg (by omega), ← pieceStart_succ]
      exact ih (by omega) (by omega)

/-- A single file is cut like the torrent. -/
theorem pieceSegments_of_single (hfiles : t.files = [f]) (hpad : f.isPadding = false)
    (hi : i < t.numPieces) : pieceSegments t output_dir i =
      [⟨filePath t output_dir f, pieceStart t i, if i + 1 = t.numPieces then t.totalLength
        else pieceStart t i + t.pieceLength, i, 0⟩] := by
  have hbuild : buildFileSegments t output_dir =
      singleLoop t (filePath t output_dir f) t.numPieces 0 (pieceStart t 0) := by
    rw [buildFileSegments_of_single hfiles hpad, pieceStart, Nat.cast_zero, zero_mul]
  rw [pieceSegments, hbuild]
  exact filter_singleLoop (Nat.zero_add _) (Nat.zero_le _) hi

end Pieces

section Stored

variable (t : TorrentInfo) (output_dir : Str)

/-- The data of a piece, for the contents of the files in their order. -/
def pieceOfFiles (contents : List Bytes) (piece_index : Nat) : Bytes :=
  (contents.flatMap (pieces t.pieceLength.toNat))[piece_index]?.getD []

/-- When all pieces of the files have been written, in whatever order, the files are there. -/
def ReproducesFiles : Prop :=
  ∀ contents : List Bytes,
    contents.map (fun content => (content.length : Int)) = t.files.map FileInfo.length →
    ∀ order : List Nat, (∀ i, i ∈ order ↔ i < numFilePieces t) →
      ∀ (k : Nat) (f : FileInfo) (content : Bytes), t.files[k]? = some f →
        contents[k]? = some content →
          (writePieces t output_dir (pieceOfFiles t contents) order).disk
            (purePath (filePath t output_dir f)) = some content

/-- Each piece has one segment, the part of the file that it is. -/
def SegmentsHashed : Prop :=
  ∀ k f, t.files[k]? = some f → ∀ j < filePieces t f,
    pieceSegments t output_dir (firstPiece t k + j) =
      [hashedRange t output_dir f (firstPiece t k + j) j]

/-- The piece manager has each piece with the length of this part. -/
def LengthsHashed (m : AsyncPieceManager) : Prop :=
  ∀ k f, t.files[k]? = some f → ∀ j < filePieces t f,
    (m.pieces[firstPiece t k + j]?).map (fun piece => (piece.length : Int)) =
      some (min ((j + 1) * t.pieceLength) f.length - j * t.pieceLength)

/-- The pieces are stored where they were hashed. -/
structure StoredWhereHashed (m : AsyncPieceManager) : Prop where
  segments : SegmentsHashed t output_dir
  lengths : LengthsHashed t m
  reproduces : ReproducesFiles t output_dir

/-- No two files have one path. -/
def PathsApart : Prop :=
  ∀ (k : Nat) f (k' : Nat) f', t.files[k]? = some f → t.files[k']? = some f' →
    purePath (filePath t output_dir f) = purePath (filePath t output_dir f') → k = k'

/-- The files are made of full pieces, but the last one need not be if there are no hashes of
other pieces; none is empty, and each has its own path. -/
structure FilesFillPieces (v2 : TorrentV2Info) : Prop where
  full : ∀ k f, t.files[k]? = some f → t.pieceLength ∣ f.length ∨
    (k + 1 = t.files.length ∧ ∀ e ∈ v2.otherLayers, e.2.pieces = [])
  nonempty : ∀ f ∈ t.files, 0 < f.length
  apart : PathsApart t output_dir

end Stored

section Ranges

variable {t : TorrentInfo} {output_dir : Str} {f : FileInfo} {i j k : Nat}

theorem numFilePieces_eq : numFilePieces t = firstPiece t t.files.length := by
  rw [numFilePieces, firstPiece, List.take_length]

/-- Every piece of the files is one of a file. -/
theorem exists_file_of_lt (hi : i < numFilePieces t) :
    ∃ k f j, t.files[k]? = some f ∧ j < filePieces t f ∧ i = firstPiece t k + j := by
  have hfront (n : Nat) (hn : n ≤ t.files.length) (hi : i < firstPiece t n) :
      ∃ k f j, t.files[k]? = some f ∧ j < filePieces t f ∧ i = firstPiece t k + j := by
    induction n with
    | zero => exact absurd hi (Nat.not_lt_zero i)
    | succ n ih =>
      have hfile : t.files[n]? = some t.files[n] := List.getElem?_eq_getElem (by omega)
      by_cases hlt : i < firstPiece t n
      · exact ih (by omega) hlt
      · rw [firstPiece_succ hfile] at hi
        exact ⟨n, t.files[n], i - firstPiece t n, hfile, by omega, by omega⟩
  exact hfront _ le_rfl (numFilePieces_eq ▸ hi)

/-- A piece that is not the last of its file is full. -/
theorem add_one_mul_lt (h : j + 1 < filePieces t f) :
    ((j : Int) + 1) * t.pieceLength < f.length := by
  have := lt_filePieces_iff.mp h
  rwa [Nat.cast_add, Nat.cast_one] at this

/-- The last piece of a file reaches its end. -/
theorem length_le_add_one_mul (h : j + 1 = filePieces t f) :
    f.length ≤ ((j : Int) + 1) * t.pieceLength := by
  have := mt lt_filePieces_iff.mpr (lt_irrefl (filePieces t f))
  rwa [← h, not_lt, Nat.cast_add, Nat.cast_one] at this

theorem add_one_mul_le_of_dvd (hj : j < filePieces t f) (h : t.pieceLength ∣ f.length) :
    ((j : Int) + 1) * t.pieceLength ≤ f.length := by
  rw [length_eq_of_dvd h]
  exact Int.mul_le_mul_of_nonneg_right (by omega) t.pieceLength_pos.le

/-- A file that is not empty has a piece. -/
theorem filePieces_pos (h : 0 < f.length) : 0 < filePieces t f := by
  rw [lt_filePieces_iff, Nat.cast_zero, zero_mul]
  exact h

/-- If no file is empty, the last piece of the files is that of the last file. -/
theorem last_of_firstPiece_add (hnonempty : ∀ f ∈ t.files, 0 < f.length)
    (hfile : t.files[k]? = some f) (hj : j < filePieces t f)
    (hlast : firstPiece t k + j + 1 = numFilePieces t) :
    k + 1 = t.files.length ∧ j + 1 = filePieces t f := by
  have hk := (List.getElem?_eq_some_iff.mp hfile).1
  have hle := firstPiece_le (t := t) (k + 1)
  rw [firstPiece_succ hfile] at hle
  refine ⟨?_, by omega⟩
  by_contra hne
  have hnext : t.files[k + 1]? = some t.files[k + 1] := List.getElem?_eq_getElem (by omega)
  have hpos := filePieces_pos (t := t) (hnonempty _ (List.mem_of_getElem? hnext))
  have := firstPiece_add_lt hnext hpos
  rw [firstPiece_succ hfile] at this
  omega

end Ranges

section Match

variable {t : TorrentInfo} {output_dir : Str} {f : FileInfo} {i j k : Nat}

/-- Every file is made of full pieces, but the last one need not be if it has the last piece. -/
def FitsPieces (t : TorrentInfo) : Prop :=
  ∀ k f, t.files[k]? = some f → t.pieceLength ∣ f.length ∨
    (k + 1 = t.files.length ∧ t.numPieces = numFilePieces t)

theorem FitsPieces.fullPieces (h : FitsPieces t) : FullPieces t := by
  intro k f hfile hk
  rcases h k f hfile with hdvd | ⟨hlast, -⟩
  · exact hdvd
  · omega

/-- All pieces but the last one of the torrent are full. -/
theorem FitsPieces.add_one_mul_le (h : FitsPieces t) (hfile : t.files[k]? = some f)
    (hj : j < filePieces t f) (hi : firstPiece t k + j + 1 ≠ t.numPieces) :
    ((j : Int) + 1) * t.pieceLength ≤ f.length := by
  rcases h k f hfile with hdvd | ⟨hlast, hnum⟩
  · exact add_one_mul_le_of_dvd hj hdvd
  · rw [hnum, numFilePieces_eq, ← hlast, firstPiece_succ hfile] at hi
    exact (add_one_mul_lt (by omega)).le

variable (htotal : t.totalLength = (t.files.map FileInfo.length).sum)
  (hnum : numFilePieces t ≤ t.numPieces) (hpad : ∀ f ∈ t.files, f.isPadding = false)

include htotal hnum hpad in
/-- The assembler has for each piece the part of the file that it was hashed from. -/
theorem FitsPieces.segmentsHashed (h : FitsPieces t) : SegmentsHashed t output_dir := by
  intro k f hfile j hj
  have hi := firstPiece_add_lt hfile hj
  by_cases hone : t.files.length = 1
  · obtain ⟨g, hg⟩ := List.length_eq_one_iff.mp hone
    have hk : k = 0 := by
      have := (List.getElem?_eq_some_iff.mp hfile).1
      omega
    rw [hk, hg] at hfile
    obtain rfl : g = f := Option.some.inj hfile
    have hfirst : firstPiece t 0 = 0 := rfl
    have hlength : t.totalLength = g.length := by
      rw [htotal, hg, List.map_singleton, List.sum_singleton]
    have hfile : t.files[0]? = some g := by rw [hg]; rfl
    rw [hk, hfirst, Nat.zero_add] at hi ⊢
    rw [pieceSegments_of_single hg (hpad g (List.mem_of_getElem? hfile)) (by omega), hashedRange]
    have hend : (if j + 1 = t.numPieces then t.totalLength else pieceStart t j + t.pieceLength) =
        min (((j : Int) + 1) * t.pieceLength) g.length := by
      split
      · next hlast =>
        have hle := firstPiece_le (t := t) 1
        rw [firstPiece_succ hfile, hfirst, Nat.zero_add] at hle
        rw [hlength, min_eq_right (length_le_add_one_mul (by omega))]
      · next hlast =>
        have hle := h.add_one_mul_le hfile hj (by rwa [hfirst, Nat.zero_add])
        rw [min_eq_left hle, pieceStart, add_mul, one_mul]
    rw [hend, pieceStart]
  · have hstart := h.fullPieces.pieceStart_eq (j := j) hfile
    rw [pieceSegments_of_many hone (by omega), h.fullPieces.segmentsOf_eq htotal hpad hfile hj,
      List.map_singleton, segmentOf, hashedRange]
    simp only [hfile, Option.map_some, Option.getD_some, hstart, add_sub_cancel, sub_self]

end Match

section Lengths

variable {config : Piece.Config} {fm : Option FileSelectionManager} {v2 : TorrentV2Info}
  {t : TorrentInfo} {f : FileInfo} {i j k : Nat}

variable (config fm) in
theorem length_new_piece {td : TorrentData} (hi : i < td.num_pieces) :
    ((AsyncPieceManager.new config td fm).pieces[i]?).map Piece.PieceData.length =
      some (AsyncPieceManager.initialLength td i) := by
  rw [AsyncPieceManager.new]
  dsimp only
  rw [List.getElem?_map, List.getElem?_range hi]
  rfl

/-- The fields that the manager and the assembler read are those of one parsed torrent. -/
structure SameLayout (v2 : TorrentV2Info) (t : TorrentInfo) : Prop where
  totalLength : t.totalLength = v2.totalLength
  pieceLength : t.pieceLength = v2.pieceLength
  numPieces : t.numPieces = v2.numPieces

/-- The manager takes all pieces but the last for full. -/
theorem SameLayout.initialLength_eq (h : SameLayout v2 t) (htotal : 0 ≤ t.totalLength) :
    (AsyncPieceManager.initialLength (normalizeTorrentData v2 false) i : Int) =
      if i + 1 = t.numPieces ∧ pieceStart t i < t.totalLength then
        t.totalLength - pieceStart t i
      else t.pieceLength := by
  have hpos := t.pieceLength_pos
  have hcast : ((t.pieceLength.toNat : Nat) : Int) = t.pieceLength := Int.toNat_of_nonneg hpos.le
  have hmul : ((i * t.pieceLength.toNat : Nat) : Int) = pieceStart t i := by
    rw [Nat.cast_mul, hcast, pieceStart]
  simp only [AsyncPieceManager.initialLength, normalizeTorrentData, ← h.totalLength,
    ← h.pieceLength, ← h.numPieces]
  by_cases hlast : i + 1 = t.numPieces
  · by_cases hlt : pieceStart t i < t.totalLength
    · have hrest : t.totalLength.toNat - i * t.pieceLength.toNat ≠ 0 := by omega
      rw [if_pos hlast, if_neg hrest, if_pos ⟨hlast, hlt⟩]
      omega
    · have hrest : t.totalLength.toNat - i * t.pieceLength.toNat = 0 := by omega
      rw [if_pos hlast, if_pos hrest, if_neg fun h => hlt h.2, hcast]
  · rw [if_neg hlast, if_neg fun h => hlast h.1, hcast]

variable (htotal : t.totalLength = (t.files.map FileInfo.length).sum)
  (hnum : numFilePieces t ≤ t.numPieces)

variable (config fm) in
include htotal hnum in
theorem SameLayout.length_piece (h : SameLayout v2 t) (hfile : t.files[k]? = some f)
    (hj : j < filePieces t f) :
    ((AsyncPieceManager.new config (normalizeTorrentData v2 false) fm).pieces[
      firstPiece t k + j]?).map (fun piece => (piece.length : Int)) =
        some (if firstPiece t k + j + 1 = t.numPieces ∧
          pieceStart t (firstPiece t k + j) < t.totalLength then
            t.totalLength - pieceStart t (firstPiece t k + j) else t.pieceLength) := by
  have hi : firstPiece t k + j < (normalizeTorrentData v2 false).num_pieces :=
    ((firstPiece_add_lt hfile hj).trans_le hnum).trans_eq h.numPieces
  have hlength := length_new_piece config fm hi
  have hcast := congrArg (Option.map (fun n : Nat => (n : Int))) hlength
  rw [Option.map_map, Option.map_some, h.initialLength_eq (total_nonneg htotal)] at hcast
  exact hcast

include htotal hnum in
/-- The lengths of the manager are those of the parts that were hashed. -/
theorem FitsPieces.lengthsHashed (h : FitsPieces t) (hsame : SameLayout v2 t)
    (hnonempty : ∀ f ∈ t.files, 0 < f.length) :
    LengthsHashed t (.new config (normalizeTorrentData v2 false) fm) := by
  intro k f hfile j hj
  have hi := firstPiece_add_lt hfile hj
  have hstart := h.fullPieces.pieceStart_eq (j := j) hfile
  have hlt := lt_filePieces_iff.mp hj
  have hend := lengthBefore_add_le htotal hfile
  rw [hsame.length_piece config fm htotal hnum hfile hj]
  split
  · next hlast =>
    obtain ⟨hk, hj'⟩ := last_of_firstPiece_add hnonempty hfile hj (by omega)
    have htake : lengthBefore t.files (k + 1) = t.totalLength := by
      rw [hk, lengthBefore, List.take_length, htotal]
    rw [lengthBefore_succ_of_file hfile] at htake
    rw [min_eq_right (length_le_add_one_mul hj')]
    congr 1
    omega
  · next hlast =>
    have hle := h.add_one_mul_le hfile hj fun hnumPieces => hlast ⟨hnumPieces, by omega⟩
    rw [min_eq_left hle, add_mul, one_mul, add_sub_cancel_left]

end Lengths

end Storage

end Ccbt
