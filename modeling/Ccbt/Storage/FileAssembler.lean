import Ccbt.Python.Path
import Ccbt.Storage.FileSegments
import Ccbt.Storage.PositionalWrite

/-!
# Writing pieces to files: `AsyncFileAssembler.write_piece_to_file`

The data of a piece goes to every segment of the piece, at the offset of the segment in its
file. It is the whole data each time, so only pieces that lie in one file come out right; the
files are assembled exactly if all pieces with octets of a file that is written do.
-/

namespace Ccbt

open Python Torrent Piece Piece.PieceToFileMapper PositionalWrite

namespace Storage

/-- A `pathlib.PurePosixPath`: the number of slashes of the root, and the parts. -/
structure PurePath where
  root : Nat
  parts : List Str
  deriving DecidableEq

/-- `Path(s)`. Two slashes at the beginning are kept, more are one. -/
def purePath (s : Str) : PurePath :=
  let slashes := (s.takeWhile (· = '/')).length
  { root := if slashes ≤ 2 then slashes else 1
    parts := (splitSlash s).filter fun part => part ≠ [] ∧ part ≠ ['.'] }

/-- What has been written, with the data of files, and for which pieces. -/
structure Assembly where
  disk : PurePath → Option Bytes := fun _ => none
  written_pieces : List Nat := []

/-- `_write_segment_to_file_async`, with `disk_io.write_block` as a positional write. -/
def writeSegment (piece_data : Bytes) (disk : PurePath → Option Bytes) (segment : FileSegment) :
    PurePath → Option Bytes :=
  Function.update disk (purePath segment.file_path)
    (some (writeAt 0 ((disk (purePath segment.file_path)).getD []) segment.start_offset.toNat
      piece_data))

def span (data : Bytes) (a b : Int) : Bytes := (data.drop a.toNat).take (b - a).toNat

section Write

variable (t : TorrentInfo) (output_dir : Str)

def pieceSegments (piece_index : Nat) : List FileSegment :=
  (buildFileSegments t output_dir).filter fun seg => seg.piece_index = piece_index

/-- `write_piece_to_file`, with the message of the error that is raised. -/
def writePieceToFile (s : Assembly) (piece_index : Nat) (piece_data : Bytes) :
    Except Str Unit × Assembly :=
  if piece_index ∈ s.written_pieces then (.ok (), s)
  else
    let piece_segments := pieceSegments t output_dir piece_index
    if piece_segments.isEmpty then
      (.error ("No file segments found for piece ".toList ++ strInt piece_index), s)
    else (.ok (), {
      disk := piece_segments.foldl (writeSegment piece_data) s.disk
      written_pieces := piece_index :: s.written_pieces })

def pieceData (content : Bytes) (piece_index : Nat) : Bytes :=
  span content (pieceStart t piece_index) (pieceEnd t piece_index)

/-- The pieces are written in some order, each with its data; errors are passed over. -/
def writePieces (data : Nat → Bytes) (order : List Nat) : Assembly :=
  order.foldl (fun s i => (writePieceToFile t output_dir s i (data i)).2) {}

/-- The pieces are written in some order; errors are passed over. -/
def assemble (content : Bytes) (order : List Nat) : Assembly :=
  order.foldl (fun s i => (writePieceToFile t output_dir s i (pieceData t content i)).2) {}

/-- However the pieces come, in the end every file that is no padding has its own octets. -/
def AssemblesFiles : Prop :=
  ∀ content : Bytes, (content.length : Int) = t.totalLength →
    ∀ order : List Nat, (∀ i ∈ order, i < t.numPieces) → (∀ i < t.numPieces, i ∈ order) →
      ∀ j f, t.files[j]? = some f → f.isPadding = false →
        (assemble t output_dir content order).disk (purePath (filePath t output_dir f)) =
          some (span content (lengthBefore t.files j) (lengthBefore t.files j + f.length))

/-- The files that are written are not empty, begin and end with pieces, and have paths of their
own. -/
structure PieceAligned : Prop where
  nonempty : ∀ f ∈ t.files, f.isPadding = false → 0 < f.length
  start : ∀ j f, t.files[j]? = some f → f.isPadding = false →
    t.pieceLength ∣ lengthBefore t.files j
  stop : ∀ j f, t.files[j]? = some f → f.isPadding = false →
    t.pieceLength ∣ lengthBefore t.files j + f.length ∨
      lengthBefore t.files j + f.length = t.totalLength
  distinct : ∀ (j : Nat) f (j' : Nat) f', t.files[j]? = some f → f.isPadding = false →
    t.files[j']? = some f' → f'.isPadding = false →
    purePath (filePath t output_dir f) = purePath (filePath t output_dir f') → j = j'

end Write

section Spans

variable {data : Bytes} {a b c d : Int} {k : Nat}

theorem length_span (ha : 0 ≤ a) (hb : b ≤ data.length) :
    (span data a b).length = (b - a).toNat := by
  rw [span, List.length_take, List.length_drop]
  omega

theorem getElem?_span (ha : 0 ≤ a) (hk : (k : Int) < b - a) :
    (span data a b)[k]? = data[(a + k).toNat]? := by
  rw [span, List.getElem?_take_of_lt (by omega), List.getElem?_drop]
  congr 1
  omega

end Spans

section Disk

variable {t : TorrentInfo} {output_dir : Str} {p : PurePath} {data : Bytes}

/-- The segments of a piece that are written to a path. -/
def segmentsAt (t : TorrentInfo) (output_dir : Str) (p : PurePath) (i : Nat) : List FileSegment :=
  (pieceSegments t output_dir i).filter fun seg => purePath seg.file_path = p

/-- Writing the segments of a piece changes the file at a path by those for this path. -/
theorem foldl_writeSegment (segments : List FileSegment) (disk : PurePath → Option Bytes) :
    segments.foldl (writeSegment data) disk p =
      (segments.filter fun seg => purePath seg.file_path = p).foldl
        (fun file seg => some (writeAt 0 (file.getD []) seg.start_offset.toNat data)) (disk p) := by
  induction segments generalizing disk with
  | nil => rfl
  | cons seg segments ih =>
    rw [List.foldl_cons, ih]
    by_cases hp : purePath seg.file_path = p
    · rw [List.filter_cons_of_pos (by simpa using hp), List.foldl_cons, writeSegment, hp,
        Function.update_self]
    · rw [List.filter_cons_of_neg (by simpa using hp), writeSegment,
        Function.update_of_ne (Ne.symm hp)]

/-- What writing a piece does to the file at a path. -/
theorem disk_writePieceToFile (s : Assembly) (i : Nat) :
    (writePieceToFile t output_dir s i data).2.disk p =
      if i ∈ s.written_pieces then s.disk p
      else (segmentsAt t output_dir p i).foldl
        (fun file seg => some (writeAt 0 (file.getD []) seg.start_offset.toNat data))
        (s.disk p) := by
  rw [writePieceToFile]
  split
  · rfl
  · dsimp only
    split
    · next hempty =>
      rw [segmentsAt, List.isEmpty_iff.mp hempty]
      rfl
    · exact foldl_writeSegment _ _

theorem mem_written_writePieceToFile {s : Assembly} {i k : Nat}
    (h : k ∈ (writePieceToFile t output_dir s i data).2.written_pieces) :
    k = i ∨ k ∈ s.written_pieces := by
  rw [writePieceToFile] at h
  split at h
  · exact Or.inr h
  · dsimp only at h
    split at h
    · exact Or.inr h
    · exact List.mem_cons.mp h

theorem written_subset_writePieces {data : Nat → Bytes} {order : List Nat} {k : Nat}
    (h : k ∈ (writePieces t output_dir data order).written_pieces) : k ∈ order := by
  induction order using List.reverseRecOn with
  | nil => exact h
  | append_singleton order i ih =>
    rw [writePieces, List.foldl_append, List.foldl_cons, List.foldl_nil] at h
    rcases mem_written_writePieceToFile h with rfl | h
    · exact List.mem_append_right _ (List.mem_singleton_self k)
    · exact List.mem_append_left _ (ih h)

/-- One more piece. -/
theorem disk_writePieces_append (data : Nat → Bytes) (order : List Nat) (i : Nat) :
    (writePieces t output_dir data (order ++ [i])).disk p =
      if i ∈ (writePieces t output_dir data order).written_pieces then
        (writePieces t output_dir data order).disk p
      else (segmentsAt t output_dir p i).foldl
        (fun file seg => some (writeAt 0 (file.getD []) seg.start_offset.toNat (data i)))
        ((writePieces t output_dir data order).disk p) := by
  rw [writePieces, List.foldl_append, List.foldl_cons, List.foldl_nil, disk_writePieceToFile,
    writePieces]

/-- A file without segments is not made. -/
theorem disk_writePieces_eq_none {data : Nat → Bytes} {order : List Nat}
    (h : ∀ i ∈ order, segmentsAt t output_dir p i = []) :
    (writePieces t output_dir data order).disk p = none := by
  induction order using List.reverseRecOn with
  | nil => rfl
  | append_singleton order i ih =>
    have hold := ih fun k hk => h k (List.mem_append_left _ hk)
    rw [disk_writePieces_append, hold, h i (List.mem_append_right _ (List.mem_singleton_self i))]
    split <;> rfl

theorem written_subset_order {content : Bytes} {order : List Nat} {k : Nat}
    (h : k ∈ (assemble t output_dir content order).written_pieces) : k ∈ order :=
  written_subset_writePieces h

theorem disk_assemble_append (content : Bytes) (order : List Nat) (i : Nat) :
    (assemble t output_dir content (order ++ [i])).disk p =
      if i ∈ (assemble t output_dir content order).written_pieces then
        (assemble t output_dir content order).disk p
      else (segmentsAt t output_dir p i).foldl
        (fun file seg => some (writeAt 0 (file.getD []) seg.start_offset.toNat
          (pieceData t content i)))
        ((assemble t output_dir content order).disk p) :=
  disk_writePieces_append (pieceData t content) order i

theorem disk_assemble_eq_none {content : Bytes} {order : List Nat}
    (h : ∀ i ∈ order, segmentsAt t output_dir p i = []) :
    (assemble t output_dir content order).disk p = none :=
  disk_writePieces_eq_none h

/-- The write that comes last is found in the file. -/
theorem foldl_write_last {segments : List FileSegment} {offset : Int} (hne : segments ≠ [])
    (h : ∀ seg ∈ segments, seg.start_offset = offset) (file : Option Bytes) :
    ∃ before, segments.foldl
      (fun file seg => some (writeAt 0 (file.getD []) seg.start_offset.toNat data)) file =
        some (writeAt 0 before offset.toNat data) := by
  obtain ⟨segments, seg, rfl⟩ := (List.eq_nil_or_concat' segments).resolve_left hne
  rw [List.foldl_append, List.foldl_cons, List.foldl_nil,
    h seg (List.mem_append_right _ (List.mem_singleton_self seg))]
  exact ⟨_, rfl⟩

/-- Writes of parts of the target. -/
theorem agrees_foldl_write {segments : List FileSegment} {target : Bytes} {D : Nat → Prop}
    (h : ∀ seg ∈ segments, seg.start_offset.toNat + data.length ≤ target.length ∧
      ∀ k < data.length, data[k]? = target[seg.start_offset.toNat + k]?)
    {file : Option Bytes} (hfile : Agrees (file.getD []) target D) :
    Agrees ((segments.foldl
      (fun file seg => some (writeAt 0 (file.getD []) seg.start_offset.toNat data)) file).getD [])
        target fun k => D k ∨ ∃ seg ∈ segments, seg.start_offset.toNat ≤ k ∧
          k < seg.start_offset.toNat + data.length := by
  induction segments generalizing file D with
  | nil => exact hfile.mono fun k hk => by simpa using hk
  | cons seg segments ih =>
    obtain ⟨hle, hdata⟩ := h seg List.mem_cons_self
    have hnext : Agrees ((some (writeAt 0 (file.getD []) seg.start_offset.toNat data)).getD [])
        target fun k => D k ∨ seg.start_offset.toNat ≤ k ∧
          k < seg.start_offset.toNat + data.length :=
      hfile.writeAt hle hdata
    rw [List.foldl_cons]
    refine (ih (fun seg' hseg' => h seg' (List.mem_cons_of_mem _ hseg')) hnext).mono
      fun k hk => ?_
    rcases hk with hk | ⟨seg', hseg', hk⟩
    · exact Or.inl (Or.inl hk)
    · rcases List.mem_cons.mp hseg' with rfl | hseg'
      · exact Or.inl (Or.inr hk)
      · exact Or.inr ⟨seg', hseg', hk⟩

variable (htotal : t.totalLength = (t.files.map FileInfo.length).sum)
  (hnum : (t.numPieces : Int) = (t.totalLength + t.pieceLength - 1) / t.pieceLength)

include htotal hnum in
/-- The segments for a path are the parts that the files with this path have in the piece. -/
theorem mem_segmentsAt {i : Nat} (hi : i < t.numPieces) {seg : FileSegment} :
    seg ∈ segmentsAt t output_dir p i ↔ ∃ j f s, t.files[j]? = some f ∧
      purePath (filePath t output_dir f) = p ∧
      overlapSegment (pieceStart t i) (pieceEnd t i) j (lengthBefore t.files j) f = some s ∧
      seg = segmentOf t output_dir i s := by
  obtain ⟨pairs, hperm, hbuild⟩ : ∃ pairs : List (Nat × Segment),
      pairs.Perm (mappedPairs (ofTorrent t) t.numPieces) ∧
        buildFileSegments t output_dir = pairs.map fun q => segmentOf t output_dir q.1 q.2 :=
    ⟨_, pairsFrom_perm_ofTorrent, buildFileSegments_eq htotal hnum⟩
  have hpath : ∀ k j f s, t.files[j]? = some f →
      overlapSegment (pieceStart t k) (pieceEnd t k) j (lengthBefore t.files j) f = some s →
      (segmentOf t output_dir k s).file_path = filePath t output_dir f := by
    intro k j f s hfile hs
    obtain ⟨-, -, rfl⟩ := overlapSegment_eq_some.mp hs
    rw [segmentOf, hfile, Option.map_some, Option.getD_some]
  simp only [segmentsAt, pieceSegments, hbuild, List.mem_filter, List.mem_map, decide_eq_true_eq]
  constructor
  · rintro ⟨⟨⟨⟨k, s⟩, hq, rfl⟩, hk⟩, hp⟩
    obtain rfl : k = i := hk
    rw [hperm.mem_iff, mappedPairs, List.mem_flatMap] at hq
    obtain ⟨k', hk', hs⟩ := hq
    obtain ⟨s', hs', heq⟩ := List.mem_map.mp hs
    obtain ⟨rfl, rfl⟩ := Prod.mk.inj heq
    rw [segments_ofTorrent, if_pos (List.mem_range.mp hk'), segmentsOf, mem_segmentsFrom] at hs'
    obtain ⟨j, f, hfile, hs'⟩ := hs'
    rw [Nat.zero_add, zero_add] at hs'
    exact ⟨j, f, s', hfile, by rw [← hpath k' j f s' hfile hs']; exact hp, hs', rfl⟩
  · rintro ⟨j, f, s, hfile, hp, hs, rfl⟩
    refine ⟨⟨⟨(i, s), ?_, rfl⟩, rfl⟩, by rw [hpath i j f s hfile hs]; exact hp⟩
    rw [hperm.mem_iff, mappedPairs, List.mem_flatMap]
    refine ⟨i, List.mem_range.mpr hi, List.mem_map.mpr ⟨s, ?_, rfl⟩⟩
    rw [segments_ofTorrent, if_pos hi, segmentsOf, mem_segmentsFrom]
    exact ⟨j, f, hfile, by rwa [Nat.zero_add, zero_add]⟩

end Disk

section Aligned

variable {t : TorrentInfo} {output_dir : Str} {content : Bytes} {order : List Nat} {i j : Nat}
  {f : FileInfo} {s : Segment} {x : Int}

/-- A piece that begins before a multiple of the piece length ends before it. -/
theorem pieceStart_add_le_of_dvd (h : t.pieceLength ∣ x) (hlt : pieceStart t i < x) :
    pieceStart t i + t.pieceLength ≤ x := by
  have hpos := t.pieceLength_pos
  obtain ⟨q, rfl⟩ := h
  rw [pieceStart, Int.mul_comm t.pieceLength q] at hlt ⊢
  have hiq : (i : Int) < q := lt_of_mul_lt_mul_right hlt hpos.le
  have hle : ((i : Int) + 1) * t.pieceLength ≤ q * t.pieceLength :=
    Int.mul_le_mul_of_nonneg_right (by omega) hpos.le
  rwa [add_mul, one_mul] at hle

/-- In an aligned torrent the pieces that meet a file lie in it. -/
theorem PieceAligned.within (h : PieceAligned t output_dir) (hfile : t.files[j]? = some f)
    (hs : overlapSegment (pieceStart t i) (pieceEnd t i) j (lengthBefore t.files j) f = some s) :
    lengthBefore t.files j ≤ pieceStart t i ∧
      pieceEnd t i ≤ lengthBefore t.files j + f.length := by
  obtain ⟨hpad, hlt, -⟩ := overlapSegment_eq_some.mp hs
  have hpos := t.pieceLength_pos
  have hend : pieceEnd t i ≤ pieceStart t i + t.pieceLength := min_le_left _ _
  have hend_le : pieceEnd t i ≤ t.totalLength := min_le_right _ _
  constructor
  · by_contra hbefore
    have := pieceStart_add_le_of_dvd (h.start j f hfile hpad) (Int.not_le.mp hbefore)
    omega
  · rcases h.stop j f hfile hpad with hdvd | htotal
    · by_contra hafter
      have := pieceStart_add_le_of_dvd (i := i) hdvd (by omega)
      omega
    · omega

variable (htotal : t.totalLength = (t.files.map FileInfo.length).sum)
  (hnum : (t.numPieces : Int) = (t.totalLength + t.pieceLength - 1) / t.pieceLength)

/-- Files do not overlap. -/
theorem lengthBefore_add_le_of_lt {j' : Nat} (hfile : t.files[j]? = some f) (hlt : j < j') :
    lengthBefore t.files j + f.length ≤ lengthBefore t.files j' := by
  have hnext : lengthBefore t.files (j + 1) = lengthBefore t.files j + f.length :=
    lengthBefore_succ_of_file hfile
  obtain ⟨d, rfl⟩ := Nat.exists_eq_add_of_lt hlt
  have hsplit : lengthBefore t.files (j + d + 1) = lengthBefore t.files (j + 1) +
      (((t.files.drop (j + 1)).take d).map FileInfo.length).sum := by
    rw [Nat.add_right_comm, lengthBefore, List.take_add, List.map_append, List.sum_append,
      lengthBefore]
  have hrest : 0 ≤ ((((t.files.drop (j + 1)).take d)).map FileInfo.length).sum := by
    apply List.sum_nonneg
    intro y hy
    obtain ⟨g, -, rfl⟩ := List.mem_map.mp hy
    exact g.length_nonneg
  omega

include htotal in
theorem length_fileSpan (hcontent : (content.length : Int) = t.totalLength)
    (hfile : t.files[j]? = some f) :
    (span content (lengthBefore t.files j) (lengthBefore t.files j + f.length)).length =
      f.length.toNat := by
  have hend := lengthBefore_add_le htotal hfile
  rw [length_span (lengthBefore_nonneg j) (by omega), add_sub_cancel_left]

/-- The octets of a file in the pieces of a list. -/
def Filled (t : TorrentInfo) (j : Nat) (f : FileInfo) (order : List Nat) (k : Nat) : Prop :=
  (k : Int) < f.length ∧ ∃ i ∈ order, pieceStart t i ≤ lengthBefore t.files j + k ∧
    lengthBefore t.files j + k < pieceEnd t i

include htotal in
/-- What is written to the path of a file are parts of the file. -/
theorem PieceAligned.part (h : PieceAligned t output_dir)
    (hcontent : (content.length : Int) = t.totalLength) (hfile : t.files[j]? = some f)
    (hs : overlapSegment (pieceStart t i) (pieceEnd t i) j (lengthBefore t.files j) f = some s) :
    (s.file_offset.toNat : Int) = pieceStart t i - lengthBefore t.files j ∧
      ((pieceData t content i).length : Int) = pieceEnd t i - pieceStart t i ∧
      ∀ k < (pieceData t content i).length, (pieceData t content i)[k]? =
        (span content (lengthBefore t.files j) (lengthBefore t.files j + f.length))[
          s.file_offset.toNat + k]? := by
  obtain ⟨hstart, hstop⟩ := h.within hfile hs
  obtain ⟨-, hlt, rfl⟩ := overlapSegment_eq_some.mp hs
  have hbefore := lengthBefore_nonneg (t := t) j
  have hend := lengthBefore_add_le htotal hfile
  have hend_le : pieceEnd t i ≤ t.totalLength := min_le_right _ _
  have hlength : (pieceData t content i).length = (pieceEnd t i - pieceStart t i).toNat :=
    length_span (by omega) (by omega)
  refine ⟨by dsimp only; omega, by omega, fun k hk => ?_⟩
  dsimp only
  rw [pieceData, getElem?_span (by omega) (by omega), getElem?_span (by omega) (by omega)]
  congr 1
  omega

include htotal hnum in
/-- After some pieces the file agrees with its octets where these pieces have them. -/
theorem PieceAligned.agrees (h : PieceAligned t output_dir)
    (hcontent : (content.length : Int) = t.totalLength) (hfile : t.files[j]? = some f)
    (hpad : f.isPadding = false) (horder : ∀ i ∈ order, i < t.numPieces) :
    Agrees (((assemble t output_dir content order).disk
        (purePath (filePath t output_dir f))).getD [])
      (span content (lengthBefore t.files j) (lengthBefore t.files j + f.length))
      (Filled t j f order) := by
  induction order using List.reverseRecOn with
  | nil => exact Agrees.nil.mono fun k ⟨_, i, hi, _⟩ => nomatch hi
  | append_singleton order i ih =>
    have hold := ih fun k hk => horder k (List.mem_append_left _ hk)
    have hi := horder i (List.mem_append_right _ (List.mem_singleton_self i))
    rw [disk_assemble_append]
    split
    · next hwritten =>
      refine hold.mono fun k ⟨hk, i', hi', hin⟩ => ⟨hk, i', ?_, hin⟩
      rcases List.mem_append.mp hi' with hi' | hi'
      · exact hi'
      · rw [List.mem_singleton.mp hi']
        exact written_subset_order hwritten
    · have hbefore := lengthBefore_nonneg (t := t) j
      have hend := lengthBefore_add_le htotal hfile
      have hlength := length_fileSpan htotal hcontent hfile
      have hown : ∀ seg ∈ segmentsAt t output_dir (purePath (filePath t output_dir f)) i,
          ∃ s, overlapSegment (pieceStart t i) (pieceEnd t i) j (lengthBefore t.files j) f =
            some s ∧ seg = segmentOf t output_dir i s := by
        intro seg hseg
        obtain ⟨j', f', s, hfile', hp, hs, rfl⟩ := (mem_segmentsAt htotal hnum hi).mp hseg
        obtain ⟨hpad', -, -⟩ := overlapSegment_eq_some.mp hs
        obtain rfl := h.distinct j' f' j f hfile' hpad' hfile hpad hp
        obtain rfl := Option.some.inj (hfile'.symm.trans hfile)
        exact ⟨s, hs, rfl⟩
      refine (agrees_foldl_write (fun seg hseg => ?_) hold).mono fun k ⟨hk, i', hi', hin⟩ => ?_
      · obtain ⟨s, hs, rfl⟩ := hown seg hseg
        obtain ⟨hoffset, hdata, hpart⟩ := h.part htotal hcontent hfile hs
        obtain ⟨hstart, hstop⟩ := h.within hfile hs
        exact ⟨by rw [hlength, segmentOf]; dsimp only; omega, hpart⟩
      · rcases List.mem_append.mp hi' with hi' | hi'
        · exact Or.inl ⟨hk, i', hi', hin⟩
        · obtain rfl := List.mem_singleton.mp hi'
          have hlt : max (pieceStart t i') (lengthBefore t.files j) <
              min (pieceEnd t i') (lengthBefore t.files j + f.length) := by omega
          obtain ⟨s, hs⟩ : ∃ s, overlapSegment (pieceStart t i') (pieceEnd t i') j
              (lengthBefore t.files j) f = some s :=
            ⟨_, overlapSegment_eq_some.mpr ⟨hpad, hlt, rfl⟩⟩
          obtain ⟨hoffset, hdata, -⟩ := h.part htotal hcontent hfile hs
          refine Or.inr ⟨_, (mem_segmentsAt htotal hnum hi).mpr ⟨j, f, _, hfile, rfl, hs, rfl⟩, ?_⟩
          rw [segmentOf]
          dsimp only at hoffset ⊢
          omega

include htotal hnum in
theorem PieceAligned.assemblesFiles (h : PieceAligned t output_dir) :
    AssemblesFiles t output_dir := by
  intro content hcontent order horder hall j f hfile hpad
  have hagrees := h.agrees htotal hnum hcontent hfile hpad horder
  have hnonempty := h.nonempty f (List.mem_of_getElem? hfile) hpad
  have hbefore := lengthBefore_nonneg (t := t) j
  have hend := lengthBefore_add_le htotal hfile
  have hlength := length_fileSpan htotal hcontent hfile
  have hfilled : ∀ k < (span content (lengthBefore t.files j)
      (lengthBefore t.files j + f.length)).length, Filled t j f order k := by
    intro k hk
    have hp : 0 ≤ lengthBefore t.files j + k := by omega
    have hp' : lengthBefore t.files j + k < t.totalLength := by omega
    exact ⟨by omega, _, hall _ (piece_lt hnum hp hp'), (mem_piece_iff hp hp').mpr rfl⟩
  have hequal := hagrees.eq hfilled
  cases hdisk : (assemble t output_dir content order).disk (purePath (filePath t output_dir f)) with
  | none =>
    rw [hdisk] at hequal
    have hzero := congrArg List.length hequal
    rw [hlength, Option.getD_none, List.length_nil] at hzero
    omega
  | some file =>
    rw [hdisk, Option.getD_some] at hequal
    rw [hequal]

/-- A torrent whose octets are 0 except the one at `x`. -/
def mark (t : TorrentInfo) (x : Int) : Bytes :=
  (List.range t.totalLength.toNat).map fun (k : Nat) => if (k : Int) = x then 1 else 0

theorem length_mark (h : 0 ≤ t.totalLength) : ((mark t x).length : Int) = t.totalLength := by
  rw [mark, List.length_map, List.length_range]
  omega

theorem getElem?_mark {k : Nat} (h : (k : Int) < t.totalLength) :
    (mark t x)[k]? = some (if (k : Int) = x then 1 else 0) := by
  rw [mark, List.getElem?_map, List.getElem?_range (by omega), Option.map_some]

theorem total_nonneg (htotal : t.totalLength = (t.files.map FileInfo.length).sum) :
    0 ≤ t.totalLength := by
  rw [htotal]
  apply List.sum_nonneg
  intro y hy
  obtain ⟨g, -, rfl⟩ := List.mem_map.mp hy
  exact g.length_nonneg

theorem pieceStart_nonneg : 0 ≤ pieceStart t i := by
  have := t.pieceLength_pos
  unfold pieceStart
  positivity

theorem pieceStart_ne_of_not_dvd (h : ¬t.pieceLength ∣ x) : pieceStart t i ≠ x := by
  rintro rfl
  exact h (Dvd.intro_left _ rfl)

include hnum in
theorem exists_piece (hx : 0 ≤ x) (hx' : x < t.totalLength) :
    ∃ i < t.numPieces, pieceStart t i ≤ x ∧ x < pieceEnd t i :=
  ⟨_, piece_lt hnum hx hx', (mem_piece_iff hx hx').mpr rfl⟩

namespace AssemblesFiles

include htotal in
/-- The file in its path, when the pieces come in order. -/
theorem inOrder (h : AssemblesFiles t output_dir) (x : Int) (hfile : t.files[j]? = some f)
    (hpad : f.isPadding = false) :
    (assemble t output_dir (mark t x) (List.range t.numPieces)).disk
        (purePath (filePath t output_dir f)) =
      some (span (mark t x) (lengthBefore t.files j) (lengthBefore t.files j + f.length)) :=
  h (mark t x) (length_mark (total_nonneg htotal)) _ (fun _ hi => List.mem_range.mp hi)
    (fun _ hi => List.mem_range.mpr hi) j f hfile hpad

include htotal hnum in
/-- An empty file would not be made, or not be empty. -/
theorem nonempty (h : AssemblesFiles t output_dir) (hfile : t.files[j]? = some f)
    (hpad : f.isPadding = false) : 0 < f.length := by
  by_contra hzero
  have hlength : f.length = 0 := by
    have := f.length_nonneg
    omega
  have hmark := length_mark (t := t) (x := 0) (total_nonneg htotal)
  have hdisk := inOrder htotal h 0 hfile hpad
  by_cases hother : ∃ i < t.numPieces,
      segmentsAt t output_dir (purePath (filePath t output_dir f)) i ≠ []
  · obtain ⟨i, hi, hne⟩ := hother
    obtain ⟨seg, hseg⟩ := List.exists_mem_of_ne_nil _ hne
    obtain ⟨j', g, s, hg, hpath, hs, -⟩ := (mem_segmentsAt htotal hnum hi).mp hseg
    obtain ⟨hpad', hlt, -⟩ := overlapSegment_eq_some.mp hs
    have hdisk' := inOrder htotal h 0 hg hpad'
    rw [hpath, hdisk] at hdisk'
    have hlen := congrArg List.length (Option.some.inj hdisk')
    rw [length_fileSpan htotal hmark hfile, length_fileSpan htotal hmark hg] at hlen
    omega
  · push Not at hother
    rw [disk_assemble_eq_none fun i hi => hother i (List.mem_range.mp hi)] at hdisk
    exact nomatch hdisk

include htotal hnum in
/-- Two files with one path would be the same. -/
theorem distinct (h : AssemblesFiles t output_dir) {j' : Nat} {g : FileInfo}
    (hfile : t.files[j]? = some f) (hpad : f.isPadding = false) (hg : t.files[j']? = some g)
    (hpad' : g.isPadding = false)
    (hpath : purePath (filePath t output_dir f) = purePath (filePath t output_dir g)) :
    j = j' := by
  by_contra hne
  -- the first octet of one file is marked, and the files do not overlap
  have hf := nonempty htotal hnum h hfile hpad
  have hg' := nonempty htotal hnum h hg hpad'
  have hdisk := inOrder htotal h (lengthBefore t.files j) hfile hpad
  have hdisk' := inOrder htotal h (lengthBefore t.files j) hg hpad'
  rw [hpath, hdisk'] at hdisk
  have hbefore := lengthBefore_nonneg (t := t) j
  have hbefore' := lengthBefore_nonneg (t := t) j'
  have hend := lengthBefore_add_le htotal hfile
  have hend' := lengthBefore_add_le htotal hg
  have hstarts : lengthBefore t.files j ≠ lengthBefore t.files j' := by
    rcases Nat.lt_or_gt_of_ne hne with hlt | hlt
    · have := lengthBefore_add_le_of_lt hfile hlt
      omega
    · have := lengthBefore_add_le_of_lt hg hlt
      omega
  have hfirst := congrArg (fun data => data[0]?) (Option.some.inj hdisk)
  rw [getElem?_span hbefore' (by omega), getElem?_span hbefore (by omega),
    getElem?_mark (by omega), getElem?_mark (by omega), if_neg (by omega), if_pos (by omega)]
    at hfirst
  exact absurd hfirst (by decide)

include htotal hnum in
/-- A piece that meets a file and comes last is found in it as a whole. -/
theorem last_piece (h : AssemblesFiles t output_dir) (x : Int) (hfile : t.files[j]? = some f)
    (hpad : f.isPadding = false) (hi : i < t.numPieces)
    (hlt : max (pieceStart t i) (lengthBefore t.files j) <
      min (pieceEnd t i) (lengthBefore t.files j + f.length)) :
    ∃ before, writeAt 0 before
        (max (pieceStart t i) (lengthBefore t.files j) - lengthBefore t.files j).toNat
        (pieceData t (mark t x) i) =
      span (mark t x) (lengthBefore t.files j) (lengthBefore t.files j + f.length) := by
  have hdisk := h (mark t x) (length_mark (total_nonneg htotal))
    ((List.range t.numPieces).filter (fun k => k ≠ i) ++ [i])
    (fun k hk => by
      rcases List.mem_append.mp hk with hk | hk
      · exact List.mem_range.mp (List.mem_filter.mp hk).1
      · rwa [List.mem_singleton.mp hk])
    (fun k hk => by
      by_cases hki : k = i
      · exact List.mem_append_right _ (List.mem_singleton.mpr hki)
      · exact List.mem_append_left _ (List.mem_filter.mpr
          ⟨List.mem_range.mpr hk, by simpa using hki⟩))
    j f hfile hpad
  have hfresh : i ∉ (assemble t output_dir (mark t x)
      ((List.range t.numPieces).filter fun k => k ≠ i)).written_pieces := by
    intro hmem
    have := (List.mem_filter.mp (written_subset_order hmem)).2
    simp at this
  rw [disk_assemble_append, if_neg hfresh] at hdisk
  obtain ⟨s, hs⟩ : ∃ s, overlapSegment (pieceStart t i) (pieceEnd t i) j
      (lengthBefore t.files j) f = some s :=
    ⟨_, overlapSegment_eq_some.mpr ⟨hpad, hlt, rfl⟩⟩
  have hoffset : ∀ seg ∈ segmentsAt t output_dir (purePath (filePath t output_dir f)) i,
      seg.start_offset =
        max (pieceStart t i) (lengthBefore t.files j) - lengthBefore t.files j := by
    intro seg hseg
    obtain ⟨j', g, s', hg, hpath, hs', rfl⟩ := (mem_segmentsAt htotal hnum hi).mp hseg
    obtain ⟨hpad', -, hs''⟩ := overlapSegment_eq_some.mp hs'
    obtain rfl := distinct htotal hnum h hg hpad' hfile hpad hpath
    rw [segmentOf, hs'']
  have hne : segmentsAt t output_dir (purePath (filePath t output_dir f)) i ≠ [] :=
    List.ne_nil_of_mem ((mem_segmentsAt htotal hnum hi).mpr ⟨j, f, s, hfile, rfl, hs, rfl⟩)
  obtain ⟨before, hwrite⟩ := foldl_write_last hne hoffset
    ((assemble t output_dir (mark t x)
      ((List.range t.numPieces).filter fun k => k ≠ i)).disk (purePath (filePath t output_dir f)))
  exact ⟨before, Option.some.inj (hwrite.symm.trans hdisk)⟩

include htotal hnum in
theorem pieceAligned (h : AssemblesFiles t output_dir) : PieceAligned t output_dir where
  nonempty f hmem hpad := by
    obtain ⟨j, hfile⟩ := List.mem_iff_getElem?.mp hmem
    exact nonempty htotal hnum h hfile hpad
  start j f hfile hpad := by
    -- otherwise the first octet of the piece stands where the first octet of the file should be
    have hf := nonempty htotal hnum h hfile hpad
    have hbefore := lengthBefore_nonneg (t := t) j
    have hend := lengthBefore_add_le htotal hfile
    by_contra hdvd
    obtain ⟨i, hi, hin, hin'⟩ := exists_piece hnum hbefore (by omega)
    have hne := pieceStart_ne_of_not_dvd (i := i) hdvd
    have hstart := pieceStart_nonneg (t := t) (i := i)
    have hend_le : pieceEnd t i ≤ t.totalLength := min_le_right _ _
    obtain ⟨before, hwrite⟩ :=
      last_piece htotal hnum h (lengthBefore t.files j) hfile hpad hi (by omega)
    have hmark := length_mark (t := t) (x := lengthBefore t.files j) (total_nonneg htotal)
    have hzero : (max (pieceStart t i) (lengthBefore t.files j) -
        lengthBefore t.files j).toNat = 0 := by omega
    have hdata : 0 < (pieceData t (mark t (lengthBefore t.files j)) i).length := by
      rw [pieceData, length_span (by omega) (by omega)]
      omega
    have hread : (writeAt 0 before 0 (pieceData t (mark t (lengthBefore t.files j)) i))[0 + 0]? =
        some 0 := by
      rw [getElem?_writeAt_inside hdata, pieceData, getElem?_span (by omega) (by omega),
        getElem?_mark (by omega), if_neg (by omega)]
    have hfirst := congrArg (fun data => data[0]?) hwrite
    rw [hzero, hread, getElem?_span hbefore (by omega), getElem?_mark (by omega),
      if_pos (by omega)] at hfirst
    exact absurd hfirst (by decide)
  stop j f hfile hpad := by
    -- otherwise the file becomes longer than it is
    have hf := nonempty htotal hnum h hfile hpad
    have hbefore := lengthBefore_nonneg (t := t) j
    have hend := lengthBefore_add_le htotal hfile
    by_contra hstop
    push Not at hstop
    obtain ⟨hdvd, hlast⟩ := hstop
    obtain ⟨i, hi, hin, hin'⟩ := exists_piece (x := lengthBefore t.files j + f.length) hnum
      (by omega) (by omega)
    have hne := pieceStart_ne_of_not_dvd (i := i) hdvd
    have hstart := pieceStart_nonneg (t := t) (i := i)
    have hend_le : pieceEnd t i ≤ t.totalLength := min_le_right _ _
    obtain ⟨before, hwrite⟩ := last_piece htotal hnum h 0 hfile hpad hi (by omega)
    have hmark := length_mark (t := t) (x := 0) (total_nonneg htotal)
    have hlength := congrArg List.length hwrite
    rw [length_writeAt, length_fileSpan htotal hmark hfile, pieceData,
      length_span (by omega) (by omega)] at hlength
    omega
  distinct j f j' g hfile hpad hg hpad' hpath :=
    distinct htotal hnum h hfile hpad hg hpad' hpath

end AssemblesFiles

/-- Two files of 6 and 2 octets in pieces of 4. -/
def unalignedTorrent : TorrentInfo :=
  plainTorrent [plainFile 6 none, { plainFile 2 none with name := ['g'] }] 4
    (Int.natCast_succ_pos 3)

end Aligned

end Storage

end Ccbt
