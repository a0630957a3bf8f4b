import Ccbt.Storage.CacheLock
import Ccbt.Storage.FileAssembler

/-!
# Reading pieces from files: `AsyncFileAssembler.read_block`

A block of a piece is read from the files of the torrent. A piece with one segment is read at the
offset of the segment, whatever comes before it in the piece; with more segments the parts of the
block are read one after the other, or all at once. The block comes back as it is in the torrent if
and only if the segment stands for what is read and the disk manager serves every part
(`readsBack_iff`).
-/

namespace Ccbt

open Python Torrent Piece Piece.PieceToFileMapper PositionalWrite

namespace Storage

namespace Assembler

/-- An entry of `segments_to_read`. -/
structure SegmentRead where
  seg : FileSegment
  file_offset : Int
  read_len : Int
  overlap_start : Int
  overlap_end : Int

/-- The loop over the segments of a piece: what is to be read, and how much remains then. -/
def segmentsToRead : List FileSegment → Int → Int → List SegmentRead × Int
  | [], remaining, _ => ([], remaining)
  | seg :: segments, remaining, current_offset_in_piece =>
    if remaining ≤ 0 then ([], remaining)
    else
      let seg_piece_start := seg.piece_offset
      let seg_length := seg.end_offset - seg.start_offset
      let seg_piece_end := seg_piece_start + seg_length
      let overlap_start := max current_offset_in_piece seg_piece_start
      let overlap_end := min (current_offset_in_piece + remaining) seg_piece_end
      if overlap_start < overlap_end then
        let read_len := overlap_end - overlap_start
        let file_offset := seg.start_offset + (overlap_start - seg_piece_start)
        let found := segmentsToRead segments (remaining - read_len) overlap_end
        (⟨seg, file_offset, read_len, overlap_start, overlap_end⟩ :: found.1, found.2)
      else segmentsToRead segments remaining current_offset_in_piece

/-- The call of `disk_io.read_block` for a part. -/
def SegmentRead.call (r : SegmentRead) : ReadCall PurePath :=
  ⟨purePath r.seg.file_path, r.file_offset.toNat, r.read_len.toNat⟩

section Read

variable (config : DiskConfig)

/-- A part that is read: nothing if the read raises or returns less or more than was asked for. -/
def readSegment (s : DiskState PurePath) (r : SegmentRead) :
    Option Bytes × DiskState PurePath :=
  match s.readBlock config r.call.file_path r.call.offset r.call.length with
  | (.ok chunk, s) => (if (chunk.length : Int) ≠ r.read_len then none else some chunk, s)
  | (.error _, s) => (none, s)

def readAll : DiskState PurePath → List SegmentRead →
    List (Option (Int × Bytes)) × DiskState PurePath
  | s, [] => ([], s)
  | s, r :: reads =>
    let first := readSegment config s r
    let rest := readAll first.2 reads
    (first.1.map (r.overlap_start, ·) :: rest.1, rest.2)

/-- The parts in the order of their offsets, if none is missing. -/
def combine (n : Nat) (results : List (Option (Int × Bytes))) : Option (List Bytes) :=
  let valid_results := sortOn Prod.fst (results.filterMap id)
  let parts := valid_results.map Prod.snd
  if parts.length ≠ n then none else some parts

/-- The sequential reads, up to the first one that fails. -/
def readInOrder : DiskState PurePath → List SegmentRead →
    Option (List Bytes) × DiskState PurePath
  | s, [] => (some [], s)
  | s, r :: reads =>
    match readSegment config s r with
    | (none, s) => (none, s)
    | (some chunk, s) =>
      let rest := readInOrder s reads
      (rest.1.map (chunk :: ·), rest.2)

/-- The parts are read, all at once or one after the other. -/
def readParts (read_parallel_segments : Bool) (s : DiskState PurePath)
    (segments_to_read : List SegmentRead) : Option (List Bytes) × DiskState PurePath :=
  if read_parallel_segments ∧ segments_to_read.length > 1 then
    let results := readAll config s segments_to_read
    (combine segments_to_read.length results.1, results.2)
  else readInOrder config s segments_to_read

variable (t : TorrentInfo) (output_dir : Str) (read_parallel_segments : Bool)

/-- `read_block`, with what it returns if the reads that it waits for end. -/
def readBlock (s : DiskState PurePath) (piece_index begin length : Nat) :
    Option Bytes × DiskState PurePath :=
  if piece_index ≥ t.numPieces then (none, s)
  else
    match pieceSegments t output_dir piece_index with
    | [] => (none, s)
    | [seg] =>
      let file_offset := seg.start_offset + begin
      match s.readBlock config (purePath seg.file_path) file_offset.toNat length with
      | (.ok data, s) => (some data, s)
      | (.error _, s) => (none, s)
    | piece_segments =>
      let found := segmentsToRead (sortOn FileSegment.piece_offset piece_segments) length begin
      let parts := readParts config read_parallel_segments s found.1
      (if found.2 ≠ 0 then none else parts.1.map List.flatten, parts.2)

/-- The reads that `asyncio.gather` waits for. -/
def gathered (piece_index begin length : Nat) : List (ReadCall PurePath) :=
  match pieceSegments t output_dir piece_index with
  | [] | [_] => []
  | piece_segments =>
    let found := segmentsToRead (sortOn FileSegment.piece_offset piece_segments) length begin
    if read_parallel_segments ∧ found.1.length > 1 then found.1.map SegmentRead.call else []

end Read

section Parts

/-- The part of the range from `lo` to `hi` in a piece that lies in a segment. -/
def overlapRead (lo hi : Int) (seg : FileSegment) : Option SegmentRead :=
  let overlap_start := max lo seg.piece_offset
  let overlap_end := min hi (seg.piece_offset + (seg.end_offset - seg.start_offset))
  if overlap_start < overlap_end then
    some ⟨seg, seg.start_offset + (overlap_start - seg.piece_offset), overlap_end - overlap_start,
      overlap_start, overlap_end⟩
  else none

/-- The position in the piece lies in the segment. -/
def Covers (seg : FileSegment) (x : Int) : Prop :=
  seg.piece_offset ≤ x ∧ x < seg.piece_offset + (seg.end_offset - seg.start_offset)

/-- The segments lie one behind the other in their piece. -/
def Ascending (segments : List FileSegment) : Prop :=
  segments.Pairwise fun a b => a.piece_offset + (a.end_offset - a.start_offset) ≤ b.piece_offset

/-- The parts make up the range, one behind the other. -/
def Fill : Int → Int → List SegmentRead → Prop
  | lo, hi, [] => lo = hi
  | lo, hi, r :: reads => r.overlap_start = lo ∧ lo < r.overlap_end ∧ Fill r.overlap_end hi reads

variable {lo hi remaining : Int} {seg : FileSegment} {segments : List FileSegment}
  {r : SegmentRead} {reads : List SegmentRead}

theorem overlapRead_eq_some : overlapRead lo hi seg = some r ↔
    max lo seg.piece_offset < min hi (seg.piece_offset + (seg.end_offset - seg.start_offset)) ∧
      r = ⟨seg, seg.start_offset + (max lo seg.piece_offset - seg.piece_offset),
        min hi (seg.piece_offset + (seg.end_offset - seg.start_offset)) -
          max lo seg.piece_offset, max lo seg.piece_offset,
        min hi (seg.piece_offset + (seg.end_offset - seg.start_offset))⟩ := by
  rw [overlapRead]
  split
  · next h => rw [Option.some.injEq, and_iff_right h, eq_comm]
  · next h => exact iff_of_false (fun h' => by cases h') fun h' => h h'.1

theorem overlapRead_eq_none : overlapRead lo hi seg = none ↔
    min hi (seg.piece_offset + (seg.end_offset - seg.start_offset)) ≤ max lo seg.piece_offset := by
  rw [overlapRead]
  split
  · next h => exact iff_of_false (fun h' => by cases h') (not_le.mpr h)
  · next h => exact iff_of_true rfl (not_lt.mp h)

/-- An empty range has no parts. -/
theorem filterMap_overlapRead_self : segments.filterMap (overlapRead lo lo) = [] := by
  rw [List.filterMap_eq_nil_iff]
  intro seg _
  rw [overlapRead_eq_none]
  omega

/-- Where the segments cover the range, the loop finds the part of each of them, and nothing
remains. -/
theorem segmentsToRead_eq (hasc : Ascending segments) (hremaining : 0 ≤ remaining)
    (hcovered : ∀ x, lo ≤ x → x < lo + remaining → ∃ seg ∈ segments, Covers seg x) :
    segmentsToRead segments remaining lo =
        (segments.filterMap (overlapRead lo (lo + remaining)), 0) ∧
      Fill lo (lo + remaining) (segments.filterMap (overlapRead lo (lo + remaining))) := by
  induction segments generalizing lo remaining with
  | nil =>
    have hzero : remaining = 0 := by
      by_contra hne
      obtain ⟨seg, hseg, -⟩ := hcovered lo le_rfl (by omega)
      exact absurd hseg List.not_mem_nil
    exact ⟨by rw [segmentsToRead, hzero, List.filterMap_nil], by rw [hzero, add_zero]; rfl⟩
  | cons seg segments ih =>
    obtain ⟨hbehind, hasc⟩ := List.pairwise_cons.mp hasc
    by_cases hzero : remaining ≤ 0
    · obtain rfl : remaining = 0 := by omega
      rw [segmentsToRead, if_pos hzero, add_zero, filterMap_overlapRead_self]
      exact ⟨rfl, rfl⟩
    rw [segmentsToRead, if_neg hzero]
    dsimp only
    cases hread : overlapRead lo (lo + remaining) seg with
    | none =>
      have hle := overlapRead_eq_none.mp hread
      have htail : ∀ x, lo ≤ x → x < lo + remaining → ∃ seg ∈ segments, Covers seg x := by
        intro x hx hx'
        obtain ⟨seg', hmem, hin⟩ := hcovered x hx hx'
        rcases List.mem_cons.mp hmem with rfl | hmem
        · have := hin.1
          have := hin.2
          omega
        · exact ⟨seg', hmem, hin⟩
      rw [if_neg (not_lt.mpr hle), List.filterMap_cons_none hread]
      exact ih hasc hremaining htail
    | some r =>
      obtain ⟨hlt, rfl⟩ := overlapRead_eq_some.mp hread
      rw [if_pos hlt, List.filterMap_cons_some hread]
      -- the range begins in this segment: the others begin behind its end
      have hstart : seg.piece_offset ≤ lo := by
        obtain ⟨seg', hmem, hin⟩ := hcovered lo le_rfl (by omega)
        rcases List.mem_cons.mp hmem with rfl | hmem
        · exact hin.1
        · have := hbehind seg' hmem
          have := hin.1
          omega
      set stop := min (lo + remaining) (seg.piece_offset + (seg.end_offset - seg.start_offset))
      have hmax : max lo seg.piece_offset = lo := max_eq_left hstart
      have hhi : stop + (remaining - (stop - lo)) = lo + remaining := by omega
      have htail : ∀ x, stop ≤ x → x < stop + (remaining - (stop - lo)) →
          ∃ seg ∈ segments, Covers seg x := by
        intro x hx hx'
        obtain ⟨seg', hmem, hin⟩ := hcovered x (by omega) (by omega)
        rcases List.mem_cons.mp hmem with rfl | hmem
        · have := hin.2
          omega
        · exact ⟨seg', hmem, hin⟩
      have hparts : segments.filterMap (overlapRead stop (lo + remaining)) =
          segments.filterMap (overlapRead lo (lo + remaining)) := by
        refine List.filterMap_congr fun seg' hmem => ?_
        have := hbehind seg' hmem
        rw [overlapRead, overlapRead, show max stop seg'.piece_offset = max lo seg'.piece_offset by
          omega]
      obtain ⟨hloop, hfill⟩ := ih hasc (by omega) htail
      rw [hhi, hparts] at hloop hfill
      rw [hmax, hloop]
      exact ⟨rfl, rfl, by dsimp only; omega, hfill⟩

end Parts

section Disk

variable {config : DiskConfig} {s s' : DiskState PurePath} {r : SegmentRead}
  {reads : List SegmentRead}

/-- The files are the same, and they are read through mappings of the same sizes. -/
structure Alike (config : DiskConfig) (s s' : DiskState PurePath) : Prop where
  files : s'.files = s.files
  mappedSize : ∀ p file, s.files p = some file →
    s'.mappedSize config p file = s.mappedSize config p file

/-- Reading neither writes to the files nor changes how they are read. -/
theorem alike_readBlock (p : PurePath) (offset length : Nat) :
    Alike config s (s.readBlock config p offset length).2 := by
  have hentry : Alike config s ((s.track p offset).getMmapEntry p).2 := by
    rw [DiskState.getMmapEntry]
    split
    · exact ⟨rfl, fun _ _ _ => rfl⟩
    · next hcache =>
      split
      · exact ⟨rfl, fun _ _ _ => rfl⟩
      · next file hfile =>
        split
        · exact ⟨rfl, fun _ _ _ => rfl⟩
        · next hsome =>
          split
          · next hmap =>
            refine ⟨rfl, fun p' file' hfile' => ?_⟩
            simp only [DiskState.mappedSize, Dict.get?_set]
            refine if_congr Iff.rfl ?_ rfl
            by_cases hp : p' = p
            · subst hp
              rw [DiskState.files_track] at hfile
              obtain rfl : file' = file := Option.some.inj (hfile'.symm.trans hfile)
              rw [DiskState.mmap_cache_track] at hcache
              rw [DiskState.mappable_track] at hmap
              rw [if_pos rfl, Option.some_or, hcache, Option.none_or, if_pos ⟨hsome, hmap⟩]
            · rw [if_neg hp]
              rfl
          · exact ⟨rfl, fun _ _ _ => rfl⟩
  rw [DiskState.readBlock]
  split
  · split
    · next heq =>
      rw [heq] at hentry
      exact hentry
    · next heq =>
      rw [heq] at hentry
      exact hentry
  · exact ⟨rfl, fun _ _ _ => rfl⟩

theorem readSegment_snd (s : DiskState PurePath) (r : SegmentRead) :
    (readSegment config s r).2 =
      (s.readBlock config r.call.file_path r.call.offset r.call.length).2 := by
  rw [readSegment]
  split
  · next h => rw [h]
  · next h => rw [h]

def FilesExist (s : DiskState PurePath) (reads : List SegmentRead) : Prop :=
  ∀ r ∈ reads, ∃ file, s.files r.call.file_path = some file

theorem Alike.filesExist (h : Alike config s s') (hfiles : FilesExist s reads) :
    FilesExist s' reads := by
  intro r hr
  rw [h.files]
  exact hfiles r hr

/-- A part comes out the same before and after other reads. -/
theorem Alike.readSegment_fst (h : Alike config s s')
    (hfile : ∃ file, s.files r.call.file_path = some file) :
    (readSegment config s' r).1 = (readSegment config s r).1 := by
  obtain ⟨file, hfile⟩ := hfile
  have hfile' : s'.files r.call.file_path = some file := by rw [h.files, hfile]
  have hread : (s'.readBlock config r.call.file_path r.call.offset r.call.length).1 =
      (s.readBlock config r.call.file_path r.call.offset r.call.length).1 := by
    rw [DiskState.readBlock_fst hfile, DiskState.readBlock_fst hfile', h.mappedSize _ _ hfile]
  have hfst : ∀ s : DiskState PurePath, (readSegment config s r).1 =
      match (s.readBlock config r.call.file_path r.call.offset r.call.length).1 with
      | .ok chunk => if (chunk.length : Int) ≠ r.read_len then none else some chunk
      | .error _ => none := by
    intro s
    rw [readSegment]
    split
    · next h => rw [h]
    · next h => rw [h]
  rw [hfst, hfst, hread]

theorem readAll_fst (hfiles : FilesExist s reads) : (readAll config s reads).1 =
    reads.map fun r => (readSegment config s r).1.map (r.overlap_start, ·) := by
  induction reads generalizing s with
  | nil => rfl
  | cons r reads ih =>
    have halike : Alike config s (readSegment config s r).2 :=
      readSegment_snd s r ▸ alike_readBlock _ _ _
    have hrest : FilesExist s reads := fun r' hr' => hfiles r' (List.mem_cons_of_mem _ hr')
    rw [readAll, List.map_cons]
    dsimp only
    rw [ih (halike.filesExist hrest)]
    refine congrArg _ (List.map_congr_left fun r' hr' => ?_)
    rw [halike.readSegment_fst (hrest r' hr')]

theorem mapM_option_congr {α β : Type} {f g : α → Option β} {l : List α}
    (h : ∀ a ∈ l, f a = g a) : l.mapM f = l.mapM g := by
  induction l with
  | nil => rfl
  | cons a l ih =>
    obtain ⟨ha, hl⟩ := List.forall_mem_cons.mp h
    rw [List.mapM_cons, List.mapM_cons, ha, ih hl]

theorem mapM_option_eq_some {α β : Type} {f : α → Option β} {g : α → β} {l : List α}
    (h : ∀ a ∈ l, f a = some (g a)) : l.mapM f = some (l.map g) := by
  rw [mapM_option_congr h]
  exact List.mapM_pure

theorem mapM_option_eq_none {α β : Type} {f : α → Option β} {l : List α} {a : α} (ha : a ∈ l)
    (h : f a = none) : l.mapM f = none := by
  induction l with
  | nil => exact absurd ha List.not_mem_nil
  | cons b l ih =>
    rw [List.mapM_cons]
    rcases List.mem_cons.mp ha with rfl | ha
    · rw [h]
      rfl
    · rw [ih ha]
      cases f b <;> rfl

theorem readInOrder_fst (hfiles : FilesExist s reads) : (readInOrder config s reads).1 =
    reads.mapM fun r => (readSegment config s r).1 := by
  induction reads generalizing s with
  | nil => rfl
  | cons r reads ih =>
    have halike : Alike config s (readSegment config s r).2 :=
      readSegment_snd s r ▸ alike_readBlock _ _ _
    have hrest : FilesExist s reads := fun r' hr' => hfiles r' (List.mem_cons_of_mem _ hr')
    have hsame : (reads.mapM fun r' => (readSegment config (readSegment config s r).2 r').1) =
        reads.mapM fun r' => (readSegment config s r').1 :=
      mapM_option_congr fun r' hr' => halike.readSegment_fst (hrest r' hr')
    rw [readInOrder, List.mapM_cons]
    cases hread : readSegment config s r with
    | mk chunk s' =>
      rw [hread] at halike hsame
      cases chunk with
      | none => rfl
      | some chunk =>
        dsimp only
        rw [ih (halike.filesExist hrest), hsame]
        cases (reads.mapM fun r' => (readSegment config s r').1) <;> rfl

theorem Fill.pairwise {lo hi : Int} (h : Fill lo hi reads) :
    (∀ r ∈ reads, lo ≤ r.overlap_start) ∧
      reads.Pairwise fun a b => a.overlap_start ≤ b.overlap_start := by
  induction reads generalizing lo with
  | nil => exact ⟨fun r hr => absurd hr List.not_mem_nil, List.Pairwise.nil⟩
  | cons r reads ih =>
    obtain ⟨hstart, hlt, hfill⟩ := h
    obtain ⟨hle, hpair⟩ := ih hfill
    refine ⟨List.forall_mem_cons.mpr ⟨hstart.ge, fun r' hr' => ?_⟩,
      List.pairwise_cons.mpr ⟨fun r' hr' => ?_, hpair⟩⟩
    · have := hle r' hr'
      omega
    · have := hle r' hr'
      omega

/-- Putting the results together gives all parts in order, or nothing if one is missing. -/
theorem combine_eq {f : SegmentRead → Option Bytes}
    (h : reads.Pairwise fun a b => a.overlap_start ≤ b.overlap_start) :
    combine reads.length (reads.map fun r => (f r).map (r.overlap_start, ·)) = reads.mapM f := by
  have hsorted : ((reads.map fun r => (f r).map (r.overlap_start, ·)).filterMap id).Pairwise
      fun a b => a.1 ≤ b.1 := by
    rw [List.filterMap_map, List.pairwise_filterMap]
    refine h.imp fun {a b} hab x hx y hy => ?_
    obtain ⟨_, -, rfl⟩ := Option.map_eq_some_iff.mp hx
    obtain ⟨_, -, rfl⟩ := Option.map_eq_some_iff.mp hy
    exact hab
  have hparts : (((reads.map fun r => (f r).map (r.overlap_start, ·)).filterMap id).map
      Prod.snd) = reads.filterMap f := by
    rw [List.filterMap_map, List.map_filterMap]
    refine List.filterMap_congr fun r _ => ?_
    cases hf : f r <;> simp [hf]
  rw [combine, sortOn_eq_self _ hsorted, hparts]
  clear hsorted hparts h
  have hle : (reads.filterMap f).length ≤ reads.length := List.length_filterMap_le _ _
  induction reads with
  | nil => rfl
  | cons r reads ih =>
    have hle := List.length_filterMap_le f reads
    specialize ih hle
    rw [List.mapM_cons, List.length_cons]
    cases hr : f r with
    | none =>
      rw [List.filterMap_cons_none hr, if_pos (by omega)]
      rfl
    | some chunk =>
      rw [List.filterMap_cons_some hr, List.length_cons]
      by_cases hlength : (reads.filterMap f).length = reads.length
      · rw [if_neg (by omega)] at ih ⊢
        rw [← ih]
        rfl
      · rw [if_pos (by omega)] at ih ⊢
        rw [← ih]
        rfl

/-- All at once or one after the other, the parts come out the same. -/
theorem readParts_fst {lo hi : Int} (hfiles : FilesExist s reads) (hfill : Fill lo hi reads)
    (read_parallel_segments : Bool) : (readParts config read_parallel_segments s reads).1 =
      reads.mapM fun r => (readSegment config s r).1 := by
  rw [readParts]
  split
  · dsimp only
    rw [readAll_fst hfiles, combine_eq hfill.pairwise.2]
  · exact readInOrder_fst hfiles

end Disk

section Layout

variable {t : TorrentInfo} {output_dir : Str} {i j : Nat} {o : Int} {files : List FileInfo}
  {seg : FileSegment}

/-- Of the parts of a file in all pieces one may be in this piece. -/
theorem filter_pairsOfFile {f : FileInfo} (hi : i < t.numPieces) :
    (pairsOfFile t j o f).filter (fun p => p.1 = i) =
      (overlapSegment (pieceStart t i) (pieceEnd t i) j o f).toList.map (i, ·) := by
  have hrange : ∀ n, ((List.range n).filterMap fun k =>
      (overlapSegment (pieceStart t k) (pieceEnd t k) j o f).map (k, ·)).filter
        (fun p => p.1 = i) = if i < n then
          (overlapSegment (pieceStart t i) (pieceEnd t i) j o f).toList.map (i, ·) else [] := by
    intro n
    induction n with
    | zero => rfl
    | succ n ih =>
      rw [List.range_succ, List.filterMap_append, List.filter_append, ih]
      by_cases hn : n = i
      · subst hn
        rw [if_neg (Nat.lt_irrefl n), if_pos (Nat.lt_succ_self n), List.nil_append]
        cases h : overlapSegment (pieceStart t n) (pieceEnd t n) j o f <;> simp [h]
      · have hlast : ([n].filterMap fun k =>
            (overlapSegment (pieceStart t k) (pieceEnd t k) j o f).map (k, ·)).filter
              (fun p => p.1 = i) = [] := by
          cases h : overlapSegment (pieceStart t n) (pieceEnd t n) j o f <;> simp [h, hn]
        rw [hlast, List.append_nil]
        exact if_congr (by omega) rfl rfl
  rw [pairsOfFile, hrange, if_pos hi]

theorem filter_pairsFrom (hi : i < t.numPieces) :
    (pairsFrom t j o files).filter (fun p => p.1 = i) =
      (segmentsFrom (pieceStart t i) (pieceEnd t i) j o files).map (i, ·) := by
  induction files generalizing j o with
  | nil => rfl
  | cons f files ih =>
    rw [pairsFrom, segmentsFrom, List.filter_append, List.map_append, ih, filter_pairsOfFile hi]

variable (htotal : t.totalLength = (t.files.map FileInfo.length).sum)
  (hnum : (t.numPieces : Int) = (t.totalLength + t.pieceLength - 1) / t.pieceLength)

include htotal hnum in
/-- The segments of a piece are the parts that the files have in it, in the order of the files. -/
theorem pieceSegments_eq (hi : i < t.numPieces) : pieceSegments t output_dir i =
    (segmentsFrom (pieceStart t i) (pieceEnd t i) 0 0 t.files).map (segmentOf t output_dir i) := by
  rw [pieceSegments, buildFileSegments_eq htotal hnum, List.filter_map]
  have hfilter : (pairsFrom t 0 0 t.files).filter ((fun seg : FileSegment =>
      decide (seg.piece_index = i)) ∘ fun p => segmentOf t output_dir p.1 p.2) =
        (pairsFrom t 0 0 t.files).filter fun p => p.1 = i := rfl
  rw [hfilter, filter_pairsFrom hi, List.map_map]
  rfl

include htotal hnum in
theorem mem_pieceSegments (hi : i < t.numPieces) : seg ∈ pieceSegments t output_dir i ↔
    ∃ j f s, t.files[j]? = some f ∧
      overlapSegment (pieceStart t i) (pieceEnd t i) j (lengthBefore t.files j) f = some s ∧
        seg = segmentOf t output_dir i s := by
  rw [pieceSegments_eq htotal hnum hi, List.mem_map]
  constructor
  · rintro ⟨s, hs, rfl⟩
    obtain ⟨j, f, hfile, hs⟩ := mem_segmentsFrom.mp hs
    rw [Nat.zero_add, zero_add] at hs
    exact ⟨j, f, s, hfile, hs, rfl⟩
  · rintro ⟨j, f, s, hfile, hs, rfl⟩
    refine ⟨s, mem_segmentsFrom.mpr ⟨j, f, hfile, ?_⟩, rfl⟩
    rwa [Nat.zero_add, zero_add]

include htotal hnum in
/-- The segments lie one behind the other as the files do. -/
theorem ascending_pieceSegments (hi : i < t.numPieces) :
    Ascending (pieceSegments t output_dir i) := by
  rw [pieceSegments_eq htotal hnum hi, Ascending, List.pairwise_map]
  refine pairwise_segmentsFrom.imp_of_mem fun {a b} ha hb hab => ?_
  obtain ⟨j, f, hf, ha⟩ := mem_segmentsFrom.mp ha
  obtain ⟨k, g, hg, hb⟩ := mem_segmentsFrom.mp hb
  obtain ⟨-, hlt, rfl⟩ := overlapSegment_eq_some.mp ha
  obtain ⟨-, hlt', rfl⟩ := overlapSegment_eq_some.mp hb
  have hjk : j < k := by
    dsimp only at hab
    omega
  have hle := lengthBefore_add_le_of_lt hf hjk
  simp only [segmentOf, zero_add] at hlt hlt' ⊢
  omega

end Layout

section Content

variable {t : TorrentInfo} {output_dir : Str} {config : DiskConfig} {s : DiskState PurePath}
  {content file data : Bytes} {p : PurePath} {i offset n : Nat} {a b lo hi : Int}
  {seg : FileSegment} {r : SegmentRead} {reads : List SegmentRead}

theorem span_append (h : 0 ≤ lo) (hle : lo ≤ a) (hle' : a ≤ hi) :
    span content lo a ++ span content a hi = span content lo hi := by
  have hsplit : (hi - lo).toNat = (a - lo).toNat + (hi - a).toNat := by omega
  have hdrop : lo.toNat + (a - lo).toNat = a.toNat := by omega
  rw [span, span, span, hsplit, List.take_add, List.drop_drop, hdrop]

/-- A range of a file is a range of the content of the torrent. -/
theorem requested_span (ha : 0 ≤ a) (h : a + offset + n ≤ b) :
    requested (span content a b) offset n = span content (a + offset) (a + offset + n) := by
  have hdrop : a.toNat + offset = (a + offset).toNat := by omega
  have htake : min n ((b - a).toNat - offset) = (a + offset + n - (a + offset)).toNat := by omega
  rw [requested, span, span, List.drop_take, List.take_take, List.drop_drop, hdrop, htake]

/-- Every file that is no padding is in its place, with its octets. -/
structure HoldsFiles (t : TorrentInfo) (output_dir : Str) (content : Bytes)
    (s : DiskState PurePath) : Prop where
  length : (content.length : Int) = t.totalLength
  files : ∀ j f, t.files[j]? = some f → f.isPadding = false →
    s.files (purePath (filePath t output_dir f)) =
      some (span content (lengthBefore t.files j) (lengthBefore t.files j + f.length))

/-- The range lies inside the piece and touches no padding. -/
structure InPiece (t : TorrentInfo) (piece_index begin length : Nat) : Prop where
  piece : piece_index < t.numPieces
  inside : pieceStart t piece_index + begin + length ≤ pieceEnd t piece_index
  no_padding : ∀ x, pieceStart t piece_index + begin ≤ x →
    x < pieceStart t piece_index + begin + length → ∃ j f, t.files[j]? = some f ∧
      f.isPadding = false ∧ lengthBefore t.files j ≤ x ∧ x < lengthBefore t.files j + f.length

/-- A read returns data of the length that was asked for exactly if it is served and these are
the data. -/
theorem readBlock_eq_ok_iff (hfile : s.files p = some file) (hdata : data.length = n) :
    (s.readBlock config p offset n).1 = .ok data ↔
      s.Serves config p offset n file ∧ requested file offset n = data := by
  rw [DiskState.readBlock_fst hfile, DiskState.Serves]
  cases s.mappedSize config p file with
  | some size =>
    dsimp only
    rw [Except.ok.injEq]
    constructor
    · intro h
      have hlength := congrArg List.length h
      rw [DiskState.length_requested, List.length_take, hdata] at hlength
      have hserves : n = 0 ∨ file.length ≤ offset ∨ min file.length (offset + n) ≤ size := by
        omega
      exact ⟨hserves, (DiskState.requested_take_iff.mpr hserves).symm.trans h⟩
    · rintro ⟨hserves, h⟩
      rw [DiskState.requested_take_iff.mpr hserves, h]
  | none =>
    dsimp only
    rw [Except.ok.injEq]
    constructor
    · intro h
      have hlength := congrArg List.length h
      rw [DiskState.length_requested, hdata] at hlength
      have hserves : file.length ≤ offset + n ∨ DiskState.readAhead config n ≤ n := by omega
      exact ⟨hserves, (DiskState.requested_max_iff.mpr hserves).symm.trans h⟩
    · rintro ⟨hserves, h⟩
      rw [DiskState.requested_max_iff.mpr hserves, h]

theorem readSegment_eq_some_iff (hlength : (r.call.length : Int) = r.read_len) :
    (readSegment config s r).1 = some data ↔
      (s.readBlock config r.call.file_path r.call.offset r.call.length).1 = .ok data ∧
        data.length = r.call.length := by
  rw [readSegment]
  split
  · next chunk _ h =>
    rw [h]
    simp only [Except.ok.injEq, ← hlength, ne_eq, Nat.cast_inj, ite_not,
      Option.ite_none_right_eq_some, Option.some.injEq]
    constructor
    · rintro ⟨hchunk, rfl⟩
      exact ⟨rfl, hchunk⟩
    · rintro ⟨rfl, hchunk⟩
      exact ⟨hchunk, rfl⟩
  · next h =>
    rw [h]
    exact iff_of_false (fun h => by cases h) fun h => by cases h.1

variable (htotal : t.totalLength = (t.files.map FileInfo.length).sum)
  (hnum : (t.numPieces : Int) = (t.totalLength + t.pieceLength - 1) / t.pieceLength)

include htotal hnum in
/-- The file of a segment has, from the offset of the segment on, what is in the torrent at the
place of the segment. -/
theorem HoldsFiles.segment (h : HoldsFiles t output_dir content s) (hi : i < t.numPieces)
    (hseg : seg ∈ pieceSegments t output_dir i) :
    0 ≤ seg.start_offset ∧ 0 ≤ seg.piece_offset ∧
      ∃ file, s.files (purePath seg.file_path) = some file ∧ ∀ (x : Int) (n : Nat),
        seg.piece_offset ≤ x → x + n ≤ seg.piece_offset + (seg.end_offset - seg.start_offset) →
          requested file (seg.start_offset + (x - seg.piece_offset)).toNat n =
            span content (pieceStart t i + x) (pieceStart t i + x + n) := by
  obtain ⟨j, f, part, hf, hpart, rfl⟩ := (mem_pieceSegments htotal hnum hi).mp hseg
  obtain ⟨hpad, hlt, rfl⟩ := overlapSegment_eq_some.mp hpart
  have hbefore := lengthBefore_nonneg (t := t) j
  have hpath : (segmentOf t output_dir i ⟨j, max (pieceStart t i) (lengthBefore t.files j) -
      lengthBefore t.files j, min (pieceEnd t i) (lengthBefore t.files j + f.length) -
        max (pieceStart t i) (lengthBefore t.files j)⟩).file_path = filePath t output_dir f := by
    rw [segmentOf, hf, Option.map_some, Option.getD_some]
  rw [hpath]
  simp only [segmentOf]
  refine ⟨by omega, by omega, _, h.files j f hf hpad, fun x n hx hn => ?_⟩
  rw [requested_span hbefore (by omega)]
  congr 1
  · omega
  · omega

variable (output_dir) in
include htotal hnum in
/-- Every octet of the range lies in a segment of the piece. -/
theorem InPiece.covered {begin length : Nat} (h : InPiece t i begin length) (x : Int)
    (hx : (begin : Int) ≤ x) (hx' : x < begin + length) :
    ∃ seg ∈ pieceSegments t output_dir i, Covers seg x := by
  have hinside := h.inside
  obtain ⟨j, f, hf, hpad, hle, hlt⟩ := h.no_padding (pieceStart t i + x) (by omega) (by omega)
  have hstart : max (pieceStart t i) (lengthBefore t.files j) <
      min (pieceEnd t i) (lengthBefore t.files j + f.length) := by omega
  refine ⟨_, (mem_pieceSegments htotal hnum h.piece).mpr
    ⟨j, f, _, hf, overlapSegment_eq_some.mpr ⟨hpad, hstart, rfl⟩, rfl⟩, ?_⟩
  rw [Covers]
  simp only [segmentOf]
  omega

end Content

section Exactness

variable {t : TorrentInfo} {output_dir : Str} {config : DiskConfig}
  {read_parallel_segments : Bool} {s : DiskState PurePath} {content file : Bytes}
  {i begin length : Nat} {lo hi : Int} {seg : FileSegment} {segments : List FileSegment}
  {r : SegmentRead} {reads : List SegmentRead}

/-- The octets of the torrent that a part stands for. -/
def partData (t : TorrentInfo) (content : Bytes) (piece_index : Nat) (r : SegmentRead) : Bytes :=
  span content (pieceStart t piece_index + r.overlap_start)
    (pieceStart t piece_index + r.overlap_end)

theorem Fill.le (h : Fill lo hi reads) : lo ≤ hi := by
  induction reads generalizing lo with
  | nil => exact h.le
  | cons r reads ih =>
    obtain ⟨-, hlt, hfill⟩ := h
    exact hlt.le.trans (ih hfill)

/-- The parts together are the range. -/
theorem Fill.flatten (h : Fill lo hi reads) (hlo : 0 ≤ pieceStart t i + lo) :
    (reads.map (partData t content i)).flatten =
      span content (pieceStart t i + lo) (pieceStart t i + hi) := by
  induction reads generalizing lo with
  | nil =>
    obtain rfl : lo = hi := h
    rw [span, sub_self, Int.toNat_zero, List.take_zero]
    rfl
  | cons r reads ih =>
    obtain ⟨rfl, hlt, hfill⟩ := h
    have hle := hfill.le
    rw [List.map_cons, List.flatten_cons, ih hfill (by omega), partData,
      span_append hlo (by omega) (by omega)]

/-- The disk manager serves the part as it has been asked for. -/
def Served (config : DiskConfig) (s : DiskState PurePath) (r : SegmentRead) : Prop :=
  ∀ file, s.files r.call.file_path = some file →
    s.Serves config r.call.file_path r.call.offset r.call.length file

/-- The block is the one of the torrent, and the wait for it ends in every order of turns. -/
def ReadsBack (config : DiskConfig) (t : TorrentInfo) (output_dir : Str)
    (read_parallel_segments : Bool) (s : DiskState PurePath) (content : Bytes)
    (piece_index begin length : Nat) : Prop :=
  ReadsComplete config s (gathered t output_dir read_parallel_segments piece_index begin length) ∧
    (readBlock config t output_dir read_parallel_segments s piece_index begin length).1 =
      some (span content (pieceStart t piece_index + begin)
        (pieceStart t piece_index + begin + length))

/-- When a block comes back. A piece with one segment: the read at the offset of the segment is
served, and the file has the same octets there as where the block is. A piece with more: every part
is served, and with parallel reads no mapping is used or there is one part only. -/
def Servable (config : DiskConfig) (t : TorrentInfo) (output_dir : Str)
    (read_parallel_segments : Bool) (s : DiskState PurePath)
    (piece_index begin length : Nat) : Prop :=
  match pieceSegments t output_dir piece_index with
  | [] => False
  | [seg] => ∀ file, s.files (purePath seg.file_path) = some file →
      s.Serves config (purePath seg.file_path) (seg.start_offset + begin).toNat length file ∧
        requested file (seg.start_offset + begin).toNat length =
          requested file (seg.start_offset + (begin - seg.piece_offset)).toNat length
  | segments =>
    let reads := segments.filterMap (overlapRead begin (begin + length))
    (∀ r ∈ reads, Served config s r) ∧ (read_parallel_segments = true →
      config.use_mmap = false ∨ reads.length ≤ 1 ∨ ∀ r ∈ reads, ¬s.Mapped r.call.file_path)

variable (htotal : t.totalLength = (t.files.map FileInfo.length).sum)
  (hnum : (t.numPieces : Int) = (t.totalLength + t.pieceLength - 1) / t.pieceLength)

theorem InPiece.length_span (hin : InPiece t i begin length)
    (hold : HoldsFiles t output_dir content s) (hlo : (begin : Int) ≤ lo) (hle : lo ≤ hi)
    (hhi : hi ≤ begin + length) :
    (span content (pieceStart t i + lo) (pieceStart t i + hi)).length = (hi - lo).toNat := by
  have hinside := hin.inside
  have hstart := pieceStart_nonneg (t := t) (i := i)
  have hend : pieceEnd t i ≤ t.totalLength := min_le_right _ _
  have hcontent := hold.length
  rw [Storage.length_span (by omega) (by omega)]
  omega

include htotal hnum in
/-- What a part is asked for is what it stands for. -/
theorem HoldsFiles.part (hold : HoldsFiles t output_dir content s) (hin : InPiece t i begin length)
    (hseg : seg ∈ pieceSegments t output_dir i)
    (hread : overlapRead begin (begin + length) seg = some r) :
    (r.call.length : Int) = r.read_len ∧ (partData t content i r).length = r.call.length ∧
      ∃ file, s.files r.call.file_path = some file ∧
        requested file r.call.offset r.call.length = partData t content i r := by
  obtain ⟨hstart, hoffset, file, hfile, hrange⟩ := hold.segment htotal hnum hin.piece hseg
  obtain ⟨hlt, rfl⟩ := overlapRead_eq_some.mp hread
  refine ⟨?_, ?_, file, hfile, ?_⟩
  · dsimp only [SegmentRead.call]
    omega
  · rw [partData, hin.length_span hold (le_max_left _ _) hlt.le (min_le_left _ _)]
    rfl
  · dsimp only [SegmentRead.call]
    rw [hrange _ _ (le_max_right _ _) (by omega), partData]
    dsimp only
    congr 1
    omega

include htotal hnum in
/-- A part comes out right exactly if it is served, and otherwise it does not come out. -/
theorem HoldsFiles.readSegment_iff (hold : HoldsFiles t output_dir content s)
    (hin : InPiece t i begin length) (hseg : seg ∈ pieceSegments t output_dir i)
    (hread : overlapRead begin (begin + length) seg = some r) :
    (Served config s r → (readSegment config s r).1 = some (partData t content i r)) ∧
      ((readSegment config s r).1.isSome → Served config s r) := by
  obtain ⟨hlength, hdata, file, hfile, hpart⟩ := hold.part htotal hnum hin hseg hread
  constructor
  · intro hserved
    exact (readSegment_eq_some_iff hlength).mpr
      ⟨(readBlock_eq_ok_iff hfile hdata).mpr ⟨hserved file hfile, hpart⟩, hdata⟩
  · intro hsome file' hfile'
    obtain ⟨chunk, hchunk⟩ := Option.isSome_iff_exists.mp hsome
    obtain ⟨hblock, hchunk⟩ := (readSegment_eq_some_iff hlength).mp hchunk
    exact ((readBlock_eq_ok_iff hfile' hchunk).mp hblock).1

variable (config) in
include htotal hnum in
/-- All parts come out right together exactly if every one of them is served. -/
theorem HoldsFiles.parts_iff (hold : HoldsFiles t output_dir content s)
    (hin : InPiece t i begin length) :
    (((pieceSegments t output_dir i).filterMap (overlapRead begin (begin + length))).mapM
        (fun r => (readSegment config s r).1)).map List.flatten =
        some (span content (pieceStart t i + begin) (pieceStart t i + begin + length)) ↔
      ∀ r ∈ (pieceSegments t output_dir i).filterMap (overlapRead begin (begin + length)),
        Served config s r := by
  have hfill := (segmentsToRead_eq (ascending_pieceSegments htotal hnum hin.piece)
    (Int.natCast_nonneg length) (hin.covered output_dir htotal hnum)).2
  have hpart : ∀ r ∈ (pieceSegments t output_dir i).filterMap
      (overlapRead begin (begin + length)),
        (Served config s r → (readSegment config s r).1 = some (partData t content i r)) ∧
          ((readSegment config s r).1.isSome → Served config s r) := by
    intro r hr
    obtain ⟨seg, hseg, hread⟩ := List.mem_filterMap.mp hr
    exact hold.readSegment_iff htotal hnum hin hseg hread
  have hstart := pieceStart_nonneg (t := t) (i := i)
  generalize (pieceSegments t output_dir i).filterMap (overlapRead begin (begin + length)) = reads
    at hfill hpart ⊢
  constructor
  · intro h r hr
    obtain ⟨parts, hparts, -⟩ := Option.map_eq_some_iff.mp h
    by_contra hserved
    have hnone : (readSegment config s r).1 = none :=
      Option.not_isSome_iff_eq_none.mp fun hsome => hserved ((hpart r hr).2 hsome)
    rw [mapM_option_eq_none hr hnone] at hparts
    cases hparts
  · intro hserved
    have hall : reads.mapM (fun r => (readSegment config s r).1) =
        some (reads.map (partData t content i)) :=
      mapM_option_eq_some fun r hr => (hpart r hr).1 (hserved r hr)
    rw [hall, Option.map_some, hfill.flatten (by omega), ← add_assoc]

include htotal hnum in
theorem HoldsFiles.filesExist (hold : HoldsFiles t output_dir content s)
    (hin : InPiece t i begin length) : FilesExist s
      ((pieceSegments t output_dir i).filterMap (overlapRead begin (begin + length))) := by
  intro r hr
  obtain ⟨seg, hseg, hread⟩ := List.mem_filterMap.mp hr
  obtain ⟨-, -, file, hfile, -⟩ := hold.part htotal hnum hin hseg hread
  exact ⟨file, hfile⟩

include htotal hnum in
/-- A piece with several segments. -/
theorem readsBack_many {a b : FileSegment} (hold : HoldsFiles t output_dir content s)
    (hin : InPiece t i begin length) (hseg : pieceSegments t output_dir i = a :: b :: segments) :
    ReadsBack config t output_dir read_parallel_segments s content i begin length ↔
      Servable config t output_dir read_parallel_segments s i begin length := by
  obtain ⟨hloop, hfill⟩ := segmentsToRead_eq (ascending_pieceSegments htotal hnum hin.piece)
    (Int.natCast_nonneg length) (hin.covered output_dir htotal hnum)
  have hsorted : sortOn FileSegment.piece_offset (pieceSegments t output_dir i) =
      pieceSegments t output_dir i := by
    refine sortOn_eq_self _ ((ascending_pieceSegments htotal hnum hin.piece).imp_of_mem ?_)
    intro a b ha hb hab
    obtain ⟨_, _, _, _, hs, rfl⟩ := (mem_pieceSegments htotal hnum hin.piece).mp ha
    obtain ⟨-, hlt, rfl⟩ := overlapSegment_eq_some.mp hs
    simp only [segmentOf] at hab ⊢
    omega
  have hfiles := hold.filesExist htotal hnum hin
  have hparts := hold.parts_iff config htotal hnum hin
  rw [ReadsBack, Servable, gathered, readBlock, if_neg (Nat.not_le.mpr hin.piece)]
  rw [hseg] at hloop hfill hsorted hfiles hparts ⊢
  dsimp only
  rw [hsorted, hloop]
  dsimp only
  rw [if_neg (not_not_intro rfl), readParts_fst hfiles hfill, hparts, complete_gatherReads_iff,
    and_comm]
  refine and_congr_right fun _ => ?_
  split
  · next hpar =>
    rw [List.length_map, List.forall_mem_map, forall_prop_of_true hpar.1]
  · next hpar =>
    refine iff_of_true (.inr (.inl (Nat.zero_le 1))) fun hpar' => .inr (.inl ?_)
    exact Nat.not_lt.mp fun hlt => hpar ⟨hpar', hlt⟩

include htotal hnum in
/-- A piece with one segment. -/
theorem readsBack_one (hold : HoldsFiles t output_dir content s) (hin : InPiece t i begin length)
    (hseg : pieceSegments t output_dir i = [seg]) :
    ReadsBack config t output_dir read_parallel_segments s content i begin length ↔
      Servable config t output_dir read_parallel_segments s i begin length := by
  have hmem : seg ∈ pieceSegments t output_dir i := by
    rw [hseg]
    exact List.mem_singleton_self seg
  obtain ⟨hstart, hoffset, file, hfile, hrange⟩ := hold.segment htotal hnum hin.piece hmem
  -- what the block should be stands in the file where the segment says
  have hblock : requested file (seg.start_offset + (begin - seg.piece_offset)).toNat length =
      span content (pieceStart t i + begin) (pieceStart t i + begin + length) := by
    by_cases hzero : length = 0
    · rw [hzero, requested, span, List.take_zero, Int.natCast_zero, add_zero, sub_self,
        Int.toNat_zero, List.take_zero]
    · have hcovers : ∀ x : Int, begin ≤ x → x < begin + length → Covers seg x := by
        intro x hx hx'
        obtain ⟨seg', hmem', hin'⟩ := hin.covered output_dir htotal hnum x hx hx'
        rw [hseg, List.mem_singleton] at hmem'
        rwa [← hmem']
      have hfirst := (hcovers begin le_rfl (by omega)).1
      have hlast := (hcovers (begin + length - 1) (by omega) (by omega)).2
      exact hrange begin length hfirst (by omega)
  have hlength : (span content (pieceStart t i + begin)
      (pieceStart t i + begin + length)).length = length := by
    have hspan := hin.length_span hold (le_refl (begin : Int)) (by omega) (le_refl _)
    rw [← add_assoc] at hspan
    omega
  have hread : ∀ x, (match x with
      | (.ok data, s) => (some data, s)
      | (.error _, s) => (none, s) : Option Bytes × DiskState PurePath).1 =
        some (span content (pieceStart t i + begin) (pieceStart t i + begin + length)) ↔
      (x : Except ReadError Bytes × DiskState PurePath).1 =
        .ok (span content (pieceStart t i + begin) (pieceStart t i + begin + length)) := by
    rintro ⟨_ | data, s⟩
    · exact iff_of_false (fun h => by cases h) fun h => by cases h
    · dsimp only
      rw [Option.some.injEq, Except.ok.injEq]
  have hcomplete : ReadsComplete config s
      (gathered t output_dir read_parallel_segments i begin length) := by
    rw [gathered, hseg, complete_gatherReads_iff]
    exact .inr (.inl (Nat.zero_le 1))
  rw [ReadsBack, and_iff_right hcomplete, readBlock, if_neg (Nat.not_le.mpr hin.piece), Servable,
    hseg]
  dsimp only
  rw [hread, readBlock_eq_ok_iff hfile hlength, ← hblock]
  constructor
  · intro h file' hfile'
    rwa [← Option.some.inj (hfile.symm.trans hfile')]
  · intro h
    exact h file hfile

include htotal hnum in
/-- A block comes back as it is in the torrent exactly if the piece has segments and the block can
be served from where they are read. -/
theorem readsBack_iff (hold : HoldsFiles t output_dir content s)
    (hin : InPiece t i begin length) :
    ReadsBack config t output_dir read_parallel_segments s content i begin length ↔
      Servable config t output_dir read_parallel_segments s i begin length := by
  cases hseg : pieceSegments t output_dir i with
  | nil =>
    rw [ReadsBack, readBlock, Servable, hseg, if_neg (Nat.not_le.mpr hin.piece)]
    exact iff_of_false (fun h => by cases h.2) id
  | cons seg segments =>
    cases segments with
    | nil => exact readsBack_one htotal hnum hold hin hseg
    | cons seg' segments => exact readsBack_many htotal hnum hold hin hseg


/-- Two octets of padding and a file of six, in one piece. -/
def paddedStart : TorrentInfo :=
  plainTorrent [plainFile 2 (some ['p']), plainFile 6 none] 8 (Int.natCast_succ_pos 7)

/-- A disk with one file. -/
def oneFile (path : Str) (file : Bytes) : DiskState PurePath where
  files p := if p = purePath path then some file else none
  mappable _ := true
  mmap_cache := .empty
  read_patterns := .empty

theorem paddedStart_holdsFiles : HoldsFiles paddedStart "out".toList [0, 0, 1, 2, 3, 4, 5, 6]
    (oneFile "out/f".toList [1, 2, 3, 4, 5, 6]) where
  length := by decide
  files j f hf hpad := by
    match j with
    | 0 =>
      cases hf
      exact absurd hpad (by decide)
    | 1 =>
      cases hf
      decide +kernel
    | n + 2 => cases hf

theorem paddedStart_inPiece : InPiece paddedStart 0 2 3 where
  piece := by decide
  inside := by decide
  no_padding x hx hx' := by
    have hstart : pieceStart paddedStart 0 = 0 := by decide
    have hbefore : lengthBefore paddedStart.files 1 = 2 := by decide
    have hlength : (plainFile 6 none).length = 6 := by decide
    refine ⟨1, plainFile 6 none, rfl, rfl, ?_, ?_⟩
    · omega
    · omega

theorem readsBack_paddedStart_iff :
    ReadsBack {} paddedStart "out".toList true (oneFile "out/f".toList [1, 2, 3, 4, 5, 6])
        [0, 0, 1, 2, 3, 4, 5, 6] 0 2 3 ↔
      Servable {} paddedStart "out".toList true (oneFile "out/f".toList [1, 2, 3, 4, 5, 6]) 0 2 3 :=
  readsBack_iff (by decide) (by decide) paddedStart_holdsFiles paddedStart_inPiece

/-- Three octets from the beginning of the file are asked for, and those behind the first two come
back. -/
theorem paddedStart_not_readsBack :
    let s := oneFile "out/f".toList [1, 2, 3, 4, 5, 6]
    HoldsFiles paddedStart "out".toList [0, 0, 1, 2, 3, 4, 5, 6] s ∧ InPiece paddedStart 0 2 3 ∧
      (readBlock {} paddedStart "out".toList true s 0 2 3).1 = some [3, 4, 5] ∧
      ¬ReadsBack {} paddedStart "out".toList true s [0, 0, 1, 2, 3, 4, 5, 6] 0 2 3 := by
  have hread : (readBlock {} paddedStart "out".toList true
      (oneFile "out/f".toList [1, 2, 3, 4, 5, 6]) 0 2 3).1 = some [3, 4, 5] := by
    decide +kernel
  refine ⟨paddedStart_holdsFiles, paddedStart_inPiece, hread, fun h => ?_⟩
  have hback := h.2
  rw [hread] at hback
  exact absurd hback (by decide)

end Exactness

end Assembler

end Storage

end Ccbt
