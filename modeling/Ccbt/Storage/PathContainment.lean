import Ccbt.Core.TorrentV2.Hybrid
import Ccbt.Core.TorrentV2.PieceCount
import Ccbt.Python.NormPath
import Ccbt.Storage.FileSegments

/-!
# Where the files of a torrent are stored

The assembler joins the output directory with the path of a file as the torrent has it. The
names in it are whatever the torrent says, so the file stays below the directory only if its
path is relative, does not climb, and does not end where it starts.
-/

namespace Ccbt

open Python Torrent TorrentV2 Piece Piece.PieceToFileMapper

namespace Storage

/-- The path of a file in the torrent, as it is joined with the output directory. -/
def writtenName (t : TorrentInfo) (f : FileInfo) : Str :=
  if t.files.length = 1 then f.name else fullPathOrName f

/-- Whatever the output directory is, the files are below it, each in its own place. -/
structure StaysInside (t : TorrentInfo) : Prop where
  inside : ∀ output_dir, ∀ seg ∈ buildFileSegments t output_dir,
    StrictlyInside output_dir seg.file_path
  apart : ∀ output_dir (j j' : Nat) f f', t.files[j]? = some f → t.files[j']? = some f' →
    f.isPadding = false → f'.isPadding = false → j ≠ j' →
      normpath (filePath t output_dir f) ≠ normpath (filePath t output_dir f')

/-- A relative path that never climbs above its start and ends below it. -/
def Descends (name : Str) : Prop :=
  (place name).root = 0 ∧ (place name).ups = 0 ∧ (place name).names ≠ []

/-- Joined with one directory, two paths can lead to the same place. -/
def CanMeet (p q : Place) : Prop :=
  if p.root = 0 then
    if q.root = 0 then p.MeetsBelow q ∨ q.MeetsBelow p else p.names <:+ q.names
  else if q.root = 0 then q.names <:+ p.names
  else p = q

instance (name : Str) : Decidable (Descends name) := inferInstanceAs (Decidable (_ ∧ _))

instance (p q : Place) : Decidable (CanMeet p q) :=
  inferInstanceAs (Decidable (if p.root = 0 then if q.root = 0 then _ else _ else
    if q.root = 0 then _ else _))

/-- The file has octets in a piece; a single file is written whenever there are pieces. -/
def HasPiece (t : TorrentInfo) (j : Nat) (f : FileInfo) : Prop :=
  if t.files.length = 1 then 0 < t.numPieces
  else 0 < f.length ∧ lengthBefore t.files j < t.numPieces * t.pieceLength

/-- The files that are written descend, and no two files can meet. -/
structure SafeNames (t : TorrentInfo) : Prop where
  descends : ∀ j f, t.files[j]? = some f → f.isPadding = false → HasPiece t j f →
    Descends (writtenName t f)
  apart : ∀ (j j' : Nat) f f', t.files[j]? = some f → t.files[j']? = some f' →
    f.isPadding = false → f'.isPadding = false → j ≠ j' →
      ¬CanMeet (place (writtenName t f)) (place (writtenName t f'))

section Join

variable {output_dir name name' : Str}

theorem root_place_eq_zero_iff : (place name).root = 0 ↔ name.head? ≠ some '/' := by
  rw [root_place, initialSlashes, ← List.head?_eq_getElem?]
  by_cases h : name.head? = some '/'
  · rw [if_neg (not_not.mpr h)]
    split <;> simp [h]
  · rw [if_pos h]
    simp [h]

theorem place_eq_placeFrom (h : (place name).root = 0) :
    place name = placeFrom ⟨0, 0, []⟩ name := by
  rw [root_place] at h
  rw [place, h]

/-- A relative path is followed from the directory. -/
theorem place_pathJoin_of_relative (output_dir : Str) (h : (place name).root = 0) :
    place (pathJoin output_dir name) = (place output_dir).follow (place name) := by
  have hhead := root_place_eq_zero_iff.mp h
  have hfollow := placeFrom_eq_follow (place output_dir) name
  rw [← place_eq_placeFrom h] at hfollow
  rw [pathJoin, if_neg hhead, ← hfollow]
  by_cases hempty : output_dir = []
  · rw [hempty, if_pos (by simp), List.nil_append, place_eq_placeFrom h]
    rfl
  · by_cases hlast : output_dir.getLast? = some '/'
    · rw [if_pos (by simp [hlast]), place_append hlast hhead]
    · rw [if_neg (by simp [hempty, hlast]), place_append_slash hempty hlast]

/-- An absolute path takes no notice of the directory. -/
theorem pathJoin_of_absolute (output_dir : Str) (h : (place name).root ≠ 0) :
    pathJoin output_dir name = name := by
  rw [pathJoin, if_pos]
  by_contra hhead
  exact h (root_place_eq_zero_iff.mpr hhead)

theorem root_place_cases (h : (place name).root ≠ 0) :
    (place name).root = 1 ∨ (place name).root = 2 := by
  rw [root_place, initialSlashes] at h ⊢
  split_ifs at h ⊢ <;> simp_all

/-- A path stays below every directory exactly if it descends. -/
theorem forall_strictlyInside_iff :
    (∀ output_dir, StrictlyInside output_dir (pathJoin output_dir name)) ↔ Descends name := by
  constructor
  · intro h
    -- below the current directory nothing else is left of the path
    have hdot : place ['.'] = ⟨0, 0, []⟩ := by decide
    obtain ⟨hroot, hups, rest, hrest, hnames⟩ := strictlyInside_iff.mp (h ['.'])
    have hrelative : (place name).root = 0 := by
      by_contra habs
      rw [pathJoin_of_absolute _ habs, hdot] at hroot
      exact habs hroot
    rw [place_pathJoin_of_relative _ hrelative, hdot] at hups hnames
    refine ⟨hrelative, ?_, ?_⟩
    · simpa [Place.follow] using hups
    · have heq : (place name).names = rest := by simpa [Place.follow] using hnames
      rwa [heq]
  · rintro ⟨hroot, hups, hnames⟩ output_dir
    rw [strictlyInside_iff, place_pathJoin_of_relative _ hroot]
    refine ⟨rfl, ?_, (place name).names, hnames, ?_⟩
    · rw [Place.follow, hups, Nat.zero_sub, Nat.add_zero, ite_self]
    · rw [Place.follow, hups, Nat.sub_zero, List.take_length]

end Join

section Meet

variable {name name' : Str}

/-- The join of a directory with a relative and with an absolute path. -/
theorem exists_place_eq_absolute_iff (hname : (place name).root = 0)
    (hname' : (place name').root ≠ 0) :
    (∃ output_dir, place (pathJoin output_dir name) = place (pathJoin output_dir name')) ↔
      (place name).names <:+ (place name').names := by
  constructor
  · rintro ⟨output_dir, heq⟩
    rw [place_pathJoin_of_relative _ hname, pathJoin_of_absolute _ hname'] at heq
    exact ⟨_, congrArg Place.names heq⟩
  · intro h
    obtain ⟨names, hnames, hfollow⟩ :=
      Place.exists_follow_eq_of_root (proper_place name') hname' h
    refine ⟨List.replicate (place name').root '/' ++ joinSlash names, ?_⟩
    rw [place_pathJoin_of_relative _ hname, pathJoin_of_absolute _ hname',
      place_of_root (root_place_cases hname') hnames, hfollow]

/-- Two paths come to the same place from some directory exactly if they can meet. -/
theorem exists_place_eq_iff :
    (∃ output_dir, place (pathJoin output_dir name) = place (pathJoin output_dir name')) ↔
      CanMeet (place name) (place name') := by
  by_cases hname : (place name).root = 0
  · by_cases hname' : (place name').root = 0
    · rw [CanMeet, if_pos hname, if_pos hname']
      constructor
      · rintro ⟨output_dir, heq⟩
        rw [place_pathJoin_of_relative _ hname, place_pathJoin_of_relative _ hname'] at heq
        exact Place.follow_eq_cases heq
      · intro h
        obtain ⟨names, hnames, hfollow⟩ : ∃ names, (∀ name ∈ names, IsName name) ∧
            (⟨1, 0, names⟩ : Place).follow (place name) =
              (⟨1, 0, names⟩ : Place).follow (place name') := by
          rcases h with h | h
          · exact Place.exists_follow_eq (proper_place name') h
          · obtain ⟨names, hnames, hfollow⟩ := Place.exists_follow_eq (proper_place name) h
            exact ⟨names, hnames, hfollow.symm⟩
        refine ⟨List.replicate 1 '/' ++ joinSlash names, ?_⟩
        rw [place_pathJoin_of_relative _ hname, place_pathJoin_of_relative _ hname',
          place_of_root (Or.inl rfl) hnames, hfollow]
    · rw [exists_place_eq_absolute_iff hname hname', CanMeet, if_pos hname, if_neg hname']
  · by_cases hname' : (place name').root = 0
    · have hiff := exists_place_eq_absolute_iff hname' hname
      simp only [eq_comm (b := place (pathJoin _ name))] at hiff
      rw [hiff, CanMeet, if_neg hname, if_pos hname']
    · simp only [pathJoin_of_absolute _ hname, pathJoin_of_absolute _ hname', exists_const, CanMeet,
        if_neg hname, if_neg hname']

end Meet

section Segments

variable {t : TorrentInfo} {output_dir path : Str} {f : FileInfo} {j : Nat}

theorem filePath_eq (t : TorrentInfo) (output_dir : Str) (f : FileInfo) :
    filePath t output_dir f = pathJoin output_dir (writtenName t f) := rfl

variable (htotal : t.totalLength = (t.files.map FileInfo.length).sum)

include htotal in
/-- A file has octets in a piece if it has one and begins before the end of the pieces. -/
theorem exists_overlapSegment_iff (hfile : t.files[j]? = some f) (hpad : f.isPadding = false) :
    (∃ i < t.numPieces, ∃ s, overlapSegment (pieceStart t i) (pieceEnd t i) j
      (lengthBefore t.files j) f = some s) ↔
        0 < f.length ∧ lengthBefore t.files j < t.numPieces * t.pieceLength := by
  have hpos := t.pieceLength_pos
  have hend := lengthBefore_add_le htotal hfile
  have hbefore := lengthBefore_nonneg (t := t) j
  constructor
  · rintro ⟨i, hi, s, hs⟩
    obtain ⟨-, hmeet, -⟩ := overlapSegment_eq_some.mp hs
    have hle : ((i : Int) + 1) * t.pieceLength ≤ t.numPieces * t.pieceLength :=
      Int.mul_le_mul_of_nonneg_right (by omega) hpos.le
    rw [add_mul, one_mul] at hle
    unfold pieceEnd pieceStart at hmeet
    omega
  · rintro ⟨hlength, hlt⟩
    have hdiv := Int.ediv_mul_le (lengthBefore t.files j) hpos.ne'
    have hmod := Int.lt_ediv_add_one_mul_self (lengthBefore t.files j) hpos
    rw [add_mul, one_mul] at hmod
    have hq : 0 ≤ lengthBefore t.files j / t.pieceLength := Int.ediv_nonneg hbefore hpos.le
    have hcast : ((lengthBefore t.files j / t.pieceLength).toNat : Int) =
        lengthBefore t.files j / t.pieceLength := Int.toNat_of_nonneg hq
    have hpiece : lengthBefore t.files j / t.pieceLength < t.numPieces :=
      Int.ediv_lt_of_lt_mul hpos hlt
    refine ⟨(lengthBefore t.files j / t.pieceLength).toNat, by omega, _,
      overlapSegment_eq_some.mpr ⟨hpad, ?_, rfl⟩⟩
    unfold pieceEnd pieceStart
    rw [hcast]
    omega

theorem file_path_of_mem_singleLoop {n c : Nat} {o : Int} {seg : FileSegment}
    (h : seg ∈ singleLoop t path n c o) : seg.file_path = path := by
  induction n generalizing c o with
  | zero => exact absurd h List.not_mem_nil
  | succ n ih =>
    rw [singleLoop] at h
    rcases List.mem_cons.mp h with rfl | h
    · rfl
    · exact ih h

/-- A single file is in every segment. -/
theorem exists_segment_of_single (hfiles : t.files = [f]) :
    (∃ seg ∈ buildFileSegments t output_dir, seg.file_path = path) ↔
      f.isPadding = false ∧ 0 < t.numPieces ∧ filePath t output_dir f = path := by
  by_cases hpad : f.isPadding = true
  · rw [buildFileSegments_of_padding hfiles hpad, hpad]
    simp
  · rw [Bool.not_eq_true] at hpad
    rw [buildFileSegments_of_single hfiles hpad]
    constructor
    · rintro ⟨seg, hseg, hpath⟩
      refine ⟨hpad, ?_, (file_path_of_mem_singleLoop hseg).symm.trans hpath⟩
      by_contra hzero
      rw [Nat.eq_zero_of_not_pos hzero] at hseg
      exact absurd hseg List.not_mem_nil
    · rintro ⟨-, hpos, rfl⟩
      obtain ⟨n, hn⟩ : ∃ n, t.numPieces = n + 1 := ⟨t.numPieces - 1, by omega⟩
      rw [hn]
      exact ⟨_, List.mem_cons_self, rfl⟩

/-- Of several files each is in the segments for its parts in the pieces. -/
theorem exists_segment_of_many (hone : t.files.length ≠ 1) :
    (∃ seg ∈ buildFileSegments t output_dir, seg.file_path = path) ↔
      ∃ j f, t.files[j]? = some f ∧ filePath t output_dir f = path ∧
        ∃ i < t.numPieces, ∃ s, overlapSegment (pieceStart t i) (pieceEnd t i) j
          (lengthBefore t.files j) f = some s := by
  rw [buildFileSegments_of_many hone]
  simp only [List.mem_map, pairsFrom_perm.mem_iff, List.mem_flatMap, List.mem_range]
  constructor
  · rintro ⟨seg, ⟨p, ⟨i, hi, s, hs, rfl⟩, rfl⟩, hpath⟩
    obtain ⟨j, f, hfile, hoverlap⟩ := mem_segmentsFrom.mp hs
    rw [Nat.zero_add, zero_add] at hoverlap
    refine ⟨j, f, hfile, ?_, i, hi, s, hoverlap⟩
    obtain ⟨-, -, rfl⟩ := overlapSegment_eq_some.mp hoverlap
    simpa [segmentOf, hfile] using hpath
  · rintro ⟨j, f, hfile, hpath, i, hi, s, hs⟩
    refine ⟨_, ⟨(i, s), ⟨i, hi, s, mem_segmentsFrom.mpr ⟨j, f, hfile, ?_⟩, rfl⟩, rfl⟩, ?_⟩
    · rwa [Nat.zero_add, zero_add]
    · obtain ⟨-, -, rfl⟩ := overlapSegment_eq_some.mp hs
      simpa [segmentOf, hfile] using hpath

include htotal in
/-- The paths in the segments are those of the files that have a piece. -/
theorem exists_segment_iff : (∃ seg ∈ buildFileSegments t output_dir, seg.file_path = path) ↔
    ∃ j f, t.files[j]? = some f ∧ f.isPadding = false ∧ HasPiece t j f ∧
      filePath t output_dir f = path := by
  by_cases hone : t.files.length = 1
  · obtain ⟨g, hg⟩ := List.length_eq_one_iff.mp hone
    simp only [exists_segment_of_single hg, HasPiece, if_pos hone]
    constructor
    · rintro ⟨hpad, hpos, hpath⟩
      exact ⟨0, g, by rw [hg]; rfl, hpad, hpos, hpath⟩
    · rintro ⟨j, f, hfile, hpad, hpos, hpath⟩
      have hmem := List.mem_of_getElem? hfile
      rw [hg] at hmem
      rw [List.mem_singleton.mp hmem] at hpad hpath
      exact ⟨hpad, hpos, hpath⟩
  · simp only [exists_segment_of_many hone, HasPiece, if_neg hone]
    constructor
    · rintro ⟨j, f, hfile, hpath, hpiece⟩
      obtain ⟨i, hi, s, hs⟩ := hpiece
      have hpad := (overlapSegment_eq_some.mp hs).1
      exact ⟨j, f, hfile, hpad, (exists_overlapSegment_iff htotal hfile hpad).mp ⟨i, hi, s, hs⟩,
        hpath⟩
    · rintro ⟨j, f, hfile, hpad, hpiece, hpath⟩
      exact ⟨j, f, hfile, hpath, (exists_overlapSegment_iff htotal hfile hpad).mpr hpiece⟩

include htotal in
/-- A torrent whose length is that of its files. -/
theorem staysInside_iff_of_total : StaysInside t ↔ SafeNames t := by
  have hsegments : (∀ output_dir, ∀ seg ∈ buildFileSegments t output_dir,
      StrictlyInside output_dir seg.file_path) ↔
        ∀ j f, t.files[j]? = some f → f.isPadding = false → HasPiece t j f →
          Descends (writtenName t f) := by
    constructor
    · intro h j f hfile hpad hpiece
      refine forall_strictlyInside_iff.mp fun output_dir => ?_
      obtain ⟨seg, hseg, hpath⟩ :=
        (exists_segment_iff htotal).mpr ⟨j, f, hfile, hpad, hpiece, rfl⟩
      rw [← filePath_eq, ← hpath]
      exact h output_dir seg hseg
    · intro h output_dir seg hseg
      obtain ⟨j, f, hfile, hpad, hpiece, hpath⟩ := (exists_segment_iff htotal).mp ⟨seg, hseg, rfl⟩
      rw [← hpath, filePath_eq]
      exact forall_strictlyInside_iff.mpr (h j f hfile hpad hpiece) output_dir
  constructor
  · intro h
    refine ⟨hsegments.mp h.inside, fun j j' f f' hfile hfile' hpad hpad' hne hmeet => ?_⟩
    obtain ⟨output_dir, heq⟩ := exists_place_eq_iff.mpr hmeet
    exact h.apart output_dir j j' f f' hfile hfile' hpad hpad' hne (normpath_eq_iff.mpr heq)
  · intro h
    refine ⟨hsegments.mpr h.descends,
      fun output_dir j j' f f' hfile hfile' hpad hpad' hne heq => ?_⟩
    exact h.apart j j' f f' hfile hfile' hpad hpad' hne
      (exists_place_eq_iff.mp ⟨output_dir, normpath_eq_iff.mp heq⟩)

end Segments

section Parsed

variable {coerceInt : Bytes → Option Int} {interp : Interpreter} {n : Nat} {data info : PyDict}
  {t : TorrentInfo}

theorem total_of_parseV2 {v2 : TorrentV2Info} (h : parseV2 info data = .ok v2) :
    v2.totalLength = (v2.files.map FileInfo.length).sum := by
  obtain ⟨-, hextract, -⟩ := parseV2_parts h
  rw [(parseV2_counts h).1, (extractFilesOfChildren_total hextract).1]

/-- The length of a parsed torrent is that of its files. -/
theorem total_of_extractTorrentData {info' : PyDict}
    (h : TorrentV2.extractTorrentData coerceInt interp n data info = some (.ok t, info')) :
    t.totalLength = (t.files.map FileInfo.length).sum := by
  by_cases h3 : getKey info "meta version" = some (.int 3)
  · obtain ⟨v2, hv2, hfrom⟩ := (hybrid_spec h3).1 t info' h
    rw [hfrom.totalLength, hfrom.files, total_of_parseV2 hv2]
  · cases n with
    | zero =>
      rw [TorrentV2.extractTorrentData, noStack] at h
      split at h <;> cases h
    | succ n =>
      rw [TorrentV2.extractTorrentData] at h
      split at h
      · cases h
      · have hv1 : extractV1Data coerceInt info data = .ok t :=
          congrArg Prod.fst (Option.some.inj h)
        exact (carriesV1_of_extractV1Data hv1).totalLength
      · next version hversion =>
        split at h
        · next heq =>
          rw [heq] at hversion
          exact absurd (isV2_eq_three hversion) h3
        · split at h
          · cases h
          · next v2 hparse =>
            have hconvert : interp.eval .convert n (convert coerceInt version none v2) = .ok t :=
              congrArg Prod.fst (Option.some.inj h)
            obtain ⟨hfiles, htotal, -⟩ := convert_layout (Interpreter.eval_eq_ok hconvert)
            rw [htotal, hfiles, total_of_parseV2 (Interpreter.eval_eq_ok hparse)]

/-- The files of a parsed torrent stay below every output directory, each in its own place,
exactly if the paths of those that are written descend and no two paths can meet. -/
theorem staysInside_iff (h : parseTorrentData coerceInt interp n data = some (.ok t)) :
    StaysInside t ↔ SafeNames t := by
  rw [parseTorrentData] at h
  split at h
  · obtain ⟨⟨r, info'⟩, hextract, hr⟩ := Option.map_eq_some_iff.mp h
    obtain rfl : r = .ok t := hr
    exact staysInside_iff_of_total (total_of_extractTorrentData hextract)
  · cases h

end Parsed

/-! ### Torrents with given paths -/

section Paths

/-- A v1 torrent of one piece with files of one octet, given by the components of their paths. -/
def pathsTorrent (paths : List (List String)) : PyDict :=
  let file (path : List String) : PyObj := .dict [entry "length" (.int 1),
    entry "path" (.list (path.map fun part => .bytes (ascii part)))]
  [entry "announce" (.bytes []), entry "info" (.dict [entry "files" (.list (paths.map file)),
    entry "name" (.bytes (ascii "n")), entry "piece length" (.int 16384),
    entry "pieces" (.bytes (List.replicate 20 0))])]

/-- What is found to hold of a torrent that is parsed. -/
theorem exists_of_parseTorrentData (coerceInt : Bytes → Option Int) (data : PyDict)
    (P : TorrentInfo → Prop) [DecidablePred P]
    (h : ((parseTorrentData coerceInt .unlimited 1 data).bind Except.toOption).map
      (fun t => decide (P t)) = some true) :
    ∃ t, parseTorrentData coerceInt .unlimited 1 data = some (.ok t) ∧ P t := by
  obtain ⟨t, hparse, hP⟩ := Option.map_eq_some_iff.mp h
  obtain ⟨r, hr, ht⟩ := Option.bind_eq_some_iff.mp hparse
  cases r with
  | error e => cases ht
  | ok t' =>
    cases ht
    exact ⟨t, hr, of_decide_eq_true hP⟩

/-- A file and another one in a directory. -/
theorem staysInside_pathsTorrent : ∃ t,
    parseTorrentData (fun _ => none) .unlimited 1 (pathsTorrent [["x"], ["d", "y"]]) =
      some (.ok t) ∧ StaysInside t := by
  obtain ⟨t, hparse, hnames⟩ := exists_of_parseTorrentData (fun _ => none)
    (pathsTorrent [["x"], ["d", "y"]])
    (fun t => t.files.map (writtenName t) = ["x".toList, "d/y".toList]) (by decide +kernel)
  have hname {j : Nat} {f : FileInfo} (hfile : t.files[j]? = some f) :
      ["x".toList, "d/y".toList][j]? = some (writtenName t f) := by
    rw [← hnames, List.getElem?_map, hfile, Option.map_some]
  refine ⟨t, hparse, (staysInside_iff hparse).mpr ⟨fun j f hfile _ _ => ?_,
    fun j j' f f' hfile hfile' _ _ hne => ?_⟩⟩
  · match j, hname hfile with
    | 0, h | 1, h =>
      rw [← Option.some.inj h]
      decide
  · match j, j', hname hfile, hname hfile', hne with
    | 0, 1, h, h', _ | 1, 0, h, h', _ =>
      rw [← Option.some.inj h, ← Option.some.inj h']
      decide
    | 1, 1, _, _, hne => exact absurd rfl hne

/-- A file beside the output directory, and two files with one path. -/
theorem not_staysInside_pathsTorrent : ∃ t,
    (validateTorrent (.dict (pathsTorrent [["..", "x"], ["y"], ["y"]]))).isOk = true ∧
    parseTorrentData (fun _ => none) .unlimited 1 (pathsTorrent [["..", "x"], ["y"], ["y"]]) =
      some (.ok t) ∧
    (buildFileSegments t "out".toList).map FileSegment.file_path =
      ["out/../x".toList, "out/y".toList, "out/y".toList] ∧
    normpath "out/../x".toList = "x".toList ∧ ¬StaysInside t := by
  obtain ⟨t, hparse, hsegments⟩ := exists_of_parseTorrentData (fun _ => none)
    (pathsTorrent [["..", "x"], ["y"], ["y"]])
    (fun t => (buildFileSegments t "out".toList).map FileSegment.file_path =
      ["out/../x".toList, "out/y".toList, "out/y".toList]) (by decide +kernel)
  refine ⟨t, by decide +kernel, hparse, hsegments, by decide, fun h => ?_⟩
  have hmem : "out/../x".toList ∈ (buildFileSegments t "out".toList).map FileSegment.file_path := by
    rw [hsegments]
    exact List.mem_cons_self
  obtain ⟨seg, hseg, hpath⟩ := List.mem_map.mp hmem
  obtain ⟨-, rest, -, -, hcomps⟩ := h.inside _ seg hseg
  have hdir : normComps "out".toList = ["out".toList] := by decide
  have hout : normComps "out/../x".toList = ["x".toList] := by decide
  rw [hpath, hdir, hout] at hcomps
  exact absurd (List.cons.inj hcomps).1 (by decide)

end Paths

end Storage

end Ccbt
