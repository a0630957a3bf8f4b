import Ccbt.Storage.V2Layout

/-!
# Writing the pieces of a v2 torrent

A piece that has one segment, the part of its file, comes to its place whatever order the pieces
are written in. So the files of a v2 torrent are there in the end if they fill their pieces, and
the places and lengths of the pieces are right only then.
-/

namespace Ccbt

open Python Torrent TorrentV2 Piece Piece.PieceToFileMapper PositionalWrite

namespace Storage

section Contents

variable {t : TorrentInfo} {f : FileInfo} {contents : List Bytes} {content : Bytes} {j k : Nat}

theorem length_pieces_toNat (content : Bytes) : (pieces t.pieceLength.toNat content).length =
    expectedNumPieces content.length t.pieceLength := by
  have hpos := t.pieceLength_pos
  have heq := expectedNumPieces_eq (p := t.pieceLength.toNat) (by omega) content
  rw [Int.toNat_of_nonneg hpos.le] at heq
  rw [heq, pieceHashes, List.length_map]

variable (hcontents : contents.map (fun content => (content.length : Int)) =
  t.files.map FileInfo.length)

include hcontents in
theorem length_content (hfile : t.files[k]? = some f) (hcontent : contents[k]? = some content) :
    (content.length : Int) = f.length := by
  have hget := congrArg (fun l => l[k]?) hcontents
  rw [List.getElem?_map, List.getElem?_map, hfile, hcontent] at hget
  exact Option.some.inj hget

include hcontents in
/-- The pieces of the contents are numbered like those of the files. -/
theorem length_flatMap_take (k : Nat) :
    ((contents.take k).flatMap (pieces t.pieceLength.toNat)).length = firstPiece t k := by
  have hlengths : (contents.take k).map (fun content => (content.length : Int)) =
      (t.files.take k).map FileInfo.length := by
    rw [List.map_take, hcontents, List.map_take]
  have hmap := congrArg (List.map fun n => expectedNumPieces n t.pieceLength) hlengths
  rw [List.map_map, List.map_map] at hmap
  rw [List.length_flatMap, firstPiece]
  simp only [length_pieces_toNat]
  exact congrArg List.sum hmap

include hcontents in
theorem pieceOfFiles_eq (hfile : t.files[k]? = some f) (hcontent : contents[k]? = some content)
    (hj : j < filePieces t f) : pieceOfFiles t contents (firstPiece t k + j) =
      (content.drop (j * t.pieceLength.toNat)).take t.pieceLength.toNat := by
  have hpos := t.pieceLength_pos
  have hlength := length_content hcontents hfile hcontent
  obtain ⟨hk, rfl⟩ := List.getElem?_eq_some_iff.mp hcontent
  have hsplit : contents.flatMap (pieces t.pieceLength.toNat) =
      (contents.take k).flatMap (pieces t.pieceLength.toNat) ++
        (pieces t.pieceLength.toNat contents[k] ++
          (contents.drop (k + 1)).flatMap (pieces t.pieceLength.toNat)) := by
    rw [← List.flatMap_cons, ← List.flatMap_append, ← List.drop_eq_getElem_cons hk,
      List.take_append_drop]
  have hfront := length_flatMap_take hcontents k
  have hown : j < (pieces t.pieceLength.toNat contents[k]).length := by
    rw [length_pieces_toNat, hlength]
    exact hj
  have hget := getElem?_pieces (p := t.pieceLength.toNat) (by omega) contents[k] j
  rw [List.getElem?_eq_getElem hown] at hget
  split at hget
  · rw [pieceOfFiles, hsplit, List.getElem?_append_right (by omega), hfront,
      Nat.add_sub_cancel_left, List.getElem?_append_left hown, List.getElem?_eq_getElem hown, hget,
      Option.getD_some]
  · cases hget

end Contents

section Write

variable {t : TorrentInfo} {output_dir : Str} {f g : FileInfo} {contents : List Bytes}
  {content : Bytes} {order : List Nat} {i j k m : Nat}

/-- Two files have no piece in common. -/
theorem eq_of_firstPiece_add_eq (hfile : t.files[k]? = some f) (hj : j < filePieces t f)
    (hg : t.files[m]? = some g) (hi : i < filePieces t g)
    (h : firstPiece t k + j = firstPiece t m + i) : k = m := by
  rcases lt_trichotomy k m with hlt | heq | hgt
  · have := firstPiece_add_le hfile hlt
    omega
  · exact heq
  · have := firstPiece_add_le hg hgt
    omega

/-- The octets of a file in the pieces of a list. -/
def InPieces (t : TorrentInfo) (k : Nat) (f : FileInfo) (order : List Nat) (x : Nat) : Prop :=
  (x : Int) < f.length ∧ ∃ j < filePieces t f, firstPiece t k + j ∈ order ∧
    j * t.pieceLength.toNat ≤ x ∧ x < j * t.pieceLength.toNat + t.pieceLength.toNat

theorem SegmentsHashed.segmentsAt_own (h : SegmentsHashed t output_dir)
    (hfile : t.files[k]? = some f) (hj : j < filePieces t f) :
    segmentsAt t output_dir (purePath (filePath t output_dir f)) (firstPiece t k + j) =
      [hashedRange t output_dir f (firstPiece t k + j) j] := by
  rw [segmentsAt, h k f hfile j hj, List.filter_cons_of_pos (by rw [hashedRange]; simp),
    List.filter_nil]

theorem SegmentsHashed.segmentsAt_other (h : SegmentsHashed t output_dir)
    (hapart : PathsApart t output_dir) (hfile : t.files[k]? = some f)
    (hg : t.files[m]? = some g) (hi : i < filePieces t g) (hne : k ≠ m) :
    segmentsAt t output_dir (purePath (filePath t output_dir f)) (firstPiece t m + i) = [] := by
  rw [segmentsAt, h m g hg i hi, List.filter_cons_of_neg, List.filter_nil]
  rw [decide_eq_true_eq]
  intro hpath
  exact hne (hapart m g k f hg hfile hpath).symm

/-- What is written for a piece is the part of its file. -/
theorem pieceOfFiles_part (output_dir : Str) (i : Nat)
    (hcontents : contents.map (fun content => (content.length : Int)) =
      t.files.map FileInfo.length)
    (hfile : t.files[k]? = some f) (hcontent : contents[k]? = some content)
    (hj : j < filePieces t f) :
    (hashedRange t output_dir f i j).start_offset.toNat = j * t.pieceLength.toNat ∧
      (pieceOfFiles t contents (firstPiece t k + j)).length =
        min t.pieceLength.toNat (content.length - j * t.pieceLength.toNat) ∧
      ∀ x < (pieceOfFiles t contents (firstPiece t k + j)).length,
        (pieceOfFiles t contents (firstPiece t k + j))[x]? =
          content[j * t.pieceLength.toNat + x]? := by
  have hpos := t.pieceLength_pos
  rw [pieceOfFiles_eq hcontents hfile hcontent hj, List.length_take, List.length_drop]
  refine ⟨?_, rfl, fun x hx => ?_⟩
  · have hcast : ((j * t.pieceLength.toNat : Nat) : Int) = j * t.pieceLength := by
      rw [Nat.cast_mul, Int.toNat_of_nonneg hpos.le]
    rw [hashedRange]
    dsimp only
    omega
  · rw [List.getElem?_take_of_lt (by omega), List.getElem?_drop]

/-- After some pieces a file has its octets where these pieces have them. -/
theorem SegmentsHashed.agrees (h : SegmentsHashed t output_dir)
    (hapart : PathsApart t output_dir)
    (hcontents : contents.map (fun content => (content.length : Int)) =
      t.files.map FileInfo.length)
    (hfile : t.files[k]? = some f) (hcontent : contents[k]? = some content)
    (horder : ∀ i ∈ order, i < numFilePieces t) :
    Agrees (((writePieces t output_dir (pieceOfFiles t contents) order).disk
      (purePath (filePath t output_dir f))).getD []) content (InPieces t k f order) := by
  induction order using List.reverseRecOn with
  | nil => exact Agrees.nil.mono fun x ⟨_, j, _, hj, _⟩ => nomatch hj
  | append_singleton order i ih =>
    have hold := ih fun i hi => horder i (List.mem_append_left _ hi)
    rw [disk_writePieces_append]
    split
    · next hwritten =>
      refine hold.mono fun x ⟨hx, j, hj, hmem, hin⟩ => ⟨hx, j, hj, ?_, hin⟩
      rcases List.mem_append.mp hmem with hmem | hmem
      · exact hmem
      · rw [List.mem_singleton.mp hmem]
        exact written_subset_writePieces hwritten
    · obtain ⟨m, g, j, hg, hj, rfl⟩ :=
        exists_file_of_lt (horder i (List.mem_append_right _ (List.mem_singleton_self i)))
      by_cases hm : k = m
      · subst hm
        obtain rfl := Option.some.inj (hg.symm.trans hfile)
        have hlength := length_content hcontents hfile hcontent
        obtain ⟨hstart, hdata, hpart⟩ := pieceOfFiles_part output_dir (firstPiece t k + j)
          hcontents hfile hcontent hj
        have hlt := lt_filePieces_iff.mp hj
        have hcast : ((j * t.pieceLength.toNat : Nat) : Int) = j * t.pieceLength := by
          rw [Nat.cast_mul, Int.toNat_of_nonneg t.pieceLength_pos.le]
        rw [h.segmentsAt_own hfile hj]
        refine (agrees_foldl_write (fun seg hseg => ?_) hold).mono
          fun x ⟨hx, j', hj', hmem, hin⟩ => ?_
        · rw [List.mem_singleton.mp hseg, hstart]
          exact ⟨by omega, hpart⟩
        · rcases List.mem_append.mp hmem with hmem | hmem
          · exact Or.inl ⟨hx, j', hj', hmem, hin⟩
          · obtain rfl : j' = j := by
              have := List.mem_singleton.mp hmem
              omega
            exact Or.inr ⟨_, List.mem_singleton_self _, by omega, by omega⟩
      · rw [h.segmentsAt_other hapart hfile hg hj hm, List.foldl_nil]
        refine hold.mono fun x ⟨hx, j', hj', hmem, hin⟩ => ⟨hx, j', hj', ?_, hin⟩
        rcases List.mem_append.mp hmem with hmem | hmem
        · exact hmem
        · exact absurd (eq_of_firstPiece_add_eq hfile hj' hg hj (List.mem_singleton.mp hmem)) hm

/-- Each octet of a file is in one of its pieces. -/
theorem inPieces_of_all (horder : ∀ i, i ∈ order ↔ i < numFilePieces t)
    (hfile : t.files[k]? = some f) {x : Nat} (hx : (x : Int) < f.length) :
    InPieces t k f order x := by
  have hpos := t.pieceLength_pos
  have hp : 0 < t.pieceLength.toNat := by omega
  have hdiv := Nat.div_add_mod x t.pieceLength.toNat
  have hmod := Nat.mod_lt x hp
  rw [Nat.mul_comm] at hdiv
  have hj : x / t.pieceLength.toNat < filePieces t f := by
    rw [lt_filePieces_iff]
    have hcast : ((x / t.pieceLength.toNat * t.pieceLength.toNat : Nat) : Int) =
        (x / t.pieceLength.toNat : Nat) * t.pieceLength := by
      rw [Nat.cast_mul, Int.toNat_of_nonneg hpos.le]
    omega
  exact ⟨hx, _, hj, (horder _).mpr (firstPiece_add_lt hfile hj), by omega, by omega⟩

/-- Pieces with the right segments make files that are not empty and have paths of their own. -/
theorem SegmentsHashed.reproducesFiles (h : SegmentsHashed t output_dir)
    (hapart : PathsApart t output_dir) (hnonempty : ∀ f ∈ t.files, 0 < f.length) :
    ReproducesFiles t output_dir := by
  intro contents hcontents order horder k f content hfile hcontent
  have hagrees := h.agrees hapart hcontents hfile hcontent fun i hi => (horder i).mp hi
  have hlength := length_content hcontents hfile hcontent
  have hpos := hnonempty f (List.mem_of_getElem? hfile)
  have hequal := hagrees.eq fun x hx => inPieces_of_all horder hfile (by omega)
  cases hdisk : (writePieces t output_dir (pieceOfFiles t contents) order).disk
      (purePath (filePath t output_dir f)) with
  | none =>
    rw [hdisk] at hequal
    rw [← hequal, Option.getD_none, List.length_nil] at hlength
    omega
  | some file =>
    rw [hdisk, Option.getD_some] at hequal
    rw [hequal]

end Write

section Converse

variable {t : TorrentInfo} {output_dir : Str} {f g : FileInfo} {i j k m : Nat}

/-- Files whose octets are 0, but those of one file are 1. -/
def markedContents (t : TorrentInfo) (k : Nat) : List Bytes :=
  t.files.zipIdx.map fun (f, m) => List.replicate f.length.toNat (if m = k then 1 else 0)

theorem lengths_markedContents (k : Nat) :
    (markedContents t k).map (fun content => (content.length : Int)) =
      t.files.map FileInfo.length := by
  have hlength : (fun content : Bytes => (content.length : Int)) ∘
      (fun (f, m) => List.replicate f.length.toNat (if m = k then 1 else 0)) =
        fun p : FileInfo × Nat => p.1.length := by
    funext p
    rw [Function.comp, List.length_replicate]
    exact Int.toNat_of_nonneg p.1.length_nonneg
  rw [markedContents, List.map_map, hlength, ← Function.comp_def, ← List.map_map,
    List.zipIdx_map_fst]

theorem getElem?_markedContents (hfile : t.files[m]? = some f) (k : Nat) :
    (markedContents t k)[m]? =
      some (List.replicate f.length.toNat (if m = k then 1 else 0)) := by
  rw [markedContents, List.getElem?_map, List.getElem?_zipIdx, hfile, Option.map_some,
    Option.map_some, Nat.zero_add]

namespace ReproducesFiles

/-- The files of marked contents, when the pieces come in order. -/
theorem marked (h : ReproducesFiles t output_dir) (hfile : t.files[m]? = some f) (k : Nat) :
    (writePieces t output_dir (pieceOfFiles t (markedContents t k))
      (List.range (numFilePieces t))).disk (purePath (filePath t output_dir f)) =
        some (List.replicate f.length.toNat (if m = k then 1 else 0)) :=
  h _ (lengths_markedContents k) _ (fun _ => List.mem_range) m f _ hfile
    (getElem?_markedContents hfile k)

/-- An empty file is not made, unless it has the path of another one, and then it is not empty. -/
theorem nonempty (h : ReproducesFiles t output_dir) (hsegments : SegmentsHashed t output_dir)
    (hfile : t.files[k]? = some f) : 0 < f.length := by
  by_contra hzero
  have hdisk := h.marked hfile k
  rw [Int.toNat_of_nonpos (Int.not_lt.mp hzero), List.replicate_zero] at hdisk
  by_cases hother : ∃ i ∈ List.range (numFilePieces t),
      segmentsAt t output_dir (purePath (filePath t output_dir f)) i ≠ []
  · obtain ⟨i, hi, hne⟩ := hother
    obtain ⟨m, g, j, hg, hj, rfl⟩ := exists_file_of_lt (List.mem_range.mp hi)
    obtain ⟨seg, hseg⟩ := List.exists_mem_of_ne_nil _ hne
    rw [segmentsAt, hsegments m g hg j hj] at hseg
    obtain ⟨hmem, hpath⟩ := List.mem_filter.mp hseg
    rw [List.mem_singleton.mp hmem, hashedRange, decide_eq_true_eq] at hpath
    have hdisk' := h.marked hg k
    rw [hpath, hdisk] at hdisk'
    have hlength := congrArg List.length (Option.some.inj hdisk')
    rw [List.length_nil, List.length_replicate] at hlength
    have hlt := lt_filePieces_iff.mp hj
    have hfront : 0 ≤ (j : Int) * t.pieceLength := by
      have := t.pieceLength_pos
      positivity
    omega
  · push Not at hother
    rw [disk_writePieces_eq_none hother] at hdisk
    cases hdisk

/-- Two files with one path would be the same. -/
theorem pathsApart (h : ReproducesFiles t output_dir) (hnonempty : ∀ f ∈ t.files, 0 < f.length) :
    PathsApart t output_dir := by
  intro k f k' f' hfile hfile' hpath
  by_contra hne
  have hpos := hnonempty f (List.mem_of_getElem? hfile)
  have hdisk := h.marked hfile k
  rw [hpath, h.marked hfile' k, if_pos rfl, if_neg (Ne.symm hne)] at hdisk
  obtain ⟨n, hn⟩ : ∃ n, f.length.toNat = n + 1 := ⟨f.length.toNat - 1, by omega⟩
  have hmem : (1 : UInt8) ∈ List.replicate f'.length.toNat 0 := by
    rw [Option.some.inj hdisk, hn]
    exact List.mem_cons_self
  exact absurd (List.eq_of_mem_replicate hmem) (by decide)

end ReproducesFiles

/-- A piece that the manager takes for full is full. -/
theorem LengthsHashed.fitsPieces {config : Piece.Config} {fm : Option FileSelectionManager}
    {v2 : TorrentV2Info} (h : LengthsHashed t (.new config (normalizeTorrentData v2 false) fm))
    (hsame : SameLayout v2 t) (htotal : t.totalLength = (t.files.map FileInfo.length).sum)
    (hnum : numFilePieces t ≤ t.numPieces) (hnonempty : ∀ f ∈ t.files, 0 < f.length) :
    FitsPieces t := by
  intro k f hfile
  by_cases hdvd : t.pieceLength ∣ f.length
  · exact Or.inl hdvd
  · have hpos := filePieces_pos (t := t) (hnonempty f (List.mem_of_getElem? hfile))
    obtain ⟨j, hj⟩ : ∃ j, j + 1 = filePieces t f := ⟨filePieces t f - 1, by omega⟩
    have hle := length_le_add_one_mul hj
    have hlength := h k f hfile j (by omega)
    have hmanager := hsame.length_piece config fm htotal hnum hfile
      (show j < filePieces t f by omega)
    rw [hlength, Option.some.injEq, min_eq_right hle] at hmanager
    by_cases hlast : firstPiece t k + j + 1 = t.numPieces
    · have hnext := firstPiece_succ hfile
      have htop := firstPiece_le (t := t) (k + 1)
      obtain ⟨hk, -⟩ := last_of_firstPiece_add hnonempty hfile (show j < filePieces t f by omega)
        (by omega)
      exact Or.inr ⟨hk, by omega⟩
    · -- the manager has the last piece of the file as a full one
      rw [if_neg fun h => hlast h.1] at hmanager
      refine absurd ?_ hdvd
      have hfull : f.length = ((j : Int) + 1) * t.pieceLength := by
        rw [add_mul, one_mul]
        omega
      exact hfull ▸ Dvd.intro_left _ rfl

end Converse

section Torrents

variable {coerceInt : Bytes → Option Int} {info data : PyDict} {v2 : TorrentV2Info}
  {t : TorrentInfo}

/-- The files of a parsed torrent as the assembler has them. -/
theorem layout_of_parseV2 (hparse : parseV2 info data = .ok v2)
    (ht : convert coerceInt 2 none v2 = .ok t) :
    SameLayout v2 t ∧ t.totalLength = (t.files.map FileInfo.length).sum ∧
      (∀ f ∈ t.files, f.isPadding = false) ∧
      numFilePieces t = (v2.pieceFiles.map v2.numPiecesOf).sum := by
  obtain ⟨hfiles, htotal, hpieceLength, hnumPieces⟩ := convert_layout ht
  obtain ⟨-, hextract, -⟩ := parseV2_parts hparse
  obtain ⟨hsum, hattributes⟩ := extractFilesOfChildren_total hextract
  have hlengths := parseV2_files hparse
  refine ⟨⟨htotal, hpieceLength, hnumPieces⟩, ?_, fun f hf => ?_, ?_⟩
  · rw [htotal, hfiles, hsum, (parseV2_counts hparse).1]
  · rw [FileInfo.isPadding, hattributes f (hfiles ▸ hf)]
  · have hmap := congrArg (List.map fun n => expectedNumPieces n v2.pieceLength) hlengths
    rw [List.map_map, List.map_map] at hmap
    have hcount : filePieces t = (fun n => expectedNumPieces n v2.pieceLength) ∘
        FileInfo.length := by
      funext f
      rw [filePieces, hpieceLength, Function.comp]
    rw [numFilePieces, hfiles, hcount, hmap]
    rfl

/-- Where every file has its own layer, only hashes of other roots make further pieces. -/
theorem numPieces_eq_iff (hparse : parseV2 info data = .ok v2)
    (ht : convert coerceInt 2 none v2 = .ok t)
    (hroots : (v2.pieceFiles.map PieceFile.piecesRoot).Nodup) (hlayers : v2.HasLayers) :
    numFilePieces t ≤ t.numPieces ∧
      (t.numPieces = numFilePieces t ↔ ∀ e ∈ v2.otherLayers, e.2.pieces = []) := by
  obtain ⟨hsame, -, -, hcount⟩ := layout_of_parseV2 hparse ht
  have hsum := hlayers.sum_numPieces hroots
  rw [← (parseV2_counts hparse).2, ← hsame.numPieces, ← hcount] at hsum
  have hzero : (v2.otherLayers.map fun e => e.2.numPieces).sum = 0 ↔
      ∀ e ∈ v2.otherLayers, e.2.pieces = [] := by
    rw [List.sum_eq_zero_iff, List.forall_mem_map]
    exact forall₂_congr fun e _ => List.length_eq_zero_iff
  exact ⟨by omega, by rw [← hzero]; omega⟩

end Torrents

/-! ### Two files -/

section TwoFiles

/-- A v2 torrent with pieces of two octets and two files of one piece each, with a layer each. -/
def twoPieceInfo (a b : Int) : PyDict :=
  let fileNode (length : Int) (root : UInt8) : PyObj := .dict [entry "" (.dict [
    entry "length" (.int length), entry "pieces root" (.bytes (List.replicate 32 root))])]
  let layer (root : UInt8) : Key × PyObj :=
    (.bytes (List.replicate 32 root), .bytes (List.replicate 32 7))
  [entry "file tree" (.dict [entry "a" (fileNode a 0), entry "b" (fileNode b 1)]),
    entry "meta version" (.int 2), entry "name" (.bytes (ascii "n")),
    entry "piece layers" (.dict [layer 0, layer 1]), entry "piece length" (.int 2)]

/-- What is found to hold of a torrent that is parsed and converted. -/
theorem exists_of_convert (coerceInt : Bytes → Option Int) (info data : PyDict)
    (P : TorrentV2Info → TorrentInfo → Prop) [∀ v2 t, Decidable (P v2 t)]
    (h : ((parseV2 info data).toOption.bind fun v2 =>
      (convert coerceInt 2 none v2).toOption.map fun t => decide (P v2 t)) = some true) :
    ∃ v2 t, parseV2 info data = .ok v2 ∧ convert coerceInt 2 none v2 = .ok t ∧ P v2 t := by
  cases hparse : parseV2 info data with
  | error e =>
    rw [hparse] at h
    cases h
  | ok v2 =>
    rw [hparse, Except.toOption, Option.bind_some] at h
    cases ht : convert coerceInt 2 none v2 with
    | error e =>
      rw [ht] at h
      cases h
    | ok t =>
      rw [ht] at h
      exact ⟨v2, t, rfl, ht, of_decide_eq_true (Option.some.inj h)⟩

theorem pathsApart_of_nodup {t : TorrentInfo} {output_dir : Str}
    (h : (t.files.map fun f => purePath (filePath t output_dir f)).Nodup) :
    PathsApart t output_dir := by
  intro k f k' f' hfile hfile' hpath
  refine (List.getElem?_inj ?_ h).mp ?_
  · rw [List.length_map]
    exact (List.getElem?_eq_some_iff.mp hfile).1
  · rw [List.getElem?_map, List.getElem?_map, hfile, hfile', Option.map_some, Option.map_some,
      hpath]

end TwoFiles

end Storage

end Ccbt
