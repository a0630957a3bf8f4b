import Ccbt.Core.TorrentV2.Generator

/-!
# The v1 pieces of a hybrid torrent

The file list of a hybrid torrent is in the order of the scan, and the pieces are hashed
in the order of the sorted paths.
-/

namespace Ccbt

open Python Torrent

namespace TorrentV2

/-- The state of `_build_v1_pieces` behind the octets `x`: the hashes of the full pieces, and
what is left. -/
def Hashed (p : Nat) (x : Bytes) (state : PieceState) : Prop :=
  ∃ full : List Bytes, x = full.flatten ++ state.currentPiece ∧
    (∀ piece ∈ full, piece.length = p) ∧ state.currentPiece.length < p ∧
    state.pieces = full.map sha1

theorem hashed_start {p : Nat} (hp : 0 < p) : Hashed p [] ⟨[], []⟩ := ⟨[], rfl, List.forall_mem_nil _, hp, rfl⟩

variable {p : Nat} {x data : Bytes} {state : PieceState}

/-- Octets that fill the piece. -/
theorem Hashed.complete (h : Hashed p x state)
    (hdata : (state.currentPiece ++ data).length = p) :
    Hashed p (x ++ data) ⟨state.pieces ++ [sha1 ((state.currentPiece ++ data).take p)],
      (state.currentPiece ++ data).drop p⟩ := by
  obtain ⟨full, rfl, hfull, hlt, hpieces⟩ := h
  refine ⟨full ++ [state.currentPiece ++ data], ?_, ?_, ?_, ?_⟩
  · simp [List.drop_eq_nil_of_le hdata.le]
  · intro piece hpiece
    rcases List.mem_append.mp hpiece with hpiece | hpiece
    · exact hfull piece hpiece
    · rw [List.mem_singleton.mp hpiece]
      exact hdata
  · rw [List.drop_eq_nil_of_le hdata.le]
    exact Nat.zero_lt_of_lt hlt
  · rw [List.take_of_length_le hdata.le, List.map_append, hpieces]
    rfl

/-- Octets that do not fill it. -/
theorem Hashed.extend (h : Hashed p x state)
    (hdata : (state.currentPiece ++ data).length < p) :
    Hashed p (x ++ data) ⟨state.pieces, state.currentPiece ++ data⟩ := by
  obtain ⟨full, rfl, hfull, -, hpieces⟩ := h
  exact ⟨full, List.append_assoc _ _ _, hfull, hdata, hpieces⟩

theorem Hashed.readPieces (h : Hashed p x state) {n : Nat} {rest : Bytes} (hn : rest.length < n) :
    Hashed p (x ++ rest) (readPieces p n rest state) := by
  induction n generalizing x rest state with
  | zero => exact absurd hn (Nat.not_lt_zero _)
  | succ n ih =>
    have hlt : state.currentPiece.length < p := by
      obtain ⟨_, -, -, hlt, -⟩ := h
      exact hlt
    rw [TorrentV2.readPieces]
    simp only
    by_cases hrest : rest = []
    · subst hrest
      simpa using h
    · have hne : (rest.take (p - state.currentPiece.length)).isEmpty = false := by
        rw [List.isEmpty_eq_false_iff]
        intro hnil
        exact (List.take_eq_nil_iff.mp hnil).elim (by omega) hrest
      have hdrop : (rest.drop (p - state.currentPiece.length)).length < n := by
        have := List.length_pos_of_ne_nil hrest
        rw [List.length_drop]
        omega
      have hsplit : x ++ rest = (x ++ rest.take (p - state.currentPiece.length)) ++
          rest.drop (p - state.currentPiece.length) := by
        rw [List.append_assoc, List.take_append_drop]
      have hlen : (state.currentPiece ++
          rest.take (p - state.currentPiece.length)).length ≤ p := by
        rw [List.length_append, List.length_take]
        omega
      rw [hne, hsplit]
      simp only [Bool.false_eq_true, if_false]
      split
      · next hle => exact ih (h.complete (le_antisymm hlen hle)) hdrop
      · next hgt => exact ih (h.extend (not_le.mp hgt)) hdrop

/-- The contents of the listed files that exist, one after another. -/
def listedContent (s : Source) (files : List (Str × Nat)) : Bytes :=
  files.flatMap fun f => (s.read f.1).getD []

theorem Hashed.readFiles (h : Hashed p x state) (s : Source) (files : List (Str × Nat)) :
    Hashed p (x ++ listedContent s files) (readFiles s p files state) := by
  induction files generalizing x state with
  | nil => simpa [listedContent, TorrentV2.readFiles] using h
  | cons f files ih =>
    obtain ⟨filePath, length⟩ := f
    rw [TorrentV2.readFiles]
    split
    · next hread =>
      have hskip : listedContent s ((filePath, length) :: files) = listedContent s files := by
        simp [listedContent, hread]
      rw [hskip]
      exact ih h
    · next content hread =>
      have hcontent : listedContent s ((filePath, length) :: files) =
          content ++ listedContent s files := by
        simp [listedContent, hread]
      rw [hcontent, ← List.append_assoc]
      exact ih (h.readPieces (Nat.lt_succ_self _))

/-- The hashes of the pieces behind the last file. -/
theorem Hashed.pieces_eq (h : Hashed p x state) :
    (if state.currentPiece.isEmpty then state.pieces
      else state.pieces ++ [sha1 state.currentPiece]) = (pieces p x).map sha1 := by
  obtain ⟨full, rfl, hfull, hlt, hpieces⟩ := h
  have hp : 0 < p := Nat.zero_lt_of_lt hlt
  rw [pieces_flatten_append hp hfull, List.map_append, ← hpieces]
  split
  · next hnil => simp [List.isEmpty_iff.mp hnil]
  · next hne =>
    rw [pieces_of_length_le (by simpa using hne) hlt.le]
    rfl

/-- `_build_v1_pieces` hashes the pieces of the files' contents in the order of the sorted
list. -/
theorem buildV1Pieces_eq (hp : 0 < p) (s : Source) (files : List (Str × Nat)) :
    buildV1Pieces s files p =
      ((pieces p (listedContent s (sortFiles files))).map sha1).flatten := by
  have h := (hashed_start hp).readFiles s (sortFiles files)
  rw [List.nil_append] at h
  rw [buildV1Pieces, h.pieces_eq]

/-! ### The order of the file list -/

/-- Different contents whose pieces SHA-1 does not tell apart. -/
def PiecesCollide (p : Nat) (x y : Bytes) : Prop :=
  x ≠ y ∧ List.Forall₂ (fun a b => a = b ∨ a ≠ b ∧ sha1 a = sha1 b) (pieces p x) (pieces p y)

theorem flatten_sha1_injective {xs ys : List Bytes}
    (h : (xs.map sha1).flatten = (ys.map sha1).flatten) : xs.map sha1 = ys.map sha1 := by
  have hpieces (zs : List Bytes) : pieces 20 (zs.map sha1).flatten = zs.map sha1 := by
    have hlen : ∀ piece ∈ zs.map sha1, piece.length = 20 := by
      intro piece hpiece
      obtain ⟨z, -, rfl⟩ := List.mem_map.mp hpiece
      exact sha1_length z
    have hcut := pieces_flatten_append (by decide) hlen []
    rwa [List.append_nil, pieces_nil, List.append_nil] at hcut
  rw [← hpieces xs, h, hpieces ys]

/-- Piece hashes agree exactly for the same content, up to collisions. -/
theorem pieceHashes_eq_iff (p : Nat) (x y : Bytes) :
    ((pieces p x).map sha1).flatten = ((pieces p y).map sha1).flatten ↔
      x = y ∨ PiecesCollide p x y := by
  constructor
  · intro h
    by_cases hxy : x = y
    · exact .inl hxy
    · have hmap : List.Forall₂ (· = ·) ((pieces p x).map sha1) ((pieces p y).map sha1) := by
        rw [flatten_sha1_injective h]
        exact List.forall₂_refl _
      rw [List.forall₂_map_left_iff, List.forall₂_map_right_iff] at hmap
      refine .inr ⟨hxy, hmap.imp fun a b hab => ?_⟩
      by_cases heq : a = b
      · exact .inl heq
      · exact .inr ⟨heq, hab⟩
  · rintro (rfl | ⟨-, hall⟩)
    · rfl
    · congr 1
      have hmap : List.Forall₂ (fun a b => sha1 a = sha1 b) (pieces p x) (pieces p y) := by
        refine hall.imp fun a b hab => ?_
        rcases hab with rfl | ⟨-, hab⟩
        · rfl
        · exact hab
      rw [← List.forall₂_eq_eq_eq, List.forall₂_map_left_iff, List.forall₂_map_right_iff]
      exact hmap

/-- The contents of the source in the order of the scan. -/
def scannedContent (s : Source) : Bytes := s.files.flatMap SourceFile.content

theorem prepare_spec {s : Source} {o : Options} {w : Prepared} (h : prepare s o = .ok w) :
    w.pieceLength = s.pieceLength o.pieceLength ∧ w.files = s.collectFiles ∧
      ∃ tree, buildPieceLayers s w.pieceLength (buildFileTree s.resolve s.collectFiles) =
          .ok (tree, w.pieceLayers) ∧
        fileTreeToDict tree = .ok w.fileTree := by
  rw [prepare] at h
  simp only at h
  split at h
  · cases h
  · split at h
    · cases h
    · obtain ⟨⟨tree, pieceLayers⟩, hlayers, h⟩ := bind_eq_ok h
      obtain ⟨_, -, h⟩ := bind_eq_ok h
      obtain ⟨fileTree, htree, h⟩ := bind_eq_ok h
      cases h
      exact ⟨rfl, rfl, tree, hlayers, htree⟩

theorem generateHybridTorrent_spec {s : Source} {o : Options} {g : Generated}
    (h : generateHybridTorrent s o = .ok g) :
    ∃ w, prepare s o = .ok w ∧ g.info = hybridInfoDict s o w ∧
      Bencode.encode (.dict (torrentDict o g.info)) = .ok g.torrent ∧
      ∃ hlen, calculateInfoHashV1 g.info = .ok ⟨g.infoHashV1, hlen⟩ := by
  obtain ⟨w, hw, h⟩ := bind_eq_ok h
  obtain ⟨_, -, h⟩ := bind_eq_ok h
  obtain ⟨hash, hhash, h⟩ := bind_eq_ok h
  obtain ⟨torrent, htorrent, h⟩ := bind_eq_ok h
  cases h
  exact ⟨w, hw, rfl, mapError_eq_ok htorrent, hash.2, mapError_eq_ok hhash⟩

/-- A hybrid torrent lists the files as the scan yields them, and its piece hashes are those of
the files in that order exactly when the order of the paths gives the same octets, or pieces
that collide. -/
theorem hybridPieces_iff {s : Source} {o : Options} {g : Generated}
    (h : generateHybridTorrent s o = .ok g) (hp : 0 < s.pieceLength o.pieceLength) :
    v1Structure s.collectFiles ∈ g.info ∧
    (getKey g.info "pieces" = some (.bytes
        ((pieces (s.pieceLength o.pieceLength) (scannedContent s)).map sha1).flatten) ↔
      listedContent s (sortFiles s.collectFiles) = scannedContent s ∨
      PiecesCollide (s.pieceLength o.pieceLength) (listedContent s (sortFiles s.collectFiles))
        (scannedContent s)) := by
  obtain ⟨w, hw, hinfo, -, -⟩ := generateHybridTorrent_spec h
  obtain ⟨hlength, hfiles, -⟩ := prepare_spec hw
  have hkey : getKey g.info "pieces" =
      some (.bytes (buildV1Pieces s w.files w.pieceLength)) := by
    rw [hinfo]
    rfl
  rw [hkey, hlength, hfiles, buildV1Pieces_eq hp, ← pieceHashes_eq_iff]
  refine ⟨?_, ?_⟩
  · rw [hinfo, ← hfiles]
    simp [hybridInfoDict]
  · rw [Option.some.injEq, PyObj.bytes.injEq]

/-! ### A scan that is not in order -/

/-- A directory with two files of one octet; the scan yields the second one first. -/
def twoFiles : Source where
  name := ['d']
  parentName := []
  isDir := true
  files := [⟨[['b']], [1]⟩, ⟨[['a']], [2]⟩]
  read path := if path = ['b'] then some [1] else if path = ['a'] then some [2] else none
  absent _ := .failed
  resolve path := some path
  single := nofun
  path_ne_nil := by decide
  isName := by
    intro f hf part hpart
    have hname : part = ['b'] ∨ part = ['a'] := by
      simp only [List.mem_cons, List.not_mem_nil, or_false] at hf
      rcases hf with rfl | rfl
      · exact .inl (List.mem_singleton.mp hpart)
      · exact .inr (List.mem_singleton.mp hpart)
    rcases hname with rfl | rfl
    · exact ⟨⟨by decide, by decide⟩, by decide, by decide⟩
    · exact ⟨⟨by decide, by decide⟩, by decide, by decide⟩
  separate := by decide
  size_lt := by decide
  read_file := by decide
  resolve_file := by decide

def twoFilesOptions : Options where
  trackers := []
  webSeeds := []
  comment := none
  createdBy := ['c']
  pieceLength := some 2
  isPrivate := false
  now := 0

theorem twoFiles_generated : ∃ g, generateHybridTorrent twoFiles twoFilesOptions = .ok g := by
  have hok : (generateHybridTorrent twoFiles twoFilesOptions).isOk = true := by decide +kernel
  cases hg : generateHybridTorrent twoFiles twoFilesOptions with
  | error e =>
    rw [hg] at hok
    cases hok
  | ok g => exact ⟨g, rfl⟩

theorem hybridPieces_iff_twoFiles : ∃ g, generateHybridTorrent twoFiles twoFilesOptions = .ok g ∧
    v1Structure twoFiles.collectFiles ∈ g.info ∧
    (getKey g.info "pieces" = some (.bytes ((pieces
        (twoFiles.pieceLength twoFilesOptions.pieceLength) (scannedContent twoFiles)).map
          sha1).flatten) ↔
      listedContent twoFiles (sortFiles twoFiles.collectFiles) = scannedContent twoFiles ∨
      PiecesCollide (twoFiles.pieceLength twoFilesOptions.pieceLength)
        (listedContent twoFiles (sortFiles twoFiles.collectFiles)) (scannedContent twoFiles)) := by
  obtain ⟨g, hg⟩ := twoFiles_generated
  exact ⟨g, hg, hybridPieces_iff hg (by decide)⟩

/-- The files are listed as b, a and hashed as a, b. -/
theorem not_hybridPieces_twoFiles :
    ¬∀ (s : Source) (o : Options) (g : Generated), generateHybridTorrent s o = .ok g →
      0 < s.pieceLength o.pieceLength →
      getKey g.info "pieces" = some (.bytes
        ((pieces (s.pieceLength o.pieceLength) (scannedContent s)).map sha1).flatten) := by
  intro h
  obtain ⟨g, hg⟩ := twoFiles_generated
  have hpieces := h twoFiles twoFilesOptions g hg (by decide)
  obtain ⟨w, hw, hinfo, -, -⟩ := generateHybridTorrent_spec hg
  obtain ⟨hlength, hfiles, -⟩ := prepare_spec hw
  have hkey : getKey g.info "pieces" =
      some (.bytes (buildV1Pieces twoFiles w.files w.pieceLength)) := by
    rw [hinfo]
    rfl
  have htwo : twoFiles.pieceLength twoFilesOptions.pieceLength = 2 := rfl
  rw [hkey, hlength, hfiles, htwo] at hpieces
  have hne : buildV1Pieces twoFiles twoFiles.collectFiles 2 ≠
      ((pieces 2 (scannedContent twoFiles)).map sha1).flatten := by decide +kernel
  exact hne (PyObj.bytes.inj (Option.some.inj hpieces))

end TorrentV2

end Ccbt
