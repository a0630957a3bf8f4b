import Ccbt.Core.TorrentV2.SourceDescription
import Ccbt.Prefix.CommonPrefix

/-!
# How the pieces of a v2 torrent are numbered

The pieces are numbered file by file, in the order in which the tree lists the files, and
the hash of a piece is the one in the layer of its file; a file of one piece may do without
a layer, since its pieces root is the hash. The layers are stored in another order, that of
their roots in the torrent.
-/

namespace Ccbt

open Python Torrent

namespace TorrentV2

/-- `math.ceil(file_length / piece_length)`, taken exactly. -/
def expectedNumPieces (fileLength pieceLength : Int) : Nat :=
  ((fileLength + pieceLength - 1) / pieceLength).toNat

/-- `_validate_piece_layer`, which `parse_v2` does not call. -/
def validatePieceLayer (layer : PieceLayer) (fileLength pieceLength : Int) : Bool :=
  if pieceLength ≤ 0 then false
  else if fileLength < 0 then false
  else
    let expected_num_pieces :=
      if 0 < fileLength then expectedNumPieces fileLength pieceLength else 0
    layer.numPieces == expected_num_pieces

theorem validatePieceLayer_eq_true {layer : PieceLayer} {fileLength pieceLength : Int}
    (h : validatePieceLayer layer fileLength pieceLength = true) :
    layer.numPieces = expectedNumPieces fileLength pieceLength := by
  rw [validatePieceLayer] at h
  split_ifs at h with hpiece hneg hpos
  · exact eq_of_beq h
  · have hzero : fileLength = 0 := by omega
    rw [eq_of_beq h, expectedNumPieces, hzero, Int.ediv_eq_zero_of_lt (by omega) (by omega)]
    rfl

/-- A file as far as its pieces go. -/
structure PieceFile where
  length : Int
  piecesRoot : Bytes
  deriving DecidableEq

/-- What an entry of a tree says of the pieces of its file. -/
def pieceFile (e : List Str × Leaf) : Option PieceFile :=
  e.2.piecesRoot.map fun piecesRoot => ⟨e.2.length, piecesRoot⟩

mutual

theorem extractFilesFromTree_length {node : FileTreeNode} {path : Str} {files : List FileInfo}
    (hvalid : validateFileTree node = .ok ()) (h : extractFilesFromTree node path = .ok files) :
    files.map FileInfo.length = ((entries node).filterMap pieceFile).map PieceFile.length := by
  match node with
  | .childless name length (some root) =>
    rw [extractFilesFromTree, nodeFileInfo] at h
    split at h
    · cases h
      rfl
    · cases h
  | .childless name length none =>
    cases h
    rfl
  | .withChildren name length none children =>
    rw [validateFileTree] at hvalid
    split at hvalid
    · cases hvalid
    · exact extractFilesOfChildren_length hvalid h
  | .withChildren name length (some root) children => cases hvalid

/-- The files that are listed are those of the tree, in its order. -/
theorem extractFilesOfChildren_length {children : List (Str × FileTreeNode)} {path : Str}
    {files : List FileInfo} (hvalid : validateChildren children = .ok ())
    (h : extractFilesOfChildren children path = .ok files) :
    files.map FileInfo.length =
      ((treeEntries children).filterMap pieceFile).map PieceFile.length := by
  match children with
  | [] =>
    cases h
    rfl
  | (name, child) :: children =>
    obtain ⟨_, hchild, hrest⟩ := bind_eq_ok hvalid
    obtain ⟨files₁, h₁, h⟩ := bind_eq_ok h
    obtain ⟨files₂, h₂, h⟩ := bind_eq_ok h
    cases h
    rw [List.map_append, extractFilesFromTree_length hchild h₁,
      extractFilesOfChildren_length hrest h₂, treeEntries, List.filterMap_append, List.map_append,
      List.filterMap_map]
    rfl

end

namespace TorrentV2Info

variable (v2 : TorrentV2Info)

def pieceFiles : List PieceFile := (treeEntries v2.fileTree).filterMap pieceFile

def numPiecesOf (file : PieceFile) : Nat := expectedNumPieces file.length v2.pieceLength

/-- The hash that the torrent has for a piece of a file, by the position in the file. -/
def hashInFile (file : PieceFile) (index : Nat) : Option Bytes :=
  match v2.pieceLayers.get? file.piecesRoot with
  | some layer => layer.pieces[index]?
  | none => if v2.numPiecesOf file = 1 then some file.piecesRoot else none

/-- The hashes of the pieces by their global index: the files one after the other. -/
def hashesInFileOrder : List (Option Bytes) :=
  v2.pieceFiles.flatMap fun file => (List.range (v2.numPiecesOf file)).map (v2.hashInFile file)

/-- The hashes of the layers, one layer after the other. -/
def layerHashes : List Bytes := v2.pieceLayers.values.flatMap PieceLayer.pieces

/-- Read one after the other, the layers begin with the hashes of the pieces in their order;
pieces without a hash can only be behind the last layer. -/
def LayersInFileOrder : Prop :=
  v2.hashesInFileOrder <+:
    v2.layerHashes.map some ++ List.replicate v2.hashesInFileOrder.length none

instance : Decidable v2.LayersInFileOrder := inferInstanceAs (Decidable (_ <+: _))

def fileRoots : List Bytes :=
  (v2.pieceFiles.filter fun file => 0 < v2.numPiecesOf file).map PieceFile.piecesRoot

def layerRoots : List Bytes :=
  (v2.pieceLayers.entries.filter fun e => 0 < e.2.numPieces).map Prod.fst

/-- Every layer of a file is valid for it, and only a file of at most one piece has none. -/
def LayersFit : Prop :=
  ∀ file ∈ v2.pieceFiles,
    match v2.pieceLayers.get? file.piecesRoot with
    | some layer => validatePieceLayer layer file.length v2.pieceLength = true
    | none => v2.numPiecesOf file ≤ 1

instance : Decidable v2.LayersFit :=
  have (file : PieceFile) : Decidable (match v2.pieceLayers.get? file.piecesRoot with
    | some layer => validatePieceLayer layer file.length v2.pieceLength = true
    | none => v2.numPiecesOf file ≤ 1) :=
    match v2.pieceLayers.get? file.piecesRoot with
    | some _ => inferInstance
    | none => inferInstance
  List.decidableBAll _ _

end TorrentV2Info

/-- Of a parsed torrent these are the files that it lists. -/
theorem parseV2_files {info data : PyDict} {v2 : TorrentV2Info} (h : parseV2 info data = .ok v2) :
    v2.files.map FileInfo.length = v2.pieceFiles.map PieceFile.length := by
  obtain ⟨hvalid, hfiles, -⟩ := parseV2_parts h
  exact extractFilesOfChildren_length hvalid hfiles

theorem expectedNumPieces_eq {p : Nat} (hp : 0 < p) (content : Bytes) :
    expectedNumPieces content.length p = (pieceHashes p content).length := by
  rw [pieceHashes, List.length_map, length_pieces hp, expectedNumPieces]
  have hcast : ((content.length : Int) + p - 1) / p = ((content.length + p - 1) / p : Nat) := by
    rw [Int.natCast_ediv, Int.natCast_sub (by omega)]
    rfl
  rw [hcast, Int.toNat_natCast]

/-- The files of a torrent that describes a source, in the order of the tree. -/
theorem Describes.pieceFiles_eq {s : Source} {p : Nat} {v2 : TorrentV2Info}
    (h : Describes s p v2) : ∃ files : List SourceFile, files.Perm s.files ∧
      v2.pieceFiles = files.map fun f => ⟨f.content.length, piecesRootOf p f.content⟩ := by
  have hzip : List.Forall₂ (fun e f => e = Source.hashedFile p f)
      (s.files.map (Source.hashedFile p)) s.files := by
    rw [List.forall₂_map_left_iff, List.forall₂_same]
    exact fun _ _ => rfl
  obtain ⟨files, hfiles, hperm⟩ := List.perm_comp_forall₂ h.fileTree hzip
  have hentries : treeEntries v2.fileTree = files.map (Source.hashedFile p) := by
    rw [← List.forall₂_eq_eq_eq, List.forall₂_map_right_iff]
    exact hfiles
  refine ⟨files, hperm, ?_⟩
  rw [TorrentV2Info.pieceFiles, hentries, List.filterMap_map]
  exact congrFun (List.filterMap_eq_map (f := fun f : SourceFile =>
    (⟨f.content.length, piecesRootOf p f.content⟩ : PieceFile))) files

/-- Its hashes are those of the pieces of the files, one file after the other. -/
theorem Describes.hashesInFileOrder_eq {s : Source} {p : Nat} {v2 : TorrentV2Info}
    (h : Describes s p v2) (hp : 0 < p) (hlength : v2.pieceLength = p)
    (hroots : ∀ f ∈ s.files, ∀ g ∈ s.files,
      piecesRootOf p g.content = piecesRootOf p f.content → g.content = f.content) :
    ∃ files : List SourceFile, files.Perm s.files ∧
      v2.hashesInFileOrder = (files.flatMap fun f => (pieces p f.content).map sha256).map some := by
  obtain ⟨files, hperm, hpieceFiles⟩ := h.pieceFiles_eq
  refine ⟨files, hperm, ?_⟩
  rw [TorrentV2Info.hashesInFileOrder, hpieceFiles, List.map_flatMap, List.flatMap_map]
  refine List.flatMap_congr fun f hf => ?_
  obtain ⟨g, hg, hroot, hget⟩ := h.pieceLayers f (hperm.mem_iff.mp hf)
  rw [hroots f (hperm.mem_iff.mp hf) g hg hroot] at hget
  have hnum : v2.numPiecesOf ⟨f.content.length, piecesRootOf p f.content⟩ =
      (pieceHashes p f.content).length := by
    rw [TorrentV2Info.numPiecesOf, hlength, expectedNumPieces_eq hp]
  rw [hnum]
  refine List.ext_getElem (by simp [pieceHashes]) fun k hk hk' => ?_
  simp only [List.length_map, List.length_range] at hk
  rw [List.getElem_map, List.getElem_map, List.getElem_range, TorrentV2Info.hashInFile, hget]
  exact List.getElem?_eq_getElem hk

/-! ### The same files and roots with other hashes -/

abbrev Hash := {h : Bytes // h.length = 32}

instance : Nontrivial Hash :=
  ⟨⟨.replicate 32 0, rfl⟩, ⟨.replicate 32 1, rfl⟩, by decide⟩

/-- A layer of the same size with the given hashes. -/
def PieceLayer.withHashes (layer : PieceLayer) (hash : Nat → Hash) : PieceLayer where
  pieceLength := layer.pieceLength
  pieces := (List.range layer.numPieces).map fun k => (hash k).1
  pieces_length := by
    intro h hh
    obtain ⟨k, -, rfl⟩ := List.mem_map.mp hh
    exact (hash k).2

namespace TorrentV2Info

variable (v2 : TorrentV2Info)

/-- The torrent with other hashes in its layers, given by the root and the position. -/
def withHashes (hash : Bytes → Nat → Hash) : TorrentV2Info :=
  { v2 with
    pieceLayers.entries := v2.pieceLayers.entries.map fun e => (e.1, e.2.withHashes (hash e.1))
    pieceLayers.nodup_keys := by
      rw [List.map_map]
      exact v2.pieceLayers.nodup_keys }

theorem get?_withHashes (hash : Bytes → Nat → Hash) (root : Bytes) :
    (v2.withHashes hash).pieceLayers.get? root =
      (v2.pieceLayers.get? root).map fun layer => layer.withHashes (hash root) :=
  lookup_map_entries (fun root layer => PieceLayer.withHashes layer (hash root)) _ root

/-- Where the hashes of the layer under a root are: the root and the position. -/
def places (root : Bytes) : List (Bytes × Nat) :=
  (List.range (((v2.pieceLayers.get? root).map PieceLayer.numPieces).getD 0)).map fun k => (root, k)

theorem places_head? {r r' : Bytes} {x : Bytes × Nat} (h : (v2.places r).head? = some x)
    (h' : (v2.places r').head? = some x) : r = r' := by
  have hfst {r : Bytes} (h : (v2.places r).head? = some x) : x.1 = r := by
    obtain ⟨k, -, rfl⟩ := List.mem_map.mp (List.mem_of_head? h)
    rfl
  exact (hfst h).symm.trans (hfst h')

theorem places_isEmpty_of_get? {root : Bytes} {layer : PieceLayer}
    (h : v2.pieceLayers.get? root = some layer) :
    (!(v2.places root).isEmpty) = decide (0 < layer.numPieces) := by
  rw [places, h, Option.map_some, Option.getD_some]
  cases layer.numPieces with
  | zero => rfl
  | succ n => simp [List.range_succ_eq_map]

theorem layerRoots_eq :
    v2.layerRoots = v2.pieceLayers.keys.filter fun root => !(v2.places root).isEmpty := by
  rw [layerRoots, Dict.keys, List.filter_map]
  congr 1
  refine List.filter_congr fun e he => ?_
  have hget := v2.pieceLayers.get?_eq_some_iff.mpr he
  exact (v2.places_isEmpty_of_get? hget).symm

theorem layerHashes_withHashes (hash : Bytes → Nat → Hash) :
    (v2.withHashes hash).layerHashes =
      (v2.pieceLayers.keys.flatMap v2.places).map fun q => (hash q.1 q.2).1 := by
  rw [layerHashes, Dict.values, withHashes, Dict.keys, List.map_map, List.flatMap_map,
    List.map_flatMap, List.flatMap_map]
  refine List.flatMap_congr fun e he => ?_
  have hget := v2.pieceLayers.get?_eq_some_iff.mpr he
  rw [places, hget, List.map_map]
  rfl

/-! ### Layouts whose hashes are always in file order -/

variable {v2 : TorrentV2Info}

theorem hashInFile_withHashes {file : PieceFile} {layer : PieceLayer}
    (hget : v2.pieceLayers.get? file.piecesRoot = some layer) (hash : Bytes → Nat → Hash)
    {k : Nat} (hk : k < layer.numPieces) :
    (v2.withHashes hash).hashInFile file k = some (hash file.piecesRoot k).1 := by
  rw [hashInFile, get?_withHashes, hget]
  simp [PieceLayer.withHashes, hk]

theorem LayersFit.numPieces_eq (hfit : v2.LayersFit) {file : PieceFile}
    (hfile : file ∈ v2.pieceFiles) {layer : PieceLayer}
    (hget : v2.pieceLayers.get? file.piecesRoot = some layer) :
    layer.numPieces = v2.numPiecesOf file := by
  have hvalid := hfit file hfile
  rw [hget] at hvalid
  exact validatePieceLayer_eq_true hvalid

/-- The places of the hashes of a file with a layer, or without pieces. -/
theorem LayersFit.places_eq (hfit : v2.LayersFit) {file : PieceFile} (hfile : file ∈ v2.pieceFiles)
    (hlayer : 0 < v2.numPiecesOf file → file.piecesRoot ∈ v2.pieceLayers.keys) :
    v2.places file.piecesRoot =
      (List.range (v2.numPiecesOf file)).map fun k => (file.piecesRoot, k) := by
  cases hget : v2.pieceLayers.get? file.piecesRoot with
  | none =>
    have hzero : v2.numPiecesOf file = 0 := by
      by_contra hne
      obtain ⟨layer, hsome⟩ := (Dict.mem_keys_iff _).mp (hlayer (Nat.pos_of_ne_zero hne))
      rw [hget] at hsome
      cases hsome
    rw [places, hget, hzero]
    rfl
  | some layer =>
    rw [places, hget, Option.map_some, Option.getD_some, hfit.numPieces_eq hfile hget]

theorem LayersFit.hashesInFileOrder_withHashes (hfit : v2.LayersFit)
    (hlayers : ∀ file ∈ v2.pieceFiles, 0 < v2.numPiecesOf file →
      file.piecesRoot ∈ v2.pieceLayers.keys) (hash : Bytes → Nat → Hash) :
    (v2.withHashes hash).hashesInFileOrder =
      (((v2.pieceFiles.map PieceFile.piecesRoot).flatMap v2.places).map
        fun q => (hash q.1 q.2).1).map some := by
  rw [hashesInFileOrder, List.flatMap_map, List.map_flatMap, List.map_flatMap]
  refine List.flatMap_congr fun file hfile => ?_
  rw [hfit.places_eq hfile (hlayers file hfile), List.map_map, List.map_map]
  refine List.map_congr_left fun k hk => ?_
  have hk : k < v2.numPiecesOf file := List.mem_range.mp hk
  obtain ⟨layer, hget⟩ := (Dict.mem_keys_iff _).mp (hlayers file hfile (Nat.zero_lt_of_lt hk))
  exact hashInFile_withHashes hget hash (by rwa [hfit.numPieces_eq hfile hget])

theorem LayersFit.fileRoots_eq (hfit : v2.LayersFit)
    (hlayers : ∀ file ∈ v2.pieceFiles, 0 < v2.numPiecesOf file →
      file.piecesRoot ∈ v2.pieceLayers.keys) :
    v2.fileRoots =
      (v2.pieceFiles.map PieceFile.piecesRoot).filter fun root => !(v2.places root).isEmpty := by
  rw [fileRoots, List.filter_map]
  congr 1
  refine List.filter_congr fun file hfile => ?_
  rw [Function.comp, hfit.places_eq hfile (hlayers file hfile)]
  cases v2.numPiecesOf file with
  | zero => rfl
  | succ n => simp [List.range_succ_eq_map]

/-- A file of one piece without a layer has its root for a hash, which need not be in a layer. -/
theorem LayersFit.mem_keys (hfit : v2.LayersFit)
    (h : ∀ hash, (v2.withHashes hash).LayersInFileOrder) {file : PieceFile}
    (hfile : file ∈ v2.pieceFiles) (hpos : 0 < v2.numPiecesOf file) :
    file.piecesRoot ∈ v2.pieceLayers.keys := by
  by_contra hno
  have hnone : v2.pieceLayers.get? file.piecesRoot = none := by
    by_contra hsome
    obtain ⟨layer, hlayer⟩ := Option.ne_none_iff_exists'.mp hsome
    exact hno ((Dict.mem_keys_iff _).mpr ⟨layer, hlayer⟩)
  have hone : v2.numPiecesOf file = 1 := by
    have hle := hfit file hfile
    rw [hnone] at hle
    omega
  obtain ⟨x, hx⟩ : ∃ x : Hash, x.1 ≠ file.piecesRoot := by
    obtain ⟨x, y, hxy⟩ := exists_pair_ne Hash
    by_cases hx : x.1 = file.piecesRoot
    · exact ⟨y, fun hy => hxy (Subtype.ext (hx.trans hy.symm))⟩
    · exact ⟨x, hx⟩
  -- all hashes in the layers are the same one, which is not the root
  have hmem : some file.piecesRoot ∈ (v2.withHashes fun _ _ => x).hashesInFileOrder := by
    refine List.mem_flatMap.mpr ⟨file, hfile, List.mem_map.mpr ⟨0, ?_, ?_⟩⟩
    · exact List.mem_range.mpr hpos
    · rw [hashInFile, get?_withHashes, hnone]
      exact if_pos hone
  have hmem := (h fun _ _ => x).subset hmem
  rw [layerHashes_withHashes, List.map_const'] at hmem
  simp [List.mem_replicate, Ne.symm hx] at hmem

/-- Files with layers: the hashes are in file order, whatever they are, if their places are. -/
theorem LayersFit.forall_layersInFileOrder_iff (hfit : v2.LayersFit)
    (hlayers : ∀ file ∈ v2.pieceFiles, 0 < v2.numPiecesOf file →
      file.piecesRoot ∈ v2.pieceLayers.keys) :
    (∀ hash, (v2.withHashes hash).LayersInFileOrder) ↔
      (v2.pieceFiles.map PieceFile.piecesRoot).flatMap v2.places <+:
        v2.pieceLayers.keys.flatMap v2.places := by
  have hlisted (hash : Bytes → Nat → Hash) : (v2.withHashes hash).LayersInFileOrder ↔
      ((v2.pieceFiles.map PieceFile.piecesRoot).flatMap v2.places).map
        (fun q => hash q.1 q.2) <+:
      (v2.pieceLayers.keys.flatMap v2.places).map fun q => hash q.1 q.2 := by
    rw [LayersInFileOrder, hfit.hashesInFileOrder_withHashes hlayers, layerHashes_withHashes,
      Prefix.map_some_prefix_iff, ← List.prefix_map_iff_of_injective Subtype.val_injective,
      List.map_map, List.map_map]
    rfl
  rw [forall_congr' hlisted, ← Prefix.map_prefix_map_iff Hash]
  constructor
  · intro h g
    exact h fun root k => g (root, k)
  · intro h hash
    exact h fun q => hash q.1 q.2

/-- Whatever the hashes are, they are in file order: this says that the layers with hashes begin
with those of the files that have pieces, one for each of them, in file order. -/
theorem LayersFit.layersInFileOrder_iff (hfit : v2.LayersFit) :
    (∀ hash, (v2.withHashes hash).LayersInFileOrder) ↔ v2.fileRoots <+: v2.layerRoots := by
  have hiff (hlayers : ∀ file ∈ v2.pieceFiles, 0 < v2.numPiecesOf file →
      file.piecesRoot ∈ v2.pieceLayers.keys) :
      (∀ hash, (v2.withHashes hash).LayersInFileOrder) ↔ v2.fileRoots <+: v2.layerRoots := by
    rw [hfit.forall_layersInFileOrder_iff hlayers, hfit.fileRoots_eq hlayers, layerRoots_eq]
    exact Prefix.flatMap_prefix_flatMap_iff (fun _ _ _ => v2.places_head?) _ _
  constructor
  · intro h
    exact (hiff fun _ => hfit.mem_keys h).mp h
  · intro h
    refine (hiff fun file hfile hpos => ?_).mpr h
    have hroot : file.piecesRoot ∈ v2.fileRoots :=
      List.mem_map_of_mem (List.mem_filter.mpr ⟨hfile, decide_eq_true hpos⟩)
    exact (List.filter_sublist.map Prod.fst).subset (h.subset hroot)

end TorrentV2Info

end TorrentV2

end Ccbt
