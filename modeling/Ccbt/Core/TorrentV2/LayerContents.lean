import Ccbt.Core.TorrentV2.Builder
import Ccbt.Core.TorrentV2.PieceLayers
import Ccbt.Python.Bytes

/-!
# What the piece layers of a source hold

Every file of the tree gets the root of its pieces, and the layers of the files are
stored one after the other in the order in which the tree is walked.
-/

namespace Ccbt

open Python HashV2 MerkleTree

namespace TorrentV2

/-! ### One file -/

def pieceHashes (p : Nat) (content : Bytes) : List Bytes := (pieces p content).map sha256

theorem pieceHashes_length {p : Nat} {content h : Bytes} (hh : h ∈ pieceHashes p content) :
    h.length = 32 := by
  obtain ⟨piece, -, rfl⟩ := List.mem_map.mp hh
  exact sha256_length piece

theorem pieceHashes_eq_nil {p : Nat} {content : Bytes} :
    pieceHashes p content = [] ↔ content = [] := by
  cases content with
  | nil => simp [pieceHashes]
  | cons c content => simp [pieceHashes, pieces, piecesAux]

/-- The root of the pieces of a file: zeros for an empty one, and otherwise the Merkle root. -/
def piecesRootOf (p : Nat) (content : Bytes) : Bytes :=
  (calculateMerkleRoot (pieceHashes p content)).getD zeroHash

theorem piecesRootOf_length (p : Nat) (content : Bytes) : (piecesRootOf p content).length = 32 := by
  rw [piecesRootOf]
  cases hroot : calculateMerkleRoot (pieceHashes p content) with
  | none => rfl
  | some r =>
    have hlayer := hashPieceLayer_eq_ok.mpr ⟨fun _ => pieceHashes_length, hroot⟩
    exact hashPieceLayer_length hlayer

def layerOf (p : Nat) (content : Bytes) : PieceLayer :=
  ⟨p, pieceHashes p content, fun _ => pieceHashes_length⟩

theorem hashPieces_eq {p : Nat} (hp : 0 < p) (n : Nat) (content : Bytes) :
    hashPieces p n content = (piecesAux p n content).map sha256 := by
  induction n generalizing content with
  | zero => rfl
  | succ n ih =>
    cases content with
    | nil => rfl
    | cons c content =>
      have htake : ((c :: content).take p).isEmpty = false := by
        cases p with
        | zero => exact absurd hp (lt_irrefl 0)
        | succ p => rfl
      rw [hashPieces, piecesAux, List.map_cons, ← ih, htake]
      rfl

/-- `_build_piece_layer` succeeds for every file. -/
theorem buildPieceLayer_eq {p : Nat} (hp : 0 < p) (content : Bytes) :
    buildPieceLayer p content = .ok (piecesRootOf p content, layerOf p content) := by
  cases content with
  | nil => rfl
  | cons c content =>
    have hhashes : hashPieces p (c :: content).length (c :: content) =
        pieceHashes p (c :: content) := hashPieces_eq hp _ _
    have hne : pieceHashes p (c :: content) ≠ [] := by
      rw [Ne, pieceHashes_eq_nil]
      exact List.cons_ne_nil c content
    obtain ⟨r, hr, -⟩ := root_isSome combine hne
    have hlayer : hashPieceLayer (pieceHashes p (c :: content)) = .ok r :=
      hashPieceLayer_eq_ok.mpr ⟨fun _ => pieceHashes_length, hr⟩
    have hroot : piecesRootOf p (c :: content) = r := by
      rw [piecesRootOf, calculateMerkleRoot, hr, Option.getD_some]
    simp only [buildPieceLayer, List.isEmpty_cons, hhashes, calculatePiecesRoot, layerOf,
      List.isEmpty_iff, hne, hlayer, hroot]
    rfl

/-! ### Walking over the tree -/

def storeLayer (p : Nat) (layers : Layers) (content : Bytes) : Layers :=
  layers.set (piecesRootOf p content) (layerOf p content)

/-- What the files of some entries hold, where `place` says how the path of an entry goes on from
the base path. -/
def contents (s : Source) (place : List Str → List Str) (es : List (List Str × Leaf)) :
    List Bytes :=
  es.map fun e => (s.read (joinSlash (place e.1))).getD []

/-- An entry of the tree once its file has been hashed. -/
def hashedEntry (s : Source) (p : Nat) (place : List Str → List Str) (e : List Str × Leaf) :
    List Str × Leaf :=
  (e.1, ⟨e.2.length, some (piecesRootOf p ((s.read (joinSlash (place e.1))).getD []))⟩)

/-- Walking over a node stores the layers of its files one by one, and notes their roots in the
node. -/
def Walks (s : Source) (p : Nat) (name : Str) (node : FileTreeNode) (filePath : List Str) : Prop :=
  ∀ layers, ∃ node', traverseAndHash s p node filePath layers =
      .ok (node', (contents s (filePath ++ ·) (entries node)).foldl (storeLayer p) layers) ∧
    WellNamed name node' ∧ entries node' = (entries node).map (hashedEntry s p (filePath ++ ·))

theorem walks_file {s : Source} {p : Nat} (hp : 0 < p) (name : Str) (length : Int)
    (piecesRoot : Option Bytes) {filePath : List Str} {content : Bytes}
    (hread : s.read (joinSlash filePath) = some content) :
    Walks s p name (.childless name length piecesRoot) filePath := by
  intro layers
  have hfind : findFile s filePath = .ok (some content) := by rw [findFile, hread]
  have hcontent : s.read (joinSlash (filePath ++ [])) = some content := by
    rw [List.append_nil, hread]
  refine ⟨.childless name length (some (piecesRootOf p content)), ?_, .file _ _ _, ?_⟩
  · rw [traverseAndHash, hfind]
    simp only [bind, Except.bind, buildPieceLayer_eq hp, entries, contents, List.map_singleton,
      hcontent]
    rfl
  · rw [entries, entries, List.map_singleton, hashedEntry, hcontent]
    rfl

theorem contents_cons (s : Source) (place : List Str → List Str) (name : Str) (node : FileTreeNode)
    (children : List (Str × FileTreeNode)) :
    contents s place (treeEntries ((name, node) :: children)) =
      contents s (fun path => place (name :: path)) (entries node) ++
        contents s place (treeEntries children) := by
  rw [treeEntries, contents, List.map_append, List.map_map]
  rfl

/-- The entries of children that have been hashed one by one. -/
theorem treeEntries_hashed {s : Source} {p : Nat} {place : List Str → List Str} {name : Str}
    {node node' : FileTreeNode} {children children' : List (Str × FileTreeNode)}
    (hnode : entries node' = (entries node).map (hashedEntry s p fun path => place (name :: path)))
    (hchildren : treeEntries children' = (treeEntries children).map (hashedEntry s p place)) :
    treeEntries ((name, node') :: children') =
      (treeEntries ((name, node) :: children)).map (hashedEntry s p place) := by
  rw [treeEntries, treeEntries, hnode, hchildren, List.map_append, List.map_map, List.map_map]
  rfl

/-- Walking over children that can be walked over. -/
theorem traverseChildren_spec {s : Source} {p : Nat} {filePath : List Str}
    {children : List (Str × FileTreeNode)}
    (h : ∀ c ∈ children, Walks s p c.1 c.2 (filePath ++ [c.1])) (layers : Layers) :
    ∃ children', traverseChildren s p children filePath layers = .ok (children',
        (contents s (filePath ++ ·) (treeEntries children)).foldl (storeLayer p) layers) ∧
      List.Forall₂ (fun c c' => c'.1 = c.1 ∧ WellNamed c.1 c'.2) children children' ∧
      treeEntries children' = (treeEntries children).map (hashedEntry s p (filePath ++ ·)) := by
  induction children generalizing layers with
  | nil => exact ⟨[], rfl, .nil, rfl⟩
  | cons c children ih =>
    obtain ⟨name, node⟩ := c
    have hbelow : (filePath ++ [name] ++ ·) = fun path => filePath ++ name :: path := by
      funext path
      exact (List.append_cons filePath name path).symm
    have hwalks := h _ List.mem_cons_self layers
    rw [hbelow] at hwalks
    obtain ⟨node', hnode, hnamed, hentries⟩ := hwalks
    obtain ⟨children', hchildren, hall, htree⟩ := ih (fun c hc => h c (List.mem_cons_of_mem _ hc))
      ((contents s (fun path => filePath ++ name :: path) (entries node)).foldl (storeLayer p)
        layers)
    refine ⟨(name, node') :: children', ?_, .cons ⟨rfl, hnamed⟩ hall,
      treeEntries_hashed hentries htree⟩
    rw [traverseChildren, hnode, contents_cons, List.foldl_append]
    simp only [bind, Except.bind, hchildren]
    rfl

/-- Children that stand under the names of others. -/
theorem named_of_forall₂ {P : Str → FileTreeNode → Prop}
    {children children' : List (Str × FileTreeNode)}
    (hall : List.Forall₂ (fun c c' => c'.1 = c.1 ∧ P c.1 c'.2) children children')
    {c' : Str × FileTreeNode} (hc' : c' ∈ children') :
    P c'.1 c'.2 ∧ c'.1 ∈ children.map Prod.fst := by
  induction hall with
  | nil => cases hc'
  | @cons c c₁ children children' hc _ ih =>
    obtain rfl | hc' := List.mem_cons.mp hc'
    · rw [hc.1]
      exact ⟨hc.2, List.mem_cons_self⟩
    · exact ⟨(ih hc').1, List.mem_cons_of_mem _ (ih hc').2⟩

/-- A tree whose files are all there can be walked over. -/
theorem walks {s : Source} {p : Nat} (hp : 0 < p) {name : Str} {node : FileTreeNode}
    (h : WellNamed name node) {filePath : List Str}
    (hread : ∀ e ∈ entries node, (s.read (joinSlash (filePath ++ e.1))).isSome) :
    Walks s p name node filePath := by
  induction h generalizing filePath with
  | file name length piecesRoot =>
    obtain ⟨content, hcontent⟩ := Option.isSome_iff_exists.mp (hread _ (List.mem_singleton_self _))
    exact walks_file hp name length piecesRoot (by simpa using hcontent)
  | @directory name children hne hkeys hparts hchildren ih =>
    have hwalks : ∀ c ∈ children, Walks s p c.1 c.2 (filePath ++ [c.1]) := by
      intro c hc
      apply ih c hc
      intro e he
      have hmem : (c.1 :: e.1, e.2) ∈ treeEntries children := by
        rw [treeEntries_eq_flatMap]
        exact List.mem_flatMap.mpr ⟨c, hc, List.mem_map.mpr ⟨e, he, rfl⟩⟩
      have hsome := hread _ hmem
      rwa [List.append_cons] at hsome
    intro layers
    obtain ⟨children', hchildren', hall, htree⟩ := traverseChildren_spec hwalks layers
    have hkeys' : children'.map Prod.fst = children.map Prod.fst :=
      map_eq_of_forall₂ (hall.imp (fun _ _ h => h.1))
    refine ⟨.withChildren name 0 none children', ?_, .directory name ?_ ?_ ?_ ?_, htree⟩
    · rw [traverseAndHash, hchildren']
      rfl
    · intro hnil
      rw [hnil, List.map_nil] at hkeys'
      exact hne (List.map_eq_nil_iff.mp hkeys'.symm)
    · rwa [hkeys']
    · intro c' hc'
      obtain ⟨c, hc, hname⟩ := List.mem_map.mp (named_of_forall₂ hall hc').2
      rw [← hname]
      exact hparts c hc
    · exact fun c' hc' => (named_of_forall₂ hall hc').1

/-! ### The roots of the tree -/

/-- Where a file of the tree is below the base path. -/
def sourcePath : List Str → List Str
  | [] => []
  | name :: path => if name = ['.'] ∨ name = [] then path else name :: path

/-- The roots that are directories. -/
theorem sourcePath_root {c : Str × FileTreeNode} {name : Str} (h : WellNamed name c.2)
    (hdir : ∀ e ∈ entries c.2, e.1 ≠ []) (path : List Str) :
    sourcePath (c.1 :: path) = rootPath c.1 c.2 ++ path := by
  obtain ⟨rootName, node⟩ := c
  cases h with
  | file => exact absurd rfl (hdir _ (List.mem_singleton_self _))
  | directory =>
    rw [sourcePath, rootPath]
    split <;> rfl

theorem traverseRoots_spec {s : Source} {p : Nat} {tree : List (Str × FileTreeNode)}
    (h : ∀ c ∈ tree, (∃ name, Walks s p name c.2 (rootPath c.1 c.2)) ∧
      ∀ path, sourcePath (c.1 :: path) = rootPath c.1 c.2 ++ path) (layers : Layers) :
    ∃ tree', traverseRoots s p tree layers = .ok (tree',
        (contents s sourcePath (treeEntries tree)).foldl (storeLayer p) layers) ∧
      List.Forall₂ (fun c c' => c'.1 = c.1 ∧ ∃ name, WellNamed name c'.2) tree tree' ∧
      treeEntries tree' = (treeEntries tree).map (hashedEntry s p sourcePath) := by
  induction tree generalizing layers with
  | nil => exact ⟨[], rfl, .nil, rfl⟩
  | cons c tree ih =>
    obtain ⟨rootName, node⟩ := c
    obtain ⟨⟨name, hwalks⟩, hplace⟩ := h _ List.mem_cons_self
    have hbelow : (rootPath rootName node ++ ·) = fun path => sourcePath (rootName :: path) :=
      funext fun path => (hplace path).symm
    have hwalks := hwalks layers
    rw [hbelow] at hwalks
    obtain ⟨node', hnode, hnamed, hentries⟩ := hwalks
    obtain ⟨tree', htree', hall, htree⟩ := ih (fun c hc => h c (List.mem_cons_of_mem _ hc))
      ((contents s (fun path => sourcePath (rootName :: path)) (entries node)).foldl (storeLayer p)
        layers)
    refine ⟨(rootName, node') :: tree', ?_, .cons ⟨rfl, name, hnamed⟩ hall,
      treeEntries_hashed hentries htree⟩
    rw [traverseRoots, hnode, contents_cons, List.foldl_append]
    simp only [bind, Except.bind, htree']
    rfl

/-! ### The layers that are stored -/

/-- What is stored is the layer of one of the files, under the root of that file. -/
theorem get?_storeLayers {p : Nat} {cs : List Bytes} {r : Bytes} {layer : PieceLayer}
    (h : (cs.foldl (storeLayer p) Dict.empty).get? r = some layer) :
    ∃ c ∈ cs, piecesRootOf p c = r ∧ layer = layerOf p c := by
  induction cs using List.reverseRecOn with
  | nil => cases h
  | append_singleton cs c ih =>
    rw [List.foldl_append, List.foldl_cons, List.foldl_nil, storeLayer, Dict.get?_set] at h
    split at h
    · next hr => exact ⟨c, by simp, hr.symm, (Option.some.inj h).symm⟩
    · obtain ⟨c', hc', hlayer⟩ := ih h
      exact ⟨c', List.mem_append_left _ hc', hlayer⟩

/-- Every file has a layer under its root. -/
theorem get?_storeLayers_isSome {p : Nat} {cs : List Bytes} {c : Bytes} (hc : c ∈ cs) :
    ((cs.foldl (storeLayer p) Dict.empty).get? (piecesRootOf p c)).isSome := by
  induction cs using List.reverseRecOn with
  | nil => cases hc
  | append_singleton cs c' ih =>
    rw [List.foldl_append, List.foldl_cons, List.foldl_nil, storeLayer, Dict.get?_set]
    split
    · rfl
    · next hne =>
      rcases List.mem_append.mp hc with hc | hc
      · exact ih hc
      · rw [List.mem_singleton.mp hc] at hne
        exact absurd rfl hne

/-- Where only empty files share their root, no layer is replaced by a different one. -/
theorem numPieces_storeLayers {p : Nat} {cs : List Bytes}
    (h : cs.Pairwise fun c c' => piecesRootOf p c = piecesRootOf p c' → c = [] ∧ c' = []) :
    ((cs.foldl (storeLayer p) Dict.empty).values.map PieceLayer.numPieces).sum =
      (cs.map fun c => (pieceHashes p c).length).sum := by
  induction cs using List.reverseRecOn with
  | nil => rfl
  | append_singleton cs c ih =>
    obtain ⟨hcs, -, hlast⟩ := List.pairwise_append.mp h
    have hset := Dict.sum_values_set PieceLayer.numPieces (cs.foldl (storeLayer p) Dict.empty)
      (piecesRootOf p c) (layerOf p c)
    have hreplaced : (((cs.foldl (storeLayer p) Dict.empty).get? (piecesRootOf p c)).map
        PieceLayer.numPieces).getD 0 = 0 := by
      cases hget : (cs.foldl (storeLayer p) Dict.empty).get? (piecesRootOf p c) with
      | none => rfl
      | some layer =>
        obtain ⟨c', hc', hroot, rfl⟩ := get?_storeLayers hget
        rw [(hlast c' hc' c (List.mem_singleton_self c) hroot).1]
        rfl
    rw [List.foldl_append, List.foldl_cons, List.foldl_nil, storeLayer, List.map_append,
      List.sum_append, List.map_singleton, List.sum_singleton, ← ih hcs]
    rw [hreplaced] at hset
    exact hset

/-! ### The tree of a source -/

theorem sourcePath_listedPath {path : List Str} (hne : path ≠ [])
    (h : ∀ part ∈ path, IsName part) : sourcePath (listedPath path) = path := by
  match path, hne with
  | [name], _ => rfl
  | part :: part' :: rest, _ =>
    have hpart := h part List.mem_cons_self
    rw [listedPath, sourcePath, if_neg (by simp [hpart.ne_dot, hpart.ne_nil])]
    simp

theorem two_le_length_listedPath {path : List Str} (hne : path ≠ []) :
    2 ≤ (listedPath path).length := by
  match path, hne with
  | [name], _ => exact le_rfl
  | part :: part' :: rest, _ => simp [listedPath]

namespace Source

variable (s : Source)

/-- The files of a source by the components of their paths. -/
def pathEntries : List PathEntry := s.files.map fun f => (f.path, f.content.length)

variable {s}

theorem collectFiles_eq_listed (h : s.NoBackslash) : s.collectFiles = s.pathEntries.map listed := by
  rw [collectFiles_eq h, pathEntries, List.map_map]
  rfl

theorem listable (h : s.NoBackslash) : Listable s.resolve s.pathEntries := by
  have hall : ∀ {P : PathEntry → Prop}, (∀ f ∈ s.files, P (f.path, f.content.length)) →
      ∀ e ∈ s.pathEntries, P e := by
    intro P hP e he
    obtain ⟨f, hf, rfl⟩ := List.mem_map.mp he
    exact hP f hf
  refine ⟨hall s.path_ne_nil, hall s.isName, ?_, hall s.resolve_file, ?_⟩
  · rw [Separate, pathEntries, List.pairwise_map]
    exact s.separate
  · exact hall fun f hf => noBackslash_joinSlash h hf

/-- What the tree of a source says of its files. -/
def fileEntry (f : SourceFile) : List Str × Leaf := (listedPath f.path, ⟨f.content.length, none⟩)

/-- What it says of them once they have been hashed. -/
def hashedFile (p : Nat) (f : SourceFile) : List Str × Leaf :=
  (listedPath f.path, ⟨f.content.length, some (piecesRootOf p f.content)⟩)

theorem treeEntries_perm (h : s.NoBackslash) :
    (treeEntries (buildFileTree s.resolve s.collectFiles)).Perm (s.files.map fileEntry) := by
  rw [collectFiles_eq_listed h]
  refine (listable h).buildFileTree_spec.2.trans ?_
  rw [pathEntries, List.map_map]
  exact List.Perm.refl _

theorem read_fileEntry {f : SourceFile} (hf : f ∈ s.files) :
    s.read (joinSlash (sourcePath (fileEntry f).1)) = some f.content := by
  rw [fileEntry, sourcePath_listedPath (s.path_ne_nil f hf) (s.isName f hf)]
  exact s.read_file f hf

/-- The file tree and the piece layers of a source. -/
theorem buildPieceLayers_spec (h : s.NoBackslash) {p : Nat} (hp : 0 < p) :
    ∃ tree layers,
      buildPieceLayers s p (buildFileTree s.resolve s.collectFiles) = .ok (tree, layers) ∧
      WellFormedTree tree ∧ (treeEntries tree).Perm (s.files.map (hashedFile p)) ∧
      ∃ cs : List Bytes, cs.Perm (s.files.map SourceFile.content) ∧
        layers = cs.foldl (storeLayer p) Dict.empty := by
  have hperm := treeEntries_perm h
  have hformed : WellFormedTree (buildFileTree s.resolve s.collectFiles) := by
    rw [collectFiles_eq_listed h]
    exact (listable h).buildFileTree_spec.1
  have hfile : ∀ e ∈ treeEntries (buildFileTree s.resolve s.collectFiles),
      ∃ f ∈ s.files, e = fileEntry f := by
    intro e he
    obtain ⟨f, hf, rfl⟩ := List.mem_map.mp (hperm.mem_iff.mp he)
    exact ⟨f, hf, rfl⟩
  have hroots : ∀ c ∈ buildFileTree s.resolve s.collectFiles,
      (∃ name, Walks s p name c.2 (rootPath c.1 c.2)) ∧
        ∀ path, sourcePath (c.1 :: path) = rootPath c.1 c.2 ++ path := by
    intro c hc
    obtain ⟨name, hnamed⟩ := hformed.nodes c hc
    have hbelow : ∀ e ∈ entries c.2, ∃ f ∈ s.files, (c.1 :: e.1, e.2) = fileEntry f := by
      intro e he
      apply hfile
      rw [treeEntries_eq_flatMap]
      exact List.mem_flatMap.mpr ⟨c, hc, List.mem_map.mpr ⟨e, he, rfl⟩⟩
    have hplace := sourcePath_root hnamed (by
      intro e he hnil
      obtain ⟨f, hf, heq⟩ := hbelow e he
      have htwo := two_le_length_listedPath (s.path_ne_nil f hf)
      rw [← (Prod.mk.inj heq).1, hnil] at htwo
      simp at htwo)
    refine ⟨⟨name, walks hp hnamed ?_⟩, hplace⟩
    intro e he
    obtain ⟨f, hf, heq⟩ := hbelow e he
    have hpath : c.1 :: e.1 = (fileEntry f).1 := congrArg Prod.fst heq
    rw [← hplace, hpath, read_fileEntry hf]
    rfl
  obtain ⟨tree, hbuild, hall, htree⟩ := traverseRoots_spec hroots Dict.empty
  have hkeys : tree.map Prod.fst =
      (buildFileTree s.resolve s.collectFiles).map Prod.fst :=
    map_eq_of_forall₂ (hall.imp fun _ _ h => h.1)
  have hright : ∀ c ∈ tree, (∃ name, WellNamed name c.2) ∧
      c.1 ∈ (buildFileTree s.resolve s.collectFiles).map Prod.fst := fun c hc =>
    named_of_forall₂ (P := fun _ node => ∃ name, WellNamed name node) hall hc
  refine ⟨tree, _, hbuild, ⟨?_, ?_, fun c hc => (hright c hc).1⟩, ?_, _, ?_, rfl⟩
  · rw [hkeys]
    exact hformed.nodup
  · intro c' hc'
    obtain ⟨c, hc, hname⟩ := List.mem_map.mp (hright c' hc').2
    rw [← hname]
    exact hformed.parts c hc
  · rw [htree]
    refine (hperm.map _).trans (List.Perm.of_eq ?_)
    rw [List.map_map]
    apply List.map_congr_left
    intro f hf
    rw [Function.comp, hashedEntry, read_fileEntry hf]
    rfl
  · refine (hperm.map _).trans (List.Perm.of_eq ?_)
    rw [List.map_map]
    apply List.map_congr_left
    intro f hf
    rw [Function.comp, read_fileEntry hf]
    rfl

end Source

end TorrentV2

end Ccbt
