import Ccbt.Core.TorrentV2.FileTree
import Ccbt.Core.TorrentV2.Source
import Ccbt.Python.Grouping

/-!
# The file tree of a list of files

`_build_file_tree` groups the listed paths by their first component, over and
over, until every group is a single file. A file at the top level has no
directory of its own; the tree has it in a directory named by a single dot.
-/

namespace Ccbt

open Python

namespace TorrentV2

def isRootPath (filePath : Str) : Bool := filePath.isEmpty || filePath == ['/']

/-- The file node of a file at the root of its group. -/
def fileNode (name : Str) (file : Str × Nat) : FileTreeNode :=
  .childless (if name.isEmpty then (splitSlash file.1).getLastD [] else name) file.2 none

def firstPart (file : Str × Nat) : Str × (Str × Nat) :=
  ((splitSlash file.1).headD [], joinSlash (splitSlash file.1).tail, file.2)

/-- `_build_file_tree_node`. The early return for a single file at the root gives the node of
the first case below. -/
def buildFileTreeNode : Nat → Str → List (Str × Nat) → Option FileTreeNode
  | 0, _, _ => none
  | n + 1, name, files =>
    let singleFileAtRoot := (files.filter (fun f => isRootPath f.1)).getLast?
    let childrenDict := group ((files.filter (fun f => !isRootPath f.1)).map firstPart)
    match singleFileAtRoot, childrenDict with
    | some file, [] => some (fileNode name file)
    | _, _ =>
      let children := childrenDict.filterMap
        (fun e => (buildFileTreeNode n e.1 e.2).map (fun node => (e.1, node)))
      if children.isEmpty then none else some (.withChildren name 0 none children)

def treeFuel (files : List (Str × Nat)) : Nat := (files.map (fun f => f.1.length)).foldr max 0 + 1

def normalizePath (resolve : Str → Option Str) (filePath : Str) : Str :=
  lstripSlash (replaceBackslash ((resolve filePath).getD filePath))

def rootPart (file : Str × Nat) : Str × (Str × Nat) :=
  if '/' ∈ file.1 then firstPart file else ([], file)

def rootName (name : Str) : Str := if name.isEmpty then ['.'] else name

def rootNode (e : Str × List (Str × Nat)) : Option (Str × FileTreeNode) :=
  (buildFileTreeNode (treeFuel e.2) e.1 e.2).map (fun node => (rootName e.1, node))

def buildFileTree (resolve : Str → Option Str) (files : List (Str × Nat)) :
    List (Str × FileTreeNode) :=
  let normalizedFiles := files.map (fun f => (normalizePath resolve f.1, f.2))
  ((group (normalizedFiles.map rootPart)).filterMap rootNode).foldl
    (fun result e => setEntry e.1 e.2 result) []

-- The fuel is enough

theorem length_lt_treeFuel {files : List (Str × Nat)} {f : Str × Nat} (hf : f ∈ files) :
    f.1.length < treeFuel files := by
  rw [treeFuel, Nat.lt_succ_iff]
  induction files with
  | nil => exact absurd hf List.not_mem_nil
  | cons f' files ih =>
    rw [List.map_cons, List.foldr_cons]
    obtain rfl | hf := List.mem_cons.mp hf
    · exact le_max_left _ _
    · exact (ih hf).trans (le_max_right _ _)

/-- What is left of a path below its first component. -/
theorem length_lt_of_mem_childrenDict {files : List (Str × Nat)} {e : Str × List (Str × Nat)}
    (he : e ∈ group ((files.filter (fun f => !isRootPath f.1)).map firstPart)) {g : Str × Nat}
    (hg : g ∈ e.2) : ∃ f ∈ files, g.1.length < f.1.length := by
  obtain ⟨f, hf, hfirst⟩ := List.mem_map.mp (mem_of_mem_group he hg)
  obtain ⟨hf, hroot⟩ := List.mem_filter.mp hf
  refine ⟨f, hf, ?_⟩
  have hne : f.1 ≠ [] := by
    rintro hnil
    simp [isRootPath, hnil] at hroot
  rw [← (Prod.mk.inj hfirst).2]
  exact length_joinSlash_tail_lt hne

/-- More fuel than the length of the paths makes no difference. -/
theorem buildFileTreeNode_fuel {n m : Nat} (name : Str) {files : List (Str × Nat)}
    (hn : ∀ f ∈ files, f.1.length < n) (hm : ∀ f ∈ files, f.1.length < m) (hn0 : 0 < n)
    (hm0 : 0 < m) : buildFileTreeNode n name files = buildFileTreeNode m name files := by
  induction n generalizing m name files with
  | zero => exact absurd hn0 (lt_irrefl 0)
  | succ n ih =>
    obtain ⟨m, rfl⟩ := Nat.exists_eq_succ_of_ne_zero hm0.ne'
    have hchildren : (group ((files.filter (fun f => !isRootPath f.1)).map firstPart)).filterMap
          (fun e => (buildFileTreeNode n e.1 e.2).map (fun node => (e.1, node))) =
        (group ((files.filter (fun f => !isRootPath f.1)).map firstPart)).filterMap
          (fun e => (buildFileTreeNode m e.1 e.2).map (fun node => (e.1, node))) := by
      apply List.filterMap_congr
      intro e he
      have hlt : ∀ k, (∀ f ∈ files, f.1.length < k + 1) → ∀ g ∈ e.2, g.1.length < k := by
        intro k hk g hg
        obtain ⟨f, hf, hlen⟩ := length_lt_of_mem_childrenDict he hg
        exact hlen.trans_le (Nat.lt_succ_iff.mp (hk f hf))
      obtain ⟨g, hg⟩ := List.exists_mem_of_ne_nil _ (ne_nil_of_mem_group he)
      rw [ih e.1 (hlt n hn) (hlt m hm) (Nat.zero_lt_of_lt (hlt n hn g hg))
        (Nat.zero_lt_of_lt (hlt m hm g hg))]
    rw [buildFileTreeNode, buildFileTreeNode, hchildren]

-- The files of a tree

/-- A file by the components of its path. -/
abbrev PathEntry := List Str × Nat

def listed (e : PathEntry) : Str × Nat := (joinSlash e.1, e.2)

/-- No file stands at or below the path of another one. -/
def Separate (l : List PathEntry) : Prop :=
  l.Pairwise (fun e f => ¬e.1 <+: f.1 ∧ ¬f.1 <+: e.1)

theorem Separate.eq_singleton {l : List PathEntry} (h : Separate l) {e : PathEntry} (he : e ∈ l)
    (hnil : e.1 = []) : l = [e] := by
  match l with
  | [e'] => rw [List.mem_singleton.mp he]
  | e₁ :: e₂ :: l =>
    exfalso
    rw [Separate, List.pairwise_cons] at h
    obtain rfl | he := List.mem_cons.mp he
    · apply (h.1 e₂ List.mem_cons_self).1
      rw [hnil]
      exact List.nil_prefix
    · apply (h.1 e he).2
      rw [hnil]
      exact List.nil_prefix

def heads (e : PathEntry) : Str × PathEntry := (e.1.headD [], e.1.tail, e.2)

theorem firstPart_listed {e : PathEntry} (hne : e.1 ≠ []) (h : ∀ part ∈ e.1, IsPart part) :
    firstPart (listed e) = ((heads e).1, listed (heads e).2) := by
  rw [firstPart, listed, splitSlash_joinSlash (fun part hp => (h part hp).no_slash) hne]
  rfl

theorem isRootPath_listed {e : PathEntry} (hne : e.1 ≠ []) (h : ∀ part ∈ e.1, IsPart part) :
    isRootPath (listed e).1 = false := by
  rw [isRootPath, listed]
  simp [joinSlash_ne_nil h hne, joinSlash_ne_slash h]

theorem childrenDict_eq {l : List PathEntry} (hne : ∀ e ∈ l, e.1 ≠ [])
    (h : ∀ e ∈ l, ∀ part ∈ e.1, IsPart part) :
    group (((l.map listed).filter (fun f => !isRootPath f.1)).map firstPart) =
      (group (l.map heads)).map (fun e => (e.1, e.2.map listed)) := by
  have hall : (l.map listed).filter (fun f => !isRootPath f.1) = l.map listed := by
    rw [List.filter_eq_self]
    intro f hf
    obtain ⟨e, he, rfl⟩ := List.mem_map.mp hf
    rw [isRootPath_listed (hne e he) (h e he)]
    rfl
  rw [hall, ← group_map, List.map_map, List.map_map]
  congr 1
  apply List.map_congr_left
  intro e he
  exact firstPart_listed (hne e he) (h e he)

theorem filter_isRootPath_eq_nil {l : List PathEntry} (hne : ∀ e ∈ l, e.1 ≠ [])
    (h : ∀ e ∈ l, ∀ part ∈ e.1, IsPart part) :
    (l.map listed).filter (fun f => isRootPath f.1) = [] := by
  rw [List.filter_eq_nil_iff]
  intro f hf
  obtain ⟨e, he, rfl⟩ := List.mem_map.mp hf
  rw [isRootPath_listed (hne e he) (h e he)]
  exact Bool.false_ne_true

/-- A group of separate files is separate, if its paths tell what those of the files tell. -/
theorem separate_group {g : PathEntry → Str × PathEntry} {l : List PathEntry} (hsep : Separate l)
    (hg : ∀ e ∈ l, ∀ f ∈ l, (g e).1 = (g f).1 → (g e).2.1 <+: (g f).2.1 → e.1 <+: f.1) {k : Str}
    {es : List PathEntry} (hes : (k, es) ∈ group (l.map g)) : Separate es := by
  rw [mem_group hes, Separate, List.pairwise_map, List.filter_map, List.pairwise_map]
  refine (hsep.filter _).imp_of_mem ?_
  intro e f he hf hef
  obtain ⟨he, hke⟩ := List.mem_filter.mp he
  obtain ⟨hf, hkf⟩ := List.mem_filter.mp hf
  have hke : (g e).1 = k := by simpa using hke
  have hkf : (g f).1 = k := by simpa using hkf
  exact ⟨fun h => hef.1 (hg e he f hf (hke.trans hkf.symm) h),
    fun h => hef.2 (hg f hf e he (hkf.trans hke.symm) h)⟩

theorem isPrefix_of_heads {e f : PathEntry} (he : e.1 ≠ []) (hf : f.1 ≠ [])
    (hk : (heads e).1 = (heads f).1) (h : (heads e).2.1 <+: (heads f).2.1) : e.1 <+: f.1 := by
  obtain ⟨part, parts, hparts⟩ := List.exists_cons_of_ne_nil he
  obtain ⟨part', parts', hparts'⟩ := List.exists_cons_of_ne_nil hf
  rw [heads, heads, hparts, hparts'] at hk h
  rw [hparts, hparts', List.cons_prefix_cons]
  exact ⟨hk, h⟩

/-- What the group of a first component holds of a file. -/
theorem mem_of_mem_group_heads {l : List PathEntry} (hne : ∀ e ∈ l, e.1 ≠ []) {k : Str}
    {es : List PathEntry} (hes : (k, es) ∈ group (l.map heads)) {e : PathEntry} (he : e ∈ es) :
    (k :: e.1, e.2) ∈ l := by
  obtain ⟨f, hf, hheads⟩ := List.mem_map.mp (mem_of_mem_group hes he)
  obtain ⟨part, parts, hparts⟩ := List.exists_cons_of_ne_nil (hne f hf)
  obtain ⟨path, length⟩ := f
  obtain rfl : path = part :: parts := hparts
  obtain ⟨rfl, rfl⟩ := Prod.mk.inj hheads
  exact hf

def unhashed (e : PathEntry) : List Str × Leaf := (e.1, ⟨e.2, none⟩)

/-- Trees for the groups make up the tree of the whole. -/
theorem treeEntries_perm_of_groups {g : PathEntry → Str × PathEntry} {key : Str → Str}
    {l : List PathEntry} {children : List (Str × FileTreeNode)}
    (h : List.Forall₂ (fun e c => c.1 = key e.1 ∧ (entries c.2).Perm (e.2.map unhashed))
      (group (l.map g)) children) :
    (treeEntries children).Perm
      (l.map (fun e => (key (g e).1 :: (g e).2.1, (unhashed (g e).2).2))) := by
  have hchildren : (treeEntries children).Perm
      ((ungroup (group (l.map g))).map (fun e => (key e.1 :: e.2.1, (unhashed e.2).2))) := by
    rw [treeEntries_eq_flatMap, ungroup, List.map_flatMap]
    refine (flatMap_perm_of_forall₂ (h.imp ?_)).symm
    rintro e c ⟨hname, hperm⟩
    have hmap := (hperm.map (fun f => (key e.1 :: f.1, f.2))).symm
    rw [List.map_map] at hmap
    rw [hname, List.map_map]
    exact hmap
  refine hchildren.trans (((ungroup_group (l.map g)).map _).trans ?_)
  rw [List.map_map]
  rfl

theorem map_heads_eq {l : List PathEntry} (hne : ∀ e ∈ l, e.1 ≠ []) :
    l.map (fun e => ((heads e).1 :: (heads e).2.1, (unhashed (heads e).2).2)) = l.map unhashed := by
  apply List.map_congr_left
  rintro ⟨path, length⟩ he
  obtain ⟨part, parts, rfl⟩ := List.exists_cons_of_ne_nil (hne _ he)
  rfl

theorem length_listed_lt {part : Str} (hpart : part ≠ []) (e : PathEntry) :
    (listed e).1.length < (listed (part :: e.1, e.2)).1.length := by
  rw [listed, listed]
  by_cases hnil : e.1 = []
  · simpa [hnil] using List.length_pos_of_ne_nil hpart
  · rw [joinSlash_cons part hnil]
    simp
    omega

/-- A group of separate files becomes a tree of these files. -/
theorem buildFileTreeNode_spec {n : Nat} (name : Str) {l : List PathEntry} (hl : l ≠ [])
    (hparts : ∀ e ∈ l, ∀ part ∈ e.1, IsPart part) (hsep : Separate l)
    (hlen : ∀ e ∈ l, (listed e).1.length < n) :
    ∃ node, buildFileTreeNode n name (l.map listed) = some node ∧ WellNamed name node ∧
      (entries node).Perm (l.map unhashed) := by
  induction n generalizing name l with
  | zero =>
    obtain ⟨e, he⟩ := List.exists_mem_of_ne_nil l hl
    exact absurd (hlen e he) (Nat.not_lt_zero _)
  | succ n ih =>
    by_cases hroot : ∃ e ∈ l, e.1 = []
    · obtain ⟨⟨path, length⟩, he, hnil⟩ := hroot
      obtain rfl : path = [] := hnil
      rw [hsep.eq_singleton he rfl]
      refine ⟨.childless name length none, ?_, .file name length none, .refl _⟩
      cases name <;> rfl
    · have hne : ∀ e ∈ l, e.1 ≠ [] := fun e he hnil => hroot ⟨e, he, hnil⟩
      have hnode : ∀ e ∈ group (l.map heads), ∃ c, (buildFileTreeNode n e.1 (e.2.map listed)).map
          (fun node => (e.1, node)) = some c ∧ c.1 = e.1 ∧ WellNamed c.1 c.2 ∧
            (entries c.2).Perm (e.2.map unhashed) := by
        rintro ⟨k, es⟩ hes
        have hmem : ∀ f ∈ es, (k :: f.1, f.2) ∈ l := fun f hf => mem_of_mem_group_heads hne hes hf
        obtain ⟨node, hbuild, hname, hperm⟩ := ih k (ne_nil_of_mem_group hes)
          (fun f hf part hp => hparts _ (hmem f hf) part (List.mem_cons_of_mem _ hp))
          (separate_group hsep (fun e he f hf => isPrefix_of_heads (hne e he) (hne f hf)) hes)
          (fun f hf =>
            (length_listed_lt (hparts _ (hmem f hf) k List.mem_cons_self).ne_nil f).trans_le
            (Nat.lt_succ_iff.mp (hlen _ (hmem f hf))))
        exact ⟨(k, node), by rw [hbuild]; rfl, rfl, hname, hperm⟩
      have hchildren := forall₂_filterMap hnode
      have hkeys := map_eq_of_forall₂ (g := Prod.fst) (f := Prod.fst)
        (hchildren.imp (fun _ _ h => h.1))
      have hchild : ∀ c ∈ (group (l.map heads)).filterMap (fun e =>
          (buildFileTreeNode n e.1 (e.2.map listed)).map (fun node => (e.1, node))),
          IsPart c.1 ∧ WellNamed c.1 c.2 := by
        intro c hc
        obtain ⟨e, he, hc⟩ := List.mem_filterMap.mp hc
        obtain ⟨c', hc', hname, hnamed, -⟩ := hnode e he
        obtain rfl := Option.some.inj (hc.symm.trans hc')
        obtain ⟨f, hf⟩ := List.exists_mem_of_ne_nil _ (ne_nil_of_mem_group he)
        rw [hname] at hnamed ⊢
        exact ⟨hparts _ (mem_of_mem_group_heads hne he hf) e.1 List.mem_cons_self, hnamed⟩
      have hempty : (group (l.map heads)).filterMap (fun e =>
          (buildFileTreeNode n e.1 (e.2.map listed)).map (fun node => (e.1, node))) ≠ [] := by
        intro hnil
        rw [hnil] at hkeys
        obtain ⟨e, he⟩ := List.exists_mem_of_ne_nil l hl
        have hmem : (heads e).1 ∈ (group (l.map heads)).map Prod.fst :=
          mem_keys_group.mpr (List.mem_map_of_mem (List.mem_map_of_mem he))
        rw [← hkeys] at hmem
        exact absurd hmem List.not_mem_nil
      refine ⟨.withChildren name 0 none _, ?_,
        .directory name hempty ?_ (fun c hc => (hchild c hc).1)
        (fun c hc => (hchild c hc).2), ?_⟩
      · rw [buildFileTreeNode, filter_isRootPath_eq_nil hne hparts, childrenDict_eq hne hparts,
          List.filterMap_map]
        simp only [List.getLast?_nil]
        rw [if_neg (by simpa using hempty)]
        rfl
      · rw [hkeys]
        exact nodup_keys_group _
      · rw [← map_heads_eq hne]
        have hgroups := hchildren.imp (fun e c h => (⟨h.1, h.2.2⟩ :
          c.1 = id e.1 ∧ (entries c.2).Perm (e.2.map unhashed)))
        exact treeEntries_perm_of_groups hgroups

-- The top level

/-- Where a file of the source stands in the tree: a file at the top level is put into a
directory named by a dot. -/
def listedPath : List Str → List Str
  | [name] => [['.'], name]
  | path => path

/-- The groups of `rootPart` are those of the root directories. -/
def rootHead (e : PathEntry) : Str × PathEntry :=
  match e.1 with
  | [_] => ([], e)
  | _ => heads e

theorem rootPart_listed {e : PathEntry} (hne : e.1 ≠ []) (h : ∀ part ∈ e.1, IsPart part) :
    rootPart (listed e) = ((rootHead e).1, listed (rootHead e).2) := by
  obtain ⟨path, length⟩ := e
  rw [rootPart]
  have hslash : '/' ∈ (listed (path, length)).1 ↔ 2 ≤ path.length :=
    slash_mem_joinSlash (fun part hp => (h part hp).no_slash)
  match path, hne with
  | [name], _ => rw [if_neg (by rw [hslash]; simp)]; rfl
  | part :: part' :: rest, _ =>
    rw [if_pos (hslash.mpr (by simp))]
    exact firstPart_listed (List.cons_ne_nil _ _) h

theorem rootHead_path {e : PathEntry} (hne : e.1 ≠ []) (h : ∀ part ∈ e.1, IsPart part) :
    (rootName (rootHead e).1 :: (rootHead e).2.1, (unhashed (rootHead e).2).2) =
      (listedPath e.1, (unhashed e).2) := by
  obtain ⟨path, length⟩ := e
  match path, hne with
  | [name], _ => rfl
  | part :: part' :: rest, _ =>
    have hpart : part ≠ [] := (h part List.mem_cons_self).ne_nil
    simp [rootHead, heads, rootName, listedPath, unhashed, hpart]

theorem isPrefix_of_rootHead {e f : PathEntry} (he : e.1 ≠ []) (hf : f.1 ≠ [])
    (hpe : ∀ part ∈ e.1, IsPart part) (hpf : ∀ part ∈ f.1, IsPart part)
    (hk : (rootHead e).1 = (rootHead f).1) (h : (rootHead e).2.1 <+: (rootHead f).2.1) :
    e.1 <+: f.1 := by
  obtain ⟨path, length⟩ := e
  obtain ⟨path', length'⟩ := f
  match path, path', he, hf with
  | [name], [name'], _, _ => exact h
  | [name], part :: part' :: rest, _, _ => exact absurd hk.symm (hpf part List.mem_cons_self).ne_nil
  | part :: part' :: rest, [name], _, _ => exact absurd hk (hpe part List.mem_cons_self).ne_nil
  | part :: part' :: rest, part₁ :: part₁' :: rest₁, he, hf => exact isPrefix_of_heads he hf hk h

/-- What the group of a root directory holds of a file. -/
theorem mem_of_mem_group_rootHead {l : List PathEntry} (hne : ∀ e ∈ l, e.1 ≠ []) {k : Str}
    {es : List PathEntry} (hes : (k, es) ∈ group (l.map rootHead)) {e : PathEntry} (he : e ∈ es) :
    e ∈ l ∧ k = [] ∨ (k :: e.1, e.2) ∈ l := by
  obtain ⟨⟨path, length⟩, hf, hhead⟩ := List.mem_map.mp (mem_of_mem_group hes he)
  match path, hne _ hf with
  | [name], _ =>
    obtain ⟨rfl, rfl⟩ := Prod.mk.inj hhead
    exact Or.inl ⟨hf, rfl⟩
  | part :: part' :: rest, _ =>
    obtain ⟨rfl, rfl⟩ := Prod.mk.inj hhead
    exact Or.inr hf

theorem normalizePath_listed {resolve : Str → Option Str} {e : PathEntry}
    (hresolve : resolve (listed e).1 = some (listed e).1) (hback : '\\' ∉ (listed e).1)
    (h : ∀ part ∈ e.1, IsPart part) : normalizePath resolve (listed e).1 = (listed e).1 := by
  rw [normalizePath, hresolve, Option.getD_some, replaceBackslash_eq_self hback]
  exact lstripSlash_joinSlash h

/-- The files of a source, by the components of their paths. -/
structure Listable (resolve : Str → Option Str) (l : List PathEntry) : Prop where
  path_ne_nil : ∀ e ∈ l, e.1 ≠ []
  isName : ∀ e ∈ l, ∀ part ∈ e.1, IsName part
  separate : Separate l
  resolved : ∀ e ∈ l, resolve (listed e).1 = some (listed e).1
  noBackslash : ∀ e ∈ l, '\\' ∉ (listed e).1

namespace Listable

variable {resolve : Str → Option Str} {l : List PathEntry}

theorem isPart (h : Listable resolve l) : ∀ e ∈ l, ∀ part ∈ e.1, IsPart part :=
  fun e he part hp => (h.isName e he part hp).toIsPart

theorem groups_eq (h : Listable resolve l) :
    group (((l.map listed).map (fun f => (normalizePath resolve f.1, f.2))).map rootPart) =
      (group (l.map rootHead)).map (fun e => (e.1, e.2.map listed)) := by
  rw [← group_map, List.map_map, List.map_map, List.map_map]
  congr 1
  apply List.map_congr_left
  intro e he
  show rootPart (normalizePath resolve (listed e).1, (listed e).2) = _
  rw [normalizePath_listed (h.resolved e he) (h.noBackslash e he) (h.isPart e he)]
  exact rootPart_listed (h.path_ne_nil e he) (h.isPart e he)

/-- Every root directory becomes a tree of the files in it. -/
theorem root_spec (h : Listable resolve l) {e : Str × List PathEntry}
    (he : e ∈ group (l.map rootHead)) :
    ∃ node, buildFileTreeNode (treeFuel (e.2.map listed)) e.1 (e.2.map listed) = some node ∧
      WellNamed e.1 node ∧ (entries node).Perm (e.2.map unhashed) := by
  obtain ⟨k, es⟩ := e
  have hparts : ∀ f ∈ es, ∀ part ∈ f.1, IsPart part := by
    intro f hf part hp
    obtain ⟨hmem, -⟩ | hmem := mem_of_mem_group_rootHead h.path_ne_nil he hf
    · exact h.isPart f hmem part hp
    · exact h.isPart _ hmem part (List.mem_cons_of_mem _ hp)
  have hsep : Separate es := separate_group h.separate (fun e he f hf =>
    isPrefix_of_rootHead (h.path_ne_nil e he) (h.path_ne_nil f hf) (h.isPart e he)
      (h.isPart f hf)) he
  exact buildFileTreeNode_spec k (ne_nil_of_mem_group he) hparts hsep
    (fun f hf => length_lt_treeFuel (List.mem_map_of_mem hf))

/-- The names of the roots are told apart in the tree. -/
theorem root_nodup (h : Listable resolve l) :
    (((group (l.map rootHead)).map Prod.fst).map rootName).Nodup := by
  have hdot : ∀ k ∈ (group (l.map rootHead)).map Prod.fst, k ≠ ['.'] := by
    intro k hk
    obtain ⟨⟨k, es⟩, he, rfl⟩ := List.mem_map.mp hk
    rintro rfl
    obtain ⟨f, hf⟩ := List.exists_mem_of_ne_nil _ (ne_nil_of_mem_group he)
    obtain ⟨-, hk⟩ | hmem := mem_of_mem_group_rootHead h.path_ne_nil he hf
    · exact absurd hk (by decide)
    · exact (h.isName _ hmem _ List.mem_cons_self).ne_dot rfl
  refine List.Nodup.map_on ?_ (nodup_keys_group _)
  intro j hj k hk heq
  cases j with
  | nil =>
    cases k with
    | nil => rfl
    | cons c k => exact absurd heq.symm (hdot _ hk)
  | cons b j =>
    cases k with
    | nil => exact absurd heq (hdot _ hj)
    | cons c k => exact heq

theorem isPart_rootName (h : Listable resolve l) {e : Str × List PathEntry}
    (he : e ∈ group (l.map rootHead)) : IsPart (rootName e.1) := by
  obtain ⟨k, es⟩ := e
  obtain ⟨f, hf⟩ := List.exists_mem_of_ne_nil _ (ne_nil_of_mem_group he)
  obtain ⟨-, rfl⟩ | hmem := mem_of_mem_group_rootHead h.path_ne_nil he hf
  · exact ⟨List.cons_ne_nil _ _, by simp [rootName]⟩
  · have hpart := h.isPart _ hmem k List.mem_cons_self
    rw [rootName, if_neg (by simpa using hpart.ne_nil)]
    exact hpart

/-- The tree of a list of files has exactly these files, those of the top level in the
directory named by a dot. -/
theorem buildFileTree_spec (h : Listable resolve l) :
    WellFormedTree (buildFileTree resolve (l.map listed)) ∧
      (treeEntries (buildFileTree resolve (l.map listed))).Perm
        (l.map (fun e => (listedPath e.1, ⟨e.2, none⟩))) := by
  have hroot : ∀ e ∈ group (l.map rootHead), ∃ c, rootNode (e.1, e.2.map listed) = some c ∧
      c.1 = rootName e.1 ∧ WellNamed e.1 c.2 ∧ (entries c.2).Perm (e.2.map unhashed) := by
    intro e he
    obtain ⟨node, hbuild, hnamed, hperm⟩ := h.root_spec he
    exact ⟨(rootName e.1, node), by rw [rootNode, hbuild]; rfl, rfl, hnamed, hperm⟩
  have hroots := forall₂_filterMap hroot
  have hkeys : ((group (l.map rootHead)).filterMap
      (fun e => rootNode (e.1, e.2.map listed))).map Prod.fst =
      ((group (l.map rootHead)).map Prod.fst).map rootName := by
    rw [List.map_map]
    exact map_eq_of_forall₂ (hroots.imp (fun _ _ h => h.1))
  have hnodup := h.root_nodup
  rw [← hkeys] at hnodup
  have htree : buildFileTree resolve (l.map listed) =
      (group (l.map rootHead)).filterMap (fun e => rootNode (e.1, e.2.map listed)) := by
    rw [buildFileTree, h.groups_eq, List.filterMap_map]
    exact foldl_setEntry_eq_append hnodup
  rw [htree]
  refine ⟨⟨hnodup, ?_, ?_⟩, ?_⟩
  · intro c hc
    obtain ⟨e, he, hc⟩ := List.mem_filterMap.mp hc
    obtain ⟨c', hc', hname, -, -⟩ := hroot e he
    obtain rfl := Option.some.inj (hc.symm.trans hc')
    rw [hname]
    exact h.isPart_rootName he
  · intro c hc
    obtain ⟨e, he, hc⟩ := List.mem_filterMap.mp hc
    obtain ⟨c', hc', -, hnamed, -⟩ := hroot e he
    obtain rfl := Option.some.inj (hc.symm.trans hc')
    exact ⟨e.1, hnamed⟩
  · refine (treeEntries_perm_of_groups (hroots.imp (fun e c h => ⟨h.1, h.2.2⟩))).trans ?_
    refine List.Perm.of_eq (List.map_congr_left ?_)
    intro e he
    exact rootHead_path (h.path_ne_nil e he) (h.isPart e he)

end Listable

end TorrentV2

end Ccbt
