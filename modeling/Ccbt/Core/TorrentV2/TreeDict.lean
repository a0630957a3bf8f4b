import Ccbt.Core.TorrentV2.PieceLayers
import Ccbt.Core.TorrentV2.Written
import Mathlib.Data.List.Perm.Basic

/-!
# File trees as dictionaries

A tree whose files have been hashed is written as a dictionary of dictionaries. The
parser makes the same tree from it again, but for the order of the children, which is the
one of their encoded names.
-/

namespace Ccbt

open Python HashV2 MerkleTree

namespace TorrentV2

/-!
## Trees that have been hashed

Once every file of a tree has the root of its pieces, the tree itself has a hash, and
every function on it succeeds.
-/

/-- What a file that has been hashed is like. -/
structure Leaf.Hashed (leaf : Leaf) : Prop where
  length_nonneg : 0 ≤ leaf.length
  length_lt : leaf.length < 2 ^ 63
  piecesRoot : ∃ root, leaf.piecesRoot = some root ∧ root.length = 32

/-- A node of a tree, all of whose files have been hashed. -/
inductive HashedNode : Str → FileTreeNode → Prop
  | file (name : Str) {length : Int} {root : Bytes} (length_nonneg : 0 ≤ length)
      (length_lt : length < 2 ^ 63) (root_length : root.length = 32) :
      HashedNode name (.childless name length (some root))
  | directory (name : Str) {children : List (Str × FileTreeNode)} (hne : children ≠ [])
      (hkeys : (children.map Prod.fst).Nodup) (hparts : ∀ c ∈ children, IsPart c.1)
      (hchildren : ∀ c ∈ children, HashedNode c.1 c.2) :
      HashedNode name (.withChildren name 0 none children)

theorem forall_treeEntries {P : Leaf → Prop} {children : List (Str × FileTreeNode)} :
    (∀ e ∈ treeEntries children, P e.2) ↔ ∀ c ∈ children, ∀ e ∈ entries c.2, P e.2 := by
  rw [treeEntries_eq_flatMap]
  simp only [List.mem_flatMap, List.mem_map]
  constructor
  · exact fun h c hc e he => h (c.1 :: e.1, e.2) ⟨c, hc, e, he, rfl⟩
  · rintro h _ ⟨c, hc, e, he, rfl⟩
    exact h c hc e he

theorem WellNamed.hashedNode {name : Str} {node : FileTreeNode} (h : WellNamed name node)
    (hleaves : ∀ e ∈ entries node, e.2.Hashed) : HashedNode name node := by
  induction h with
  | file name length piecesRoot =>
    have hleaf := hleaves _ (List.mem_singleton_self _)
    obtain ⟨root, hroot, hlen⟩ := hleaf.piecesRoot
    obtain rfl : piecesRoot = some root := hroot
    exact .file name hleaf.length_nonneg hleaf.length_lt hlen
  | directory name hne hkeys hparts _ ih =>
    exact .directory name hne hkeys hparts
      (fun c hc => ih c hc (forall_treeEntries.mp hleaves c hc))

/-- The top level of a tree, all of whose files have been hashed. -/
structure HashedTree (tree : List (Str × FileTreeNode)) : Prop where
  nodup : (tree.map Prod.fst).Nodup
  parts : ∀ c ∈ tree, IsPart c.1
  nodes : ∀ c ∈ tree, ∃ name, HashedNode name c.2

theorem WellFormedTree.hashedTree {tree : List (Str × FileTreeNode)} (h : WellFormedTree tree)
    (hleaves : ∀ e ∈ treeEntries tree, e.2.Hashed) : HashedTree tree := by
  refine ⟨h.nodup, h.parts, ?_⟩
  intro c hc
  obtain ⟨name, hnamed⟩ := h.nodes c hc
  exact ⟨name, hnamed.hashedNode (forall_treeEntries.mp hleaves c hc)⟩

/-! ### The hash of the tree -/

theorem sortedHashes_isOk {hashes : List (Str × Except TreeError Bytes)}
    (h : ∀ e ∈ hashes, ∃ b, e.2 = .ok b) (hne : hashes ≠ []) :
    ∃ b, (sortedHashes hashes >>= joinHashes) = .ok b := by
  have hsorted := sortOn_perm (fun e : Str × Except TreeError Bytes => e.1) hashes
  obtain ⟨bs, hbs, hlen⟩ := Torrent.mapM_isOk (f := Prod.snd)
    fun e he => h e (hsorted.mem_iff.mp he)
  have hbsne : bs ≠ [] := by
    rw [← List.length_pos_iff, hlen, hsorted.length_eq]
    exact List.length_pos_of_ne_nil hne
  obtain ⟨r, hr, -⟩ := root_isSome combine hbsne
  have hjoin : ∃ b, joinHashes bs = .ok b := by
    rw [joinHashes.eq_def]
    split
    · exact ⟨_, rfl⟩
    · rw [calculateMerkleRoot, hr]
      exact ⟨r, rfl⟩
  obtain ⟨b, hb⟩ := hjoin
  refine ⟨b, ?_⟩
  rw [sortedHashes, hbs]
  exact hb

theorem HashedNode.hashNode_isOk {name : Str} {node : FileTreeNode} (h : HashedNode name node)
    (invalid : TreeError) : ∃ b, hashNode invalid node = .ok b := by
  induction h generalizing invalid with
  | @file name length root length_nonneg length_lt root_length =>
    rw [hashNode, hashFileNode, if_neg (by simp [root_length]), if_neg (by omega)]
    exact ⟨_, rfl⟩
  | @directory name children hne _ _ _ ih =>
    rw [hashNode, if_neg (by simpa using hne), hashDirectory, hashChildren_eq_map,
      if_neg (by simpa using hne)]
    refine sortedHashes_isOk ?_ (by simpa using hne)
    intro e he
    obtain ⟨c, hc, rfl⟩ := List.mem_map.mp he
    exact ih c hc _

/-- `hash_file_tree` succeeds. -/
theorem HashedTree.hashFileTree_isOk {tree : List (Str × FileTreeNode)} (h : HashedTree tree) :
    ∃ b, hashFileTree tree = .ok b := by
  rw [hashFileTree]
  split
  · exact ⟨_, rfl⟩
  · next hne =>
    refine sortedHashes_isOk ?_ (by simpa using hne)
    intro e he
    obtain ⟨c, hc, rfl⟩ := List.mem_map.mp he
    obtain ⟨name, hnode⟩ := h.nodes c hc
    exact hnode.hashNode_isOk _

/-! ## Trees and dictionaries -/

open Torrent Bencode

/-! ### Paths -/

/-- A path is put together from its components one by one. -/
theorem joinPathName_joinSlash {dir : List Str} (h : ∀ part ∈ dir, IsPart part) (name : Str) :
    joinPathName (joinSlash dir) name = joinSlash (dir ++ [name]) := by
  cases dir with
  | nil => simp [joinPathName]
  | cons part dir =>
    have hne : (joinSlash (part :: dir)).isEmpty = false := by
      simpa using joinSlash_ne_nil h (List.cons_ne_nil _ _)
    rw [joinPathName, hne, joinSlash_concat (List.cons_ne_nil _ _)]
    rfl

theorem splitSlash_concat {dir : List Str} {name : Str} (h : ∀ part ∈ dir ++ [name], IsPart part) :
    splitSlash (joinSlash (dir ++ [name])) = dir ++ [name] :=
  splitSlash_joinSlash (fun part hp => (h part hp).no_slash) (by simp)

theorem lastPart_joinSlash {dir : List Str} {name : Str} (h : ∀ part ∈ dir ++ [name], IsPart part) :
    lastPart (joinSlash (dir ++ [name])) = name := by
  have hne : (joinSlash (dir ++ [name])).isEmpty = false := by
    simpa using joinSlash_ne_nil h (by simp)
  rw [lastPart, hne, splitSlash_concat h]
  simp

theorem isPart_concat (dir : List Str) {name : Str} (h : ∀ part ∈ dir, IsPart part)
    (hname : IsPart name) : ∀ part ∈ dir ++ [name], IsPart part := by
  simpa [or_imp, forall_and] using ⟨h, hname⟩

/-! ### Writing -/

mutual

def nodeFields : FileTreeNode → PyDict
  | .childless _ length piecesRoot =>
    [entry "" (.dict [entry "length" (.int length),
      entry "pieces root" (.bytes (piecesRoot.getD []))])]
  | .withChildren _ _ _ children => childFields children

def childFields : List (Str × FileTreeNode) → PyDict
  | [] => []
  | (name, node) :: children => (textKey name, .dict (nodeFields node)) :: childFields children

end

theorem childFields_eq_map (children : List (Str × FileTreeNode)) :
    childFields children = children.map fun c => (textKey c.1, .dict (nodeFields c.2)) := by
  induction children with
  | nil => rfl
  | cons c children ih => rw [childFields, ih, List.map_cons]

theorem textKey_injective : Function.Injective textKey := by
  intro a b h
  exact utf8Encode_injective (Key.bytes.inj h)

theorem childrenToDict_eq {children : List (Str × FileTreeNode)}
    (h : ∀ c ∈ children, nodeToDict c.2 = .ok (nodeFields c.2)) (result : PyDict)
    (hkeys : (result.map Prod.fst ++ children.map fun c => textKey c.1).Nodup) :
    childrenToDict children result = .ok (result ++ childFields children) := by
  induction children generalizing result with
  | nil => rw [childrenToDict, childFields, List.append_nil]
  | cons c children ih =>
    obtain ⟨name, node⟩ := c
    rw [List.map_cons, List.append_cons] at hkeys
    have hfresh : textKey name ∉ result.map Prod.fst := notMem_of_nodup_append hkeys
    rw [childrenToDict, h _ List.mem_cons_self, childFields]
    simp only [bind, Except.bind]
    rw [setEntry_of_notMem hfresh, ih (fun c hc => h c (List.mem_cons_of_mem _ hc)) _,
      List.append_assoc, List.singleton_append]
    simpa using hkeys

theorem HashedNode.nodeToDict_eq {name : Str} {node : FileTreeNode} (h : HashedNode name node) :
    nodeToDict node = .ok (nodeFields node) := by
  induction h with
  | file => rfl
  | directory name hne hkeys _ _ ih =>
    have hnodup := hkeys.map textKey_injective
    rw [List.map_map] at hnodup
    rw [nodeToDict, if_neg (by simpa using hne), nodeFields]
    exact childrenToDict_eq ih [] hnodup

theorem HashedNode.stored {name : Str} {node : FileTreeNode} (h : HashedNode name node) :
    Stored (nodeFields node) :=
  stored_nodeToDict h.nodeToDict_eq

/-! ### Reading -/

mutual

/-- The node that the parser makes of the dictionary of a node. -/
def parsedNode : Str → FileTreeNode → FileTreeNode
  | name, .childless _ length piecesRoot => .childless name length piecesRoot
  | name, .withChildren _ _ _ children =>
    .withChildren name 0 none (sortOn (fun c => utf8Encode c.1) (parsedChildren children))

def parsedChildren : List (Str × FileTreeNode) → List (Str × FileTreeNode)
  | [] => []
  | (name, node) :: children => (name, parsedNode name node) :: parsedChildren children

end

theorem parsedChildren_eq_map (children : List (Str × FileTreeNode)) :
    parsedChildren children = children.map fun c => (c.1, parsedNode c.1 c.2) := by
  induction children with
  | nil => rfl
  | cons c children ih => rw [parsedChildren, ih, List.map_cons]

/-- The tree that the parser makes of the dictionary of a tree. -/
def parsedTree (tree : List (Str × FileTreeNode)) : List (Str × FileTreeNode) :=
  sortOn (fun c => utf8Encode c.1) (parsedChildren tree)

theorem parsedTree_eq_map (tree : List (Str × FileTreeNode)) :
    parsedTree tree =
      (sortOn (fun c => utf8Encode c.1) tree).map fun c => (c.1, parsedNode c.1 c.2) := by
  rw [parsedTree, parsedChildren_eq_map, sortOn_map]

/-- The dictionary of a directory as it is read back. -/
theorem normalDict_childFields {children : List (Str × FileTreeNode)}
    (h : Stored (childFields children)) :
    normalDict (childFields children) = (sortOn (fun c => utf8Encode c.1) children).map
      fun c => (textKey c.1, normal (.dict (nodeFields c.2))) := by
  rw [normalDict, h.normalEntries_eq, childFields_eq_map, List.map_map, sortOn_map]
  rfl

theorem childName_textKey (name path : Str) : childName (textKey name) path = .ok name := by
  simp only [childName, textKey, utf8Decode_utf8Encode]

/-- The loop of the parser over the children of a directory. -/
theorem parseChildren_eq {children : List (Str × FileTreeNode)} {path : Str}
    (h : ∀ c ∈ children, parseFileTree (normal (.dict (nodeFields c.2))) (joinPathName path c.1) =
      .ok (parsedNode c.1 c.2)) (result : List (Str × FileTreeNode))
    (hkeys : (result.map Prod.fst ++ children.map Prod.fst).Nodup) :
    parseChildren (children.map fun c => (textKey c.1, normal (.dict (nodeFields c.2)))) path
      result = .ok (result ++ children.map fun c => (c.1, parsedNode c.1 c.2)) := by
  induction children generalizing result with
  | nil => rw [List.map_nil, parseChildren, List.map_nil, List.append_nil]
  | cons c children ih =>
    rw [List.map_cons, List.append_cons] at hkeys
    have hfresh : c.1 ∉ result.map Prod.fst := notMem_of_nodup_append hkeys
    rw [List.map_cons, parseChildren, childName_textKey]
    simp only [bind, Except.bind, h _ List.mem_cons_self]
    rw [setEntry_of_notMem hfresh, ih (fun c hc => h c (List.mem_cons_of_mem _ hc)) _,
      List.map_cons, List.append_assoc, List.singleton_append]
    simpa using hkeys

/-- The parser on the dictionary of a file. -/
theorem parseFileTree_file {dir : List Str} {name name' : Str} {length : Int} {root : Bytes}
    (hdir : ∀ part ∈ dir ++ [name], IsPart part) (length_nonneg : 0 ≤ length)
    (root_length : root.length = 32)
    (hstored : Stored (nodeFields (.childless name' length (some root)))) :
    parseFileTree (normal (.dict (nodeFields (.childless name' length (some root)))))
      (joinSlash (dir ++ [name])) = .ok (.childless name length (some root)) := by
  have hfile : Stored [entry "length" (.int length), entry "pieces root" (.bytes root)] :=
    ((Fields.entry "pieces root" (bencodable_bytes root)).cons "length"
      (bencodable_int length)).stored (by decide)
  have hinfo : getKey (normalDict (nodeFields (.childless name' length (some root)))) "" =
      some (.dict (normalDict
        [entry "length" (.int length), entry "pieces root" (.bytes root)])) := by
    rw [getKey, hstored.lookup_normalDict, ← normal_dict]
    rfl
  have hlength : getKey (normalDict
      [entry "length" (.int length), entry "pieces root" (.bytes root)]) "length" =
      some (.int length) := by
    rw [getKey, hfile.lookup_normalDict]
    rfl
  have hroot : getKey (normalDict
      [entry "length" (.int length), entry "pieces root" (.bytes root)]) "pieces root" =
      some (.bytes root) := by
    rw [getKey, hfile.lookup_normalDict]
    rfl
  have hname : ∀ tree, fileNodeName tree (joinSlash (dir ++ [name])) = name := by
    intro tree
    have hne : name.isEmpty = false := by simpa using (hdir name (by simp)).ne_nil
    rw [fileNodeName, lastPart_joinSlash hdir, hne]
    rfl
  rw [normal_dict, parseFileTree, hinfo]
  simp only [parseFileNode, hlength, intValue, hroot, hname, root_length]
  rw [if_neg (not_lt.mpr length_nonneg)]
  rfl

/-- The parser on the dictionary of a tree. -/
theorem HashedNode.parseFileTree_eq {m : Str} {node : FileTreeNode} (h : HashedNode m node)
    {dir : List Str} {name : Str} (hdir : ∀ part ∈ dir ++ [name], IsPart part) :
    parseFileTree (normal (.dict (nodeFields node))) (joinSlash (dir ++ [name])) =
      .ok (parsedNode name node) := by
  induction h generalizing dir name with
  | file m length_nonneg length_lt root_length =>
    exact parseFileTree_file hdir length_nonneg root_length
      (HashedNode.file m length_nonneg length_lt root_length).stored
  | @directory m children hne hkeys hparts hchildren ih =>
    have hstored := (HashedNode.directory m hne hkeys hparts hchildren).stored
    rw [nodeFields] at hstored
    have hsorted := sortOn_perm (fun c : Str × FileTreeNode => utf8Encode c.1) children
    have hnoFile : getKey (normalDict (childFields children)) "" = none := by
      rw [getKey, hstored.lookup_normalDict, Option.map_eq_none_iff, lookup_eq_none_iff,
        childFields_eq_map, List.map_map]
      intro hmem
      obtain ⟨c, hc, hkey⟩ := List.mem_map.mp hmem
      exact (hparts c hc).ne_nil (utf8Encode_eq_nil.mp (Key.bytes.inj hkey))
    have hsortedKeys : ((sortOn (fun c => utf8Encode c.1) children).map Prod.fst).Nodup :=
      (hsorted.map Prod.fst).nodup_iff.mpr hkeys
    have hchild : ∀ c ∈ sortOn (fun c => utf8Encode c.1) children,
        parseFileTree (normal (.dict (nodeFields c.2)))
          (joinPathName (joinSlash (dir ++ [name])) c.1) = .ok (parsedNode c.1 c.2) := by
      intro c hc
      have hmem := hsorted.mem_iff.mp hc
      rw [joinPathName_joinSlash hdir]
      exact ih c hmem (isPart_concat _ hdir (hparts c hmem))
    have hloop := parseChildren_eq hchild [] hsortedKeys
    have hempty : ((sortOn (fun c => utf8Encode c.1) children).map
        fun c => (c.1, parsedNode c.1 c.2)).isEmpty = false := by
      rw [List.isEmpty_eq_false_iff, Ne, List.map_eq_nil_iff]
      exact fun hnil => hne (List.perm_nil.mp (hnil ▸ hsorted.symm))
    rw [nodeFields, normal_dict, parseFileTree, hnoFile, normalDict_childFields hstored, hloop]
    simp only [bind, Except.bind]
    rw [lastPart_joinSlash hdir, List.nil_append, directoryNode, hempty, parsedNode,
      ← parsedTree, parsedTree_eq_map]
    rfl

/-! ### The top level -/

namespace HashedTree

variable {tree : List (Str × FileTreeNode)}

theorem fileTreeToDict_eq (h : HashedTree tree) : fileTreeToDict tree = .ok (childFields tree) := by
  have hnodup := h.nodup.map textKey_injective
  rw [List.map_map] at hnodup
  refine childrenToDict_eq ?_ [] hnodup
  intro c hc
  obtain ⟨name, hnode⟩ := h.nodes c hc
  exact hnode.nodeToDict_eq

theorem stored (h : HashedTree tree) : Stored (childFields tree) :=
  stored_childrenToDict stored_nil h.fileTreeToDict_eq

/-- The loop of `parse_v2` over the roots. -/
theorem parseRoots_map {roots : List (Str × FileTreeNode)}
    (h : ∀ c ∈ roots, parseFileTree (normal (.dict (nodeFields c.2))) c.1 =
      .ok (parsedNode c.1 c.2)) (fileTree : List (Str × FileTreeNode))
    (hkeys : (fileTree.map Prod.fst ++ roots.map Prod.fst).Nodup) :
    parseRoots (roots.map fun c => (textKey c.1, normal (.dict (nodeFields c.2)))) fileTree =
      .ok (fileTree ++ roots.map fun c => (c.1, parsedNode c.1 c.2)) := by
  induction roots generalizing fileTree with
  | nil => rw [List.map_nil, parseRoots, List.map_nil, List.append_nil]
  | cons c roots ih =>
    rw [List.map_cons, List.append_cons] at hkeys
    have hfresh : c.1 ∉ fileTree.map Prod.fst := notMem_of_nodup_append hkeys
    rw [List.map_cons, textKey, parseRoots.eq_def]
    simp only [bind, Except.bind, decodeUtf8, utf8Decode_utf8Encode, h _ List.mem_cons_self]
    rw [setEntry_of_notMem hfresh, ih (fun c hc => h c (List.mem_cons_of_mem _ hc)) _,
      List.map_cons, List.append_assoc, List.singleton_append]
    simpa using hkeys

/-- The tree is read back with its children in the order of their encoded names. -/
theorem parseRoots_eq (h : HashedTree tree) :
    parseRoots (normalDict (childFields tree)) [] = .ok (parsedTree tree) := by
  have hsorted := sortOn_perm (fun c : Str × FileTreeNode => utf8Encode c.1) tree
  have hsortedKeys : ((sortOn (fun c => utf8Encode c.1) tree).map Prod.fst).Nodup :=
    (hsorted.map Prod.fst).nodup_iff.mpr h.nodup
  have hroot : ∀ c ∈ sortOn (fun c => utf8Encode c.1) tree,
      parseFileTree (normal (.dict (nodeFields c.2))) c.1 = .ok (parsedNode c.1 c.2) := by
    intro c hc
    have hmem := hsorted.mem_iff.mp hc
    obtain ⟨name, hnode⟩ := h.nodes c hmem
    have hparsed := hnode.parseFileTree_eq (isPart_concat [] nofun (h.parts c hmem))
    rwa [List.nil_append, joinSlash_singleton] at hparsed
  rw [normalDict_childFields h.stored, parseRoots_map hroot [] hsortedKeys, parsedTree_eq_map]
  rfl

end HashedTree

/-! ### What is read -/

theorem mem_parsedTree {tree : List (Str × FileTreeNode)} {c : Str × FileTreeNode} :
    c ∈ parsedTree tree ↔ ∃ c' ∈ tree, c = (c'.1, parsedNode c'.1 c'.2) := by
  rw [parsedTree, (sortOn_perm _ _).mem_iff, parsedChildren_eq_map, List.mem_map]
  simp only [eq_comm]

theorem keys_parsedTree_perm (tree : List (Str × FileTreeNode)) :
    ((parsedTree tree).map Prod.fst).Perm (tree.map Prod.fst) := by
  rw [parsedTree_eq_map, List.map_map]
  exact (sortOn_perm _ tree).map _

theorem parsedTree_ne_nil {tree : List (Str × FileTreeNode)} (h : tree ≠ []) :
    parsedTree tree ≠ [] := by
  intro hnil
  have hkeys := keys_parsedTree_perm tree
  rw [hnil, List.map_nil, List.nil_perm, List.map_eq_nil_iff] at hkeys
  exact h hkeys

theorem treeEntries_parsedTree {tree : List (Str × FileTreeNode)}
    (h : ∀ c ∈ tree, (entries (parsedNode c.1 c.2)).Perm (entries c.2)) :
    (treeEntries (parsedTree tree)).Perm (treeEntries tree) := by
  have hsorted := sortOn_perm (fun c : Str × FileTreeNode => utf8Encode c.1) tree
  rw [parsedTree_eq_map, treeEntries_eq_flatMap, treeEntries_eq_flatMap, List.flatMap_map]
  exact hsorted.flatMap fun c hc => (h c (hsorted.mem_iff.mp hc)).map _

theorem HashedNode.entries_parsedNode {m : Str} {node : FileTreeNode} (h : HashedNode m node)
    (name : Str) : (entries (parsedNode name node)).Perm (entries node) := by
  induction h generalizing name with
  | file => exact List.Perm.refl _
  | directory m _ _ _ _ ih => exact treeEntries_parsedTree fun c hc => ih c hc c.1

theorem HashedNode.parsed {m : Str} {node : FileTreeNode} (h : HashedNode m node) (name : Str) :
    HashedNode name (parsedNode name node) := by
  induction h generalizing name with
  | file m length_nonneg length_lt root_length =>
    exact .file name length_nonneg length_lt root_length
  | @directory m children hne hkeys hparts _ ih =>
    refine .directory name (parsedTree_ne_nil hne)
      ((keys_parsedTree_perm children).nodup_iff.mpr hkeys) ?_ ?_
    · intro c hc
      obtain ⟨c', hc', rfl⟩ := mem_parsedTree.mp hc
      exact hparts c' hc'
    · intro c hc
      obtain ⟨c', hc', rfl⟩ := mem_parsedTree.mp hc
      exact ih c' hc' c'.1

theorem validateChildren_eq {children : List (Str × FileTreeNode)}
    (h : ∀ c ∈ children, validateFileTree c.2 = .ok ()) : validateChildren children = .ok () := by
  induction children with
  | nil => rfl
  | cons c children ih =>
    rw [validateChildren, h _ List.mem_cons_self]
    exact ih fun c hc => h c (List.mem_cons_of_mem _ hc)

theorem HashedNode.validateFileTree_eq {name : Str} {node : FileTreeNode}
    (h : HashedNode name node) : validateFileTree node = .ok () := by
  induction h with
  | file name length_nonneg _ root_length =>
    rw [validateFileTree, if_neg (by simp [root_length]), if_neg (not_lt.mpr length_nonneg)]
  | directory name hne _ _ _ ih =>
    rw [validateFileTree, if_neg (by simpa using hne)]
    exact validateChildren_eq ih

/-- What a file of a torrent is called, with its length. -/
def fileSummary (f : FileInfo) : Option Str × Int := (f.fullPath, f.length)

/-- The entry of a file in the tree below a directory, as it is listed. -/
def entrySummary (dir : List Str) (e : List Str × Leaf) : Option Str × Int :=
  (some (joinSlash (dir ++ e.1)), e.2.length)

theorem extractFilesOfChildren_spec {children : List (Str × FileTreeNode)} (dir : List Str)
    (h : ∀ c ∈ children, ∃ files, extractFilesFromTree c.2 (joinSlash dir) = .ok files ∧
      files.map fileSummary = (entries c.2).map (entrySummary (dir ++ [c.1]))) :
    ∃ files, extractFilesOfChildren children (joinSlash dir) = .ok files ∧
      files.map fileSummary = (treeEntries children).map (entrySummary dir) := by
  induction children with
  | nil => exact ⟨[], rfl, rfl⟩
  | cons c children ih =>
    obtain ⟨name, node⟩ := c
    obtain ⟨files, hfiles, hsummary⟩ := h _ List.mem_cons_self
    obtain ⟨rest, hrest, hsummaries⟩ := ih fun c hc => h c (List.mem_cons_of_mem _ hc)
    refine ⟨files ++ rest, ?_, ?_⟩
    · rw [extractFilesOfChildren, hfiles]
      simp only [bind, Except.bind, hrest]
      rfl
    · rw [List.map_append, hsummary, hsummaries, treeEntries, List.map_append, List.map_map]
      congr 1
      apply List.map_congr_left
      intro e _
      have hpath : dir ++ [name] ++ e.1 = dir ++ name :: e.1 := (List.append_cons dir name _).symm
      rw [Function.comp, entrySummary, entrySummary, hpath]

/-- The files of a node are listed under their paths. -/
theorem HashedNode.extractFilesFromTree_spec {name : Str} {node : FileTreeNode}
    (h : HashedNode name node) {dir : List Str} (hdir : ∀ part ∈ dir ++ [name], IsPart part) :
    ∃ files, extractFilesFromTree node (joinSlash dir) = .ok files ∧
      files.map fileSummary = (entries node).map (entrySummary (dir ++ [name])) := by
  induction h generalizing dir with
  | @file name length root length_nonneg length_lt root_length =>
    have hpath := joinPathName_joinSlash (fun part hp => hdir part (List.mem_append_left _ hp)) name
    rw [extractFilesFromTree, nodeFileInfo]
    simp only [dif_pos length_nonneg]
    refine ⟨_, rfl, ?_⟩
    rw [List.map_singleton, entries, List.map_singleton, fileSummary, entrySummary, hpath,
      List.append_nil]
  | @directory name children hne hkeys hparts hchildren ih =>
    rw [extractFilesFromTree, joinPathName_joinSlash
      (fun part hp => hdir part (List.mem_append_left _ hp)), entries]
    exact extractFilesOfChildren_spec _ fun c hc => ih c hc (isPart_concat _ hdir (hparts c hc))

namespace HashedTree

variable {tree : List (Str × FileTreeNode)}

theorem parsed (h : HashedTree tree) : ∀ c ∈ parsedTree tree, IsPart c.1 ∧ HashedNode c.1 c.2 := by
  intro c hc
  obtain ⟨c', hc', rfl⟩ := mem_parsedTree.mp hc
  obtain ⟨name, hnode⟩ := h.nodes c' hc'
  exact ⟨h.parts c' hc', hnode.parsed c'.1⟩

theorem treeEntries_perm (h : HashedTree tree) :
    (treeEntries (parsedTree tree)).Perm (treeEntries tree) := by
  apply treeEntries_parsedTree
  intro c hc
  obtain ⟨name, hnode⟩ := h.nodes c hc
  exact hnode.entries_parsedNode c.1

theorem validateChildren_eq (h : HashedTree tree) :
    validateChildren (parsedTree tree) = .ok () :=
  TorrentV2.validateChildren_eq fun c hc => (h.parsed c hc).2.validateFileTree_eq

/-- The files that `parse_v2` lists are those of the tree. -/
theorem extractFiles_spec (h : HashedTree tree) :
    ∃ files, extractFilesOfChildren (parsedTree tree) [] = .ok files ∧
      (files.map fileSummary).Perm ((treeEntries tree).map (entrySummary [])) := by
  obtain ⟨files, hfiles, hsummary⟩ := extractFilesOfChildren_spec []
    fun c hc => (h.parsed c hc).2.extractFilesFromTree_spec
      (isPart_concat [] nofun (h.parsed c hc).1)
  refine ⟨files, hfiles, ?_⟩
  rw [hsummary]
  exact h.treeEntries_perm.map _

end HashedTree

end TorrentV2

end Ccbt
