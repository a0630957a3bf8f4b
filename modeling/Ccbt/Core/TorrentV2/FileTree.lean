import Ccbt.Python.Bytes
import Ccbt.Python.Path

/-!
# Nodes of a v2 file tree

`FileTreeNode` of `core/torrent_v2.py`. A node whose `children` are `None` is
`childless`; the other nodes have a dictionary of children, which may be empty.
-/

namespace Ccbt

open Python

namespace TorrentV2

inductive FileTreeNode
  | childless (name : Str) (length : Int) (piecesRoot : Option Bytes)
  | withChildren (name : Str) (length : Int) (piecesRoot : Option Bytes)
      (children : List (Str × FileTreeNode))

namespace FileTreeNode

def name : FileTreeNode → Str
  | childless n _ _ => n
  | withChildren n _ _ _ => n

def length : FileTreeNode → Int
  | childless _ l _ => l
  | withChildren _ l _ _ => l

def piecesRoot : FileTreeNode → Option Bytes
  | childless _ _ r => r
  | withChildren _ _ r _ => r

def isFile : FileTreeNode → Bool
  | childless _ _ r => r.isSome
  | withChildren _ _ _ _ => false

def isDirectory : FileTreeNode → Bool
  | childless _ _ _ => false
  | withChildren _ _ r _ => r.isNone

end FileTreeNode

/-!
## What a file tree stands for

A file tree is a map from relative paths to files. `entries` lists it in the
order in which the tree is walked. The functions on trees are described by what
they do to the entries of a tree whose nodes stand under their names.
-/

/-- What a file node says of its file. -/
structure Leaf where
  length : Int
  piecesRoot : Option Bytes
  deriving DecidableEq

mutual

/-- The files below a node, each with its path from there. -/
def entries : FileTreeNode → List (List Str × Leaf)
  | .childless _ length piecesRoot => [([], ⟨length, piecesRoot⟩)]
  | .withChildren _ _ _ children => treeEntries children

/-- The files below named nodes. -/
def treeEntries : List (Str × FileTreeNode) → List (List Str × Leaf)
  | [] => []
  | (name, node) :: children =>
    (entries node).map (fun e => (name :: e.1, e.2)) ++ treeEntries children

end

theorem treeEntries_eq_flatMap (children : List (Str × FileTreeNode)) :
    treeEntries children =
      children.flatMap (fun c => (entries c.2).map (fun e => (c.1 :: e.1, e.2))) := by
  induction children with
  | nil => rfl
  | cons c children ih => rw [treeEntries, ih, List.flatMap_cons]

inductive WellNamed : Str → FileTreeNode → Prop
  | file (name : Str) (length : Int) (piecesRoot : Option Bytes) :
      WellNamed name (.childless name length piecesRoot)
  | directory (name : Str) {children : List (Str × FileTreeNode)} (hne : children ≠ [])
      (hkeys : (children.map Prod.fst).Nodup) (hparts : ∀ c ∈ children, IsPart c.1)
      (hchildren : ∀ c ∈ children, WellNamed c.1 c.2) :
      WellNamed name (.withChildren name 0 none children)

/-- The top level of a file tree: the names are distinct, and the nodes are those of trees. -/
structure WellFormedTree (tree : List (Str × FileTreeNode)) : Prop where
  nodup : (tree.map Prod.fst).Nodup
  parts : ∀ c ∈ tree, IsPart c.1
  nodes : ∀ c ∈ tree, ∃ name, WellNamed name c.2

end TorrentV2

end Ccbt
