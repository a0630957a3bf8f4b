import Ccbt.Core.Torrent
import Ccbt.Core.TorrentV2.FileTree
import Ccbt.Core.TorrentV2.Source
import Ccbt.Piece.FileTreeHash
import Ccbt.Python.Dict

/-!
# The piece layers of a file tree

`build_piece_layers` walks the tree, hashes every file and files its layer under
its pieces root, and so of the files with one root the last that is visited
decides what is stored.
-/

namespace Ccbt

open Python HashV2 MerkleTree

namespace TorrentV2

inductive GenerateError
  /-- `Piece length must be power of 2, got {piece_length}` -/
  | pieceLength (p : Nat)
  /-- `No files found in source path: {source}` -/
  | noFiles
  /-- `Failed to build piece layer: {e}` -/
  | pieceLayer (path : Str)
  /-- `Invalid piece hashes for root calculation: {e}` -/
  | pieceHashes (e : ValueError)
  /-- The `ValueError` of `hash_file_tree`. -/
  | fileTree (e : TreeError)
  /-- `Invalid node: {node.name}` -/
  | invalidNode (name : Str)
  /-- The `TorrentError` for an info hash that cannot be calculated. -/
  | infoHash (e : Torrent.ParseError)
  /-- The `BencodeEncodeError` for the torrent dictionary. -/
  | encoding (e : Bencode.EncodeError)
  deriving DecidableEq

/-- `PieceLayer`, with the check of `__post_init__`. -/
structure PieceLayer where
  pieceLength : Int
  pieces : List Bytes
  pieces_length : ∀ h ∈ pieces, h.length = 32

namespace PieceLayer

def numPieces (layer : PieceLayer) : Nat := layer.pieces.length

end PieceLayer

/-- The loop of `_build_piece_layer` over what is left of the file. -/
def hashPieces (p : Nat) : Nat → Bytes → List Bytes
  | 0, _ => []
  | n + 1, rest =>
    let pieceData := rest.take p
    if rest.isEmpty || pieceData.isEmpty then []
    else sha256 pieceData :: hashPieces p n (rest.drop p)

theorem hashPieces_length {p n : Nat} {rest h : Bytes} (hh : h ∈ hashPieces p n rest) :
    h.length = 32 := by
  induction n generalizing rest with
  | zero => exact absurd hh List.not_mem_nil
  | succ n ih =>
    rw [hashPieces] at hh
    split at hh
    · exact absurd hh List.not_mem_nil
    · obtain rfl | hh := List.mem_cons.mp hh
      · exact sha256_length _
      · exact ih hh

def calculatePiecesRoot (pieceHashes : List Bytes) : Except GenerateError Bytes :=
  if pieceHashes.isEmpty then .ok zeroHash
  else (hashPieceLayer pieceHashes).mapError .pieceHashes

def buildPieceLayer (p : Nat) (content : Bytes) : Except GenerateError (Bytes × PieceLayer) :=
  if content.isEmpty then .ok (zeroHash, ⟨p, [], nofun⟩)
  else do
    let piecesRoot ← calculatePiecesRoot (hashPieces p content.length content)
    return (piecesRoot, ⟨p, hashPieces p content.length content, fun _ => hashPieces_length⟩)

/-- The contents that `traverse_and_hash` finds for a file node, unless it skips the file. -/
def findFile (s : Source) (filePath : List Str) : Except GenerateError (Option Bytes) :=
  match s.read (joinSlash filePath) with
  | some content => .ok (some content)
  | none =>
    match s.absent (joinSlash filePath) with
    | .skipped => .ok none
    | .failed => .error (.pieceLayer (joinSlash filePath))
    | .resolved content => .ok (some content)

abbrev Layers := Dict Bytes PieceLayer

mutual

/-- `traverse_and_hash`: the node with its pieces roots, and the layers. A path is given by its
components below the base path. -/
def traverseAndHash (s : Source) (p : Nat) :
    FileTreeNode → List Str → Layers → Except GenerateError (FileTreeNode × Layers)
  | .childless name length piecesRoot, filePath, layers => do
    match ← findFile s filePath with
    | none => return (.childless name length piecesRoot, layers)
    | some content =>
      let (piecesRoot, pieceLayer) ← buildPieceLayer p content
      return (.childless name length (some piecesRoot), layers.set piecesRoot pieceLayer)
  | .withChildren name length piecesRoot children, filePath, layers => do
    let (children, layers) ← traverseChildren s p children filePath layers
    return (.withChildren name length piecesRoot children, layers)

def traverseChildren (s : Source) (p : Nat) : List (Str × FileTreeNode) → List Str → Layers →
    Except GenerateError (List (Str × FileTreeNode) × Layers)
  | [], _, layers => .ok ([], layers)
  | (childName, childNode) :: children, filePath, layers => do
    let (childNode, layers) ← traverseAndHash s p childNode (filePath ++ [childName]) layers
    let (children, layers) ← traverseChildren s p children filePath layers
    return ((childName, childNode) :: children, layers)

end

/-- Where a root of the tree is, below the base path. -/
def rootPath (rootName : Str) : FileTreeNode → List Str
  | .childless name _ _ => [name]
  | .withChildren _ _ _ _ => if rootName = ['.'] ∨ rootName = [] then [] else [rootName]

/-- The loop of `build_piece_layers` over the roots of the tree. -/
def traverseRoots (s : Source) (p : Nat) : List (Str × FileTreeNode) → Layers →
    Except GenerateError (List (Str × FileTreeNode) × Layers)
  | [], layers => .ok ([], layers)
  | (rootName, rootNode) :: tree, layers => do
    let (rootNode, layers) ← traverseAndHash s p rootNode (rootPath rootName rootNode) layers
    let (tree, layers) ← traverseRoots s p tree layers
    return ((rootName, rootNode) :: tree, layers)

def buildPieceLayers (s : Source) (p : Nat) (tree : List (Str × FileTreeNode)) :
    Except GenerateError (List (Str × FileTreeNode) × Layers) :=
  traverseRoots s p tree Dict.empty

end TorrentV2

end Ccbt
