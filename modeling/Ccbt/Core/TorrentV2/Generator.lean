import Mathlib.Data.Prod.Lex
import Ccbt.Core.TorrentV2.Builder
import Ccbt.Core.TorrentV2.Parser

/-!
# Generating torrents: `generate_v2_torrent` and `generate_hybrid_torrent`

Both take the files of a source, build and hash the file tree and write an info
dictionary; a hybrid torrent also gets the v1 piece hashes and the v1 file list. The
result is the torrent with its info dictionary and the info hashes that are logged.
-/

namespace Ccbt

open Python Torrent

namespace TorrentV2

def textKey (name : Str) : Key := .bytes (utf8Encode name)

def entry (key : String) (value : PyObj) : Key × PyObj := (.bytes (ascii key), value)

mutual

def nodeToDict : FileTreeNode → Except GenerateError PyDict
  | .childless _ length (some piecesRoot) =>
    .ok [entry "" (.dict [entry "length" (.int length), entry "pieces root" (.bytes piecesRoot)])]
  | .withChildren name _ none children =>
    if children.isEmpty then .error (.invalidNode name) else childrenToDict children []
  | .childless name _ none | .withChildren name _ (some _) _ => .error (.invalidNode name)

/-- The loops of `_node_to_dict` and of `_file_tree_to_dict`. -/
def childrenToDict : List (Str × FileTreeNode) → PyDict → Except GenerateError PyDict
  | [], result => .ok result
  | (name, node) :: children, result => do
    let d ← nodeToDict node
    childrenToDict children (setEntry (textKey name) (.dict d) result)

end

def fileTreeToDict (fileTree : List (Str × FileTreeNode)) : Except GenerateError PyDict :=
  childrenToDict fileTree []

def pieceLayersToDict (pieceLayers : Layers) : PyDict :=
  pieceLayers.entries.map fun e => (.bytes e.1, .bytes e.2.pieces.flatten)

/-! ### The v1 part -/

/-- What `_build_v1_pieces` carries from file to file: the hashes, and the octets of a piece
that is not full. -/
structure PieceState where
  pieces : List Bytes
  currentPiece : Bytes

/-- The loop of `_build_v1_pieces` over what is left of a file, at most `n` rounds of it. -/
def readPieces (p : Nat) : Nat → Bytes → PieceState → PieceState
  | 0, _, state => state
  | n + 1, rest, state =>
    let remaining := p - state.currentPiece.length
    let data := rest.take remaining
    if data.isEmpty then state
    else
      let currentPiece := state.currentPiece ++ data
      if p ≤ currentPiece.length then
        readPieces p n (rest.drop remaining)
          ⟨state.pieces ++ [sha1 (currentPiece.take p)], currentPiece.drop p⟩
      else readPieces p n (rest.drop remaining) ⟨state.pieces, currentPiece⟩

def sortFiles (files : List (Str × Nat)) : List (Str × Nat) := sortOn toLex files

def readFiles (s : Source) (p : Nat) : List (Str × Nat) → PieceState → PieceState
  | [], state => state
  | (filePath, _) :: files, state =>
    match s.read filePath with
    | none => readFiles s p files state
    | some content => readFiles s p files (readPieces p (content.length + 1) content state)

def buildV1Pieces (s : Source) (files : List (Str × Nat)) (p : Nat) : Bytes :=
  let state := readFiles s p (sortFiles files) ⟨[], []⟩
  let pieces := if state.currentPiece.isEmpty then state.pieces
    else state.pieces ++ [sha1 state.currentPiece]
  pieces.flatten

def v1File (file : Str × Nat) : PyObj :=
  .dict [entry "length" (.int file.2),
    entry "path" (.list ((splitSlash file.1).map fun part => .bytes (utf8Encode part)))]

def v1Structure : List (Str × Nat) → Key × PyObj
  | [file] => entry "length" (.int file.2)
  | files => entry "files" (.list (files.map v1File))

/-! ### Generating -/

/-- What both generators find out before they write. -/
structure Prepared where
  pieceLength : Nat
  files : List (Str × Nat)
  fileTree : PyDict
  pieceLayers : Layers

def prepare (s : Source) (o : Options) : Except GenerateError Prepared :=
  let p := s.pieceLength o.pieceLength
  if p &&& (p - 1) ≠ 0 then .error (.pieceLength p)
  else if s.collectFiles.isEmpty then .error .noFiles
  else do
    let (tree, pieceLayers) ← buildPieceLayers s p (buildFileTree s.resolve s.collectFiles)
    let _ ← (HashV2.hashFileTree tree).mapError .fileTree
    let fileTree ← fileTreeToDict tree
    return ⟨p, s.collectFiles, fileTree, pieceLayers⟩

/-- The fields that both kinds of info dictionary have. -/
def sharedFields (s : Source) (version : Int) (w : Prepared) : PyDict :=
  [entry "meta version" (.int version),
    entry "name" (.bytes (utf8Encode s.torrentName)),
    entry "piece length" (.int w.pieceLength),
    entry "file tree" (.dict w.fileTree),
    entry "piece layers" (.dict (pieceLayersToDict w.pieceLayers))]

def privateField (o : Options) : PyDict :=
  if o.isPrivate then [entry "private" (.int 1)] else []

def v2InfoDict (s : Source) (o : Options) (w : Prepared) : PyDict :=
  sharedFields s 2 w ++ privateField o

def hybridInfoDict (s : Source) (o : Options) (w : Prepared) : PyDict :=
  sharedFields s 3 w ++ [entry "pieces" (.bytes (buildV1Pieces s w.files w.pieceLength)),
    v1Structure w.files] ++ privateField o

def textField (key : String) (value : Str) : PyDict := [entry key (.bytes (utf8Encode value))]

/-- The torrent dictionary around an info dictionary. -/
def torrentDict (o : Options) (info : PyDict) : PyDict :=
  entry "info" (.dict info) ::
  (if (o.trackers.headD []).isEmpty then [] else textField "announce" (o.trackers.headD [])) ++
  (if 1 < o.trackers.length then
    [entry "announce-list" (.list (o.trackers.map fun t => .list [.bytes (utf8Encode t)]))]
  else []) ++
  (if (o.comment.getD []).isEmpty then [] else textField "comment" (o.comment.getD [])) ++
  textField "created by" o.createdBy ++
  [entry "creation date" (.int o.now)] ++
  (if o.webSeeds.isEmpty then []
  else [entry "url-list" (.list (o.webSeeds.map fun t => .bytes (utf8Encode t)))])

/-- A torrent with its info dictionary and its info hashes. -/
structure Generated where
  torrent : Bytes
  info : PyDict
  infoHashV2 : Bytes
  infoHashV1 : Option Bytes

def generateV2Torrent (s : Source) (o : Options) : Except GenerateError Generated := do
  let w ← prepare s o
  let info := v2InfoDict s o w
  let infoHashV2 ← (calculateInfoHashV2 info).mapError .infoHash
  let torrent ← (Bencode.encode (.dict (torrentDict o info))).mapError .encoding
  return ⟨torrent, info, infoHashV2.1, none⟩

/-- `generate_hybrid_torrent`; the pieces field is always there, so that `info_hash_v1` is not
`None`. -/
def generateHybridTorrent (s : Source) (o : Options) : Except GenerateError Generated := do
  let w ← prepare s o
  let info := hybridInfoDict s o w
  let infoHashV2 ← (calculateInfoHashV2 info).mapError .infoHash
  let infoHashV1 ← (calculateInfoHashV1 info).mapError .infoHash
  let torrent ← (Bencode.encode (.dict (torrentDict o info))).mapError .encoding
  return ⟨torrent, info, infoHashV2.1, infoHashV1.1⟩

end TorrentV2

end Ccbt
