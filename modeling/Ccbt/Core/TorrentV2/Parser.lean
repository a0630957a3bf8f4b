import Ccbt.Core.Bencode.Equality
import Ccbt.Core.Torrent
import Ccbt.Core.TorrentV2.PieceLayers
import Ccbt.Python.Bytes

/-!
# Parsing v2 torrents: `TorrentV2Parser.parse_v2`

The functions of `core/torrent_v2.py` from an info dictionary to a `TorrentV2Info`. The
dictionaries come from the decoder, so their keys are byte strings; a key of another
type fails where the source calls `decode` on it.
-/

namespace Ccbt

open Python Torrent

namespace TorrentV2

def torrentError {α : Type} (message : String) : Result α := .error (.torrent message)

def intValue : PyObj → Option Int
  | .int n => some n
  | .bool b => some (if b then 1 else 0)
  | _ => none

/-! ### File trees -/

def lastPart (path : Str) : Str := if path.isEmpty then [] else (splitSlash path).getLastD []

/-- The name of a file node: of the path, or of the first other key in its dictionary. -/
def fileNodeName (tree : PyDict) (path : Str) : Str :=
  let filename := lastPart path
  if filename.isEmpty then
    let others := tree.filterMap fun e =>
      match e.1 with
      | .bytes b => if b.isEmpty then none else some (utf8DecodeReplace b)
      | _ => none
    others.headD filename
  else filename

def invalidPiecesRoot (path got : String) : Result FileTreeNode :=
  torrentError s!"Invalid pieces root at path {path}: expected 32 bytes, got {got}"

/-- The node that `_parse_file_tree` makes where the dictionary has an empty key. -/
def parseFileNode (tree : PyDict) (fileInfo : PyObj) (path : Str) : Result FileTreeNode :=
  let at_path := String.ofList path
  match fileInfo with
  | .dict info =>
    match getKey info "length" with
    | none => torrentError s!"File node missing 'length' field at path {at_path}"
    | some length =>
      let length_text := String.ofList length.toStr
      match intValue length with
      | none => torrentError s!"Invalid file length at path {at_path}: {length_text}"
      | some n =>
        if n < 0 then torrentError s!"Invalid file length at path {at_path}: {length_text}"
        else
          match getKey info "pieces root" with
          | none => torrentError s!"File node missing 'pieces root' field at path {at_path}"
          | some (.bytes root) =>
            if root.length ≠ 32 then invalidPiecesRoot at_path (toString root.length)
            else .ok (.childless (fileNodeName tree path) n (some root))
          | some obj => invalidPiecesRoot at_path (String.ofList obj.typeStr)
  | obj =>
    let type_text := String.ofList obj.typeStr
    torrentError s!"Invalid file node at path {at_path}: expected dict, got {type_text}"

/-- The name of a child of a directory; the text of the `UnicodeDecodeError` is left out. -/
def childName (key : Key) (path : Str) : Result Str :=
  match key with
  | .bytes b =>
    match utf8Decode b with
    | some name => .ok name
    | none =>
      let at_path := String.ofList path
      torrentError s!"Invalid UTF-8 in file tree key at path {at_path}"
  | _ => .error .failed

def joinPathName (path name : Str) : Str := if path.isEmpty then name else path ++ '/' :: name

/-- A directory node; one without children is neither a file nor a directory. -/
def directoryNode (name : Str) (children : List (Str × FileTreeNode)) : FileTreeNode :=
  if children.isEmpty then .childless name 0 none else .withChildren name 0 none children

mutual

def parseFileTree : PyObj → Str → Result FileTreeNode
  | .dict entries, path =>
    match getKey entries "" with
    | some fileInfo => parseFileNode entries fileInfo path
    | none => do
      let children ← parseChildren entries path []
      return directoryNode (lastPart path) children
  | obj, path =>
    let at_path := String.ofList path
    let type_text := String.ofList obj.typeStr
    torrentError s!"Invalid file tree structure at path {at_path}: expected dict, got {type_text}"

/-- The loop of `_parse_file_tree` over the entries of a directory. -/
def parseChildren : List (Key × PyObj) → Str → List (Str × FileTreeNode) →
    Result (List (Str × FileTreeNode))
  | [], _, children => .ok children
  | (key, value) :: entries, path, children => do
    let name ← childName key path
    let childNode ← parseFileTree value (joinPathName path name)
    parseChildren entries path (setEntry name childNode children)

end

mutual

def validateFileTree : FileTreeNode → Result Unit
  | .childless name length (some root) =>
    let name := String.ofList name
    if root.length ≠ 32 then
      torrentError s!"File node {name} has invalid pieces_root length: {root.length}"
    else if length < 0 then torrentError s!"File node {name} has negative length: {length}"
    else .ok ()
  | .withChildren name _ none children =>
    let name := String.ofList name
    if children.isEmpty then torrentError s!"Directory node {name} has no children"
    else validateChildren children
  | .childless name _ none | .withChildren name _ (some _) _ =>
    let name := String.ofList name
    torrentError s!"Invalid tree node {name}: neither file nor directory"

def validateChildren : List (Str × FileTreeNode) → Result Unit
  | [] => .ok ()
  | (_, child) :: children => do
    validateFileTree child
    validateChildren children

end

mutual

def calculateTotalLength : FileTreeNode → Int
  | .childless _ length (some _) => length
  | .withChildren _ _ none children => totalChildren children
  | _ => 0

def totalChildren : List (Str × FileTreeNode) → Int
  | [] => 0
  | (_, child) :: children => calculateTotalLength child + totalChildren children

end

/-- The `FileInfo` of a file node, with the check of the model. -/
def nodeFileInfo (currentPath name : Str) (length : Int) : Result FileInfo :=
  let fullPath := joinPathName currentPath name
  let components := splitSlash fullPath
  if h : 0 ≤ length then
    .ok {
      name := components.getLastD []
      length := length
      path := if 1 < components.length then some components.dropLast else none
      fullPath := some fullPath
      attributes := none
      symlinkPath := none
      fileSha1 := none
      length_nonneg := h
      sha1_length := length_of_no_hash }
  else .error .failed

mutual

/-- `_extract_files_from_tree`, from a node with the path to it. -/
def extractFilesFromTree : FileTreeNode → Str → Result (List FileInfo)
  | .childless name length (some _), currentPath => do
    let file ← nodeFileInfo currentPath name length
    return [file]
  | .withChildren name _ none children, currentPath =>
    extractFilesOfChildren children (joinPathName currentPath name)
  | _, _ => .ok []

def extractFilesOfChildren : List (Str × FileTreeNode) → Str → Result (List FileInfo)
  | [], _ => .ok []
  | (_, child) :: children, path => do
    let files ← extractFilesFromTree child path
    let rest ← extractFilesOfChildren children path
    return files ++ rest

end

/-! ### Piece layers -/

def parsePieceLayer (pieceLength : Int) (layerData : Bytes) : Result PieceLayer :=
  if h : layerData.length % 32 = 0 then
    .ok ⟨pieceLength, pieces 32 layerData,
      fun _ hx => length_of_mem_pieces (by decide) (Nat.dvd_of_mod_eq_zero h) hx⟩
  else
    torrentError ("Piece layer data length must be multiple of 32 bytes (SHA-256), got " ++
      toString layerData.length)

def parsePieceLayers (pieceLength : Int) : PyDict → Layers → Result Layers
  | [], pieceLayers => .ok pieceLayers
  | (.bytes piecesRoot, layerData) :: entries, pieceLayers =>
    if piecesRoot.length ≠ 32 then
      torrentError s!"Invalid pieces_root: expected 32 bytes (SHA-256), got {piecesRoot.length}"
    else
      match layerData with
      | .bytes layerData => do
        let pieceLayer ← parsePieceLayer pieceLength layerData
        parsePieceLayers pieceLength entries (pieceLayers.set piecesRoot pieceLayer)
      | obj =>
        let type_text := String.ofList obj.typeStr
        torrentError s!"Piece layer data must be bytes, got {type_text}"
  | (key, _) :: _, _ =>
    let type_text := String.ofList key.typeName
    torrentError s!"Invalid pieces_root: expected 32 bytes (SHA-256), got <class '{type_text}'>"

/-! ### Info hashes -/

/-- The text of a `BencodeEncodeError`. -/
def encodeErrorText : Bencode.EncodeError → String
  | .cannotEncode t => let t := String.ofList t; s!"Cannot encode type: <class '{t}'>"
  | .badKey t =>
    let t := String.ofList t
    s!"Dictionary key must be string or bytes, got <class '{t}'>"

def calculateInfoHashV2 (info : PyDict) : Result { b : Bytes // b.length = 32 } :=
  match Bencode.encode (.dict info) with
  | .ok infoBencoded => .ok ⟨sha256 infoBencoded, sha256_length _⟩
  | .error e =>
    let e := encodeErrorText e
    torrentError s!"Failed to calculate v2 info hash: {e}"

/-- The keys of the v1 part of an info dictionary. -/
def v1Keys : List String := ["name", "piece length", "pieces", "length", "files", "private"]

/-- The dictionary that `_calculate_info_hash_v1` encodes. -/
def v1InfoDict (info : PyDict) : PyDict :=
  v1Keys.filterMap fun key => (getKey info key).map fun v => (.bytes (ascii key), v)

def calculateInfoHashV1 (info : PyDict) :
    Result { o : Option Bytes // ∀ b, o = some b → b.length = 20 } :=
  if !hasKey info "pieces" then .ok ⟨none, length_of_no_hash⟩
  else
    match Bencode.encode (.dict (v1InfoDict info)) with
    | .ok v1InfoBencoded =>
      .ok ⟨some (sha1 v1InfoBencoded), by rintro b ⟨⟩; exact sha1_length _⟩
    | .error e =>
      let e := encodeErrorText e
      torrentError s!"Failed to calculate v1 info hash for hybrid torrent: {e}"

/-! ### `parse_v2` -/

structure TorrentV2Info where
  name : Str
  infoHashV2 : Bytes
  infoHashV1 : Option Bytes
  announce : Str
  announceList : Option (List (List Str))
  comment : Option Str
  createdBy : Option Str
  creationDate : Option PyObj
  encoding : Option Str
  isPrivate : Bool
  fileTree : List (Str × FileTreeNode)
  pieceLayers : Layers
  pieceLength : Int
  files : List FileInfo
  totalLength : Int
  numPieces : Nat
  infoHashV2_length : infoHashV2.length = 32
  infoHashV1_length : ∀ b, infoHashV1 = some b → b.length = 20

/-- `value.decode("utf-8") if isinstance(value, bytes) else str(value)` -/
def textOf : PyObj → Result Str
  | .bytes b => decodeUtf8 (.bytes b)
  | obj => .ok obj.toStr

/-- `value.decode("utf-8") if isinstance(value, bytes) else None` -/
def textIfBytes (d : PyDict) (key : String) : Result (Option Str) :=
  match getKey d key with
  | some (.bytes b) => (decodeUtf8 (.bytes b)).map some
  | _ => .ok none

/-- The loop of `parse_v2` over the roots of the file tree. -/
def parseRoots : PyDict → List (Str × FileTreeNode) → Result (List (Str × FileTreeNode))
  | [], fileTree => .ok fileTree
  | (key, value) :: entries, fileTree => do
    let name ← match key with
      | .str s => .ok s
      | .bytes b => decodeUtf8 (.bytes b)
      | .other _ => .error .failed
    let rootNode ← parseFileTree value name
    parseRoots entries (setEntry name rootNode fileTree)

def getDict (d : PyDict) (key : String) : Result PyDict :=
  match getKey d key with
  | none => .ok []
  | some (.dict entries) => .ok entries
  | some _ => torrentError s!"Missing or invalid '{key}' in v2 info dictionary"

def announceTiers (data : PyDict) : Result (Option (List (List Str))) :=
  match getKey data "announce-list" with
  | none => .ok none
  | some v => do
    let tiers ← iterate v
    let urls ← tiers.mapM fun tier => do (← iterate tier).mapM textOf
    return some urls

/-- The checks on the fields that a v2 info dictionary must have: the name and the piece
length. -/
def requiredFields (info : PyDict) : Result (Str × Int) := do
  if (getKey info "meta version").bind intValue ≠ some 2 then
    let got := String.ofList (PyObj.getStr (getKey info "meta version"))
    torrentError s!"Invalid meta version: expected 2, got {got}"
  else
    match getKey info "name" with
    | none => torrentError "Missing 'name' field in v2 info dictionary"
    | some name =>
      if !truth name then torrentError "Missing 'name' field in v2 info dictionary"
      else
        let name ← textOf name
        let got := String.ofList (PyObj.getStr (getKey info "piece length"))
        match (getKey info "piece length").bind intValue with
        | none => torrentError s!"Invalid piece length: {got}"
        | some pieceLength =>
          if pieceLength ≤ 0 then torrentError s!"Invalid piece length: {got}"
          else .ok (name, pieceLength)

def parseV2 (info data : PyDict) : Result TorrentV2Info := do
  let (name, pieceLength) ← requiredFields info
  let fileTree ← parseRoots (← getDict info "file tree") []
  validateChildren fileTree
  let files ← extractFilesOfChildren fileTree []
  let pieceLayers ← parsePieceLayers pieceLength (← getDict info "piece layers") Dict.empty
  let ⟨infoHashV2, infoHashV2_length⟩ ← calculateInfoHashV2 info
  let ⟨infoHashV1, infoHashV1_length⟩ ← calculateInfoHashV1 info
  let announce ← textOf ((getKey data "announce").getD (.str []))
  let announceList ← announceTiers data
  let comment ← textIfBytes data "comment"
  let createdBy ← textIfBytes data "created by"
  let encoding ← textIfBytes data "encoding"
  return {
    name, infoHashV2, infoHashV1, announce, announceList, comment, createdBy, encoding, fileTree
    pieceLayers, pieceLength, files, infoHashV2_length, infoHashV1_length
    creationDate := getKey data "creation date"
    isPrivate := truth ((getKey info "private").getD (.int 0))
    totalLength := totalChildren fileTree
    numPieces := (pieceLayers.values.map PieceLayer.numPieces).sum }

/-- What `parse_v2` returns has a valid tree, the files of that tree and the v1 hash. -/
theorem parseV2_parts {info data : PyDict} {v2 : TorrentV2Info}
    (h : parseV2 info data = .ok v2) :
    validateChildren v2.fileTree = .ok () ∧ extractFilesOfChildren v2.fileTree [] = .ok v2.files ∧
      ∃ hlen, calculateInfoHashV1 info = .ok ⟨v2.infoHashV1, hlen⟩ := by
  obtain ⟨_, -, h⟩ := bind_eq_ok h
  obtain ⟨_, -, h⟩ := bind_eq_ok h
  obtain ⟨_, -, h⟩ := bind_eq_ok h
  obtain ⟨_, hvalid, h⟩ := bind_eq_ok h
  obtain ⟨_, hfiles, h⟩ := bind_eq_ok h
  obtain ⟨_, -, h⟩ := bind_eq_ok h
  obtain ⟨_, -, h⟩ := bind_eq_ok h
  obtain ⟨_, -, h⟩ := bind_eq_ok h
  obtain ⟨hash, hhash, h⟩ := bind_eq_ok h
  obtain ⟨_, -, h⟩ := bind_eq_ok h
  obtain ⟨_, -, h⟩ := bind_eq_ok h
  obtain ⟨_, -, h⟩ := bind_eq_ok h
  obtain ⟨_, -, h⟩ := bind_eq_ok h
  obtain ⟨_, -, h⟩ := bind_eq_ok h
  cases h
  exact ⟨hvalid, hfiles, _, hhash⟩

theorem calculateInfoHashV1_eq_some {info : PyDict} {o : Option Bytes} {hlen} {h : Bytes}
    (hhash : calculateInfoHashV1 info = .ok ⟨o, hlen⟩) (ho : o = some h) :
    ∃ b, Bencode.encode (.dict (v1InfoDict info)) = .ok b ∧ h = sha1 b := by
  rw [calculateInfoHashV1] at hhash
  split at hhash
  · cases hhash
    exact absurd ho (by simp)
  · split at hhash
    · next b hb =>
      cases hhash
      exact ⟨b, hb, (Option.some.inj ho).symm⟩
    · exact absurd hhash (by simp [torrentError])

end TorrentV2

end Ccbt
