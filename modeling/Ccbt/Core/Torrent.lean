import Ccbt.Core.Bencode.Decoder
import Ccbt.Python.Hashlib

/-!
# Torrent files: `TorrentParser`

`TorrentParser.parse` of `core/torrent.py` on the bytes of a torrent file, with
the checks of the models it builds (`FileInfo` and `TorrentInfo` of `models.py`).
A decoded torrent is arbitrary data: a key can be present with a value of any
type, and the helpers of the first section say what Python makes of each.

Two parts are arguments. `coerceInt` is what the validation library makes of a
byte string where an integer field is expected. `parseV2` is the parser that is
used when the `meta version` is 2 or 3. Paths are those of POSIX.
-/

namespace Ccbt

open Python Bencode

namespace Torrent

/-- Why a torrent is not accepted: a `TorrentError` of the parser's own, another
exception that `parse` wraps, or a decoder that does not come to an end. -/
inductive ParseError
  | torrent (message : String)
  | failed
  | outOfFuel
  deriving DecidableEq

abbrev Result := Except ParseError

theorem bind_eq_ok {ε α β : Type} {x : Except ε α} {f : α → Except ε β} {b : β}
    (h : (x >>= f) = .ok b) : ∃ a, x = .ok a ∧ f a = .ok b := by
  cases x with
  | error e => cases h
  | ok a => exact ⟨a, rfl, h⟩

theorem mapError_eq_ok {ε ε' α : Type} {x : Except ε α} {f : ε → ε'} {a : α}
    (h : x.mapError f = .ok a) : x = .ok a := by
  cases x with
  | error e => cases h
  | ok a' =>
    cases h
    rfl

theorem mapM_isOk {ε α β : Type} {f : α → Except ε β} {l : List α}
    (h : ∀ a ∈ l, ∃ b, f a = .ok b) : ∃ bs, l.mapM f = .ok bs ∧ bs.length = l.length := by
  induction l with
  | nil => exact ⟨[], rfl, rfl⟩
  | cons a l ih =>
    obtain ⟨b, hb⟩ := h a List.mem_cons_self
    obtain ⟨bs, hbs, hlen⟩ := ih fun a' ha' => h a' (List.mem_cons_of_mem _ ha')
    refine ⟨b :: bs, ?_, by rw [List.length_cons, List.length_cons, hlen]⟩
    rw [List.mapM_cons, hb, hbs]
    rfl

abbrev PyDict := List (Key × PyObj)

def getKey (d : PyDict) (key : String) : Option PyObj := d.lookup (.bytes (ascii key))

def hasKey (d : PyDict) (key : String) : Bool := (getKey d key).isSome

def getItem (d : PyDict) (key : String) : Result PyObj :=
  match getKey d key with
  | some v => .ok v
  | none => .error .failed

def decodeUtf8 : PyObj → Result Str
  | .bytes b =>
    match utf8Decode b with
    | some s => .ok s
    | none => .error .failed
  | _ => .error .failed

/-- The items of `for item in obj`. -/
def iterate : PyObj → Result (List PyObj)
  | .bytes b => .ok (b.map (fun c => .int c.toNat))
  | .str s => .ok (s.map (fun c => .str [c]))
  | .list items => .ok items
  | .dict entries => .ok (entries.map fun e =>
      match e.1 with
      | .bytes b => .bytes b
      | .str s => .str s
      | .other t => .other t)
  | _ => .error .failed

def pyLen : PyObj → Result Nat
  | .bytes b => .ok b.length
  | .str s => .ok s.length
  | .list items => .ok items.length
  | .dict entries => .ok entries.length
  | _ => .error .failed

def truth : PyObj → Bool
  | .bytes b => !b.isEmpty
  | .str s => !s.isEmpty
  | .int n => n ≠ 0
  | .bool b => b
  | .list items => !items.isEmpty
  | .dict entries => !entries.isEmpty
  | .other _ => true

def asDict : PyObj → Result PyDict
  | .dict d => .ok d
  | _ => .error .failed

def optionalText (d : PyDict) (key : String) : Result (Option Str) :=
  match getKey d key with
  | none => .ok none
  | some v => (decodeUtf8 v).map some

/-- `os.path.join(*parts)`, which needs at least one part. -/
def joinPath : List Str → Result Str
  | [] => .error .failed
  | part :: parts => .ok (parts.foldl (fun path b =>
      if b.head? = some '/' then b
      else if path.isEmpty || path.getLast? = some '/' then path ++ b
      else path ++ '/' :: b) part)

-- The models

structure FileInfo where
  name : Str
  length : Int
  path : Option (List Str)
  fullPath : Option Str
  attributes : Option Str
  symlinkPath : Option Str
  fileSha1 : Option Bytes
  length_nonneg : 0 ≤ length
  sha1_length : ∀ b, fileSha1 = some b → b.length = 20

theorem length_of_no_hash : ∀ b : Bytes, none = some b → b.length = 20 :=
  fun _ h => by cases h

structure TorrentInfo where
  name : Str
  infoHash : Bytes
  announce : Str
  announceList : Option (List (List Str))
  comment : Option Str
  createdBy : Option Str
  creationDate : Option Int
  encoding : Option Str
  isPrivate : Bool
  files : List FileInfo
  totalLength : Int
  pieceLength : Int
  pieces : List Bytes
  numPieces : Nat
  metaVersion : Int
  infoHash_length : infoHash.length = 20
  pieceLength_pos : 0 < pieceLength

section Parser

variable (coerceInt : Bytes → Option Int)

def toInt : PyObj → Result Int
  | .int n => .ok n
  | .bool b => .ok (if b then 1 else 0)
  | .bytes b =>
    match coerceInt b with
    | some n => .ok n
    | none => .error .failed
  | _ => .error .failed

/-- An optional integer field of a dictionary. -/
def optionalInt (d : PyDict) (key : String) : Result (Option Int) :=
  match getKey d key with
  | none => .ok none
  | some v => (toInt coerceInt v).map some

/-- The value of an optional `bytes` field for a hash of 20 octets. -/
def toSha1 : Option PyObj → Result { o : Option Bytes // ∀ b, o = some b → b.length = 20 }
  | none => .ok ⟨none, length_of_no_hash⟩
  | some (.bytes b) =>
    if h : b.length = 20 then .ok ⟨some b, by rintro c ⟨⟩; exact h⟩ else .error .failed
  | some _ => .error .failed

def makeFileInfo (name : Str) (length : PyObj) (path : Option (List Str)) (fullPath : Str)
    (attributes symlinkPath : Option Str) (fileSha1 : Option PyObj) : Result FileInfo := do
  let length ← toInt coerceInt length
  let sha1 ← toSha1 fileSha1
  if h : 0 ≤ length then
    if (attributes.getD []).contains 'l' && (symlinkPath.getD []).isEmpty then
      .error .failed
    else
      .ok ⟨name, length, path, some fullPath, attributes, symlinkPath, sha1.1, h, sha1.2⟩
  else .error .failed

/-- `meta_version in {2, 3}`; a list or a dictionary cannot be looked up in a set. -/
def isV2 : Option PyObj → Result (Option Int)
  | some (.int n) => .ok (if n = 2 ∨ n = 3 then some n else none)
  | some (.list _) => .error .failed
  | some (.dict _) => .error .failed
  | _ => .ok none

/-- `key not in data`, and then the error of `_validate_torrent`. -/
def requireKey (data : PyObj) (key : String) : Result Unit :=
  let missing : Result Unit := .error (.torrent ("Missing required key in torrent: " ++ key))
  match data with
  | .dict d => if hasKey d key then .ok () else missing
  | .list items =>
    if items.any (fun x => match x with | .bytes b => b == ascii key | _ => false) then .ok ()
    else missing
  | .bytes b => if b.tails.any (fun t => (ascii key).isPrefixOf t) then .ok () else missing
  | _ => .error .failed

/-- `_validate_torrent`; the result is the dictionary and its info dictionary. -/
def validateTorrent (data : PyObj) : Result (PyDict × PyDict) := do
  requireKey data "announce"
  requireKey data "info"
  let d ← asDict data
  match ← getItem d "info" with
  | .dict info =>
    match ← isV2 (getKey info "meta version") with
    | some version =>
      if !hasKey info "file tree" then .error (.torrent "v2 torrent missing 'file tree'")
      else if !hasKey info "piece layers" then .error (.torrent "v2 torrent missing 'piece layers'")
      else if version = 3 ∧ hasKey info "pieces" = false then
        .error (.torrent "hybrid torrent missing 'pieces' (v1 metadata)")
      else .ok (d, info)
    | none =>
      if !hasKey info "length" && !hasKey info "files" then
        .error (.torrent "Torrent must specify either length (single file) or files (multi-file)")
      else if !hasKey info "piece length" then
        .error (.torrent "Missing piece length in torrent info")
      else if !hasKey info "pieces" then .error (.torrent "Missing pieces in torrent info")
      else .ok (d, info)
  | _ => .error (.torrent "Invalid info dictionary in torrent")

def extractFile (fileInfo : PyObj) : Result FileInfo := do
  let d ← asDict fileInfo
  let length ← getItem d "length"
  let parts ← iterate (← getItem d "path")
  let pathParts ← parts.mapM decodeUtf8
  let fullPath ← joinPath pathParts
  let attributes ← optionalText d "attr"
  let symlinkPath ← optionalText d "symlink path"
  makeFileInfo coerceInt (pathParts.getLastD []) length (some pathParts) fullPath attributes
    symlinkPath (getKey d "sha1")

def extractFileInfo (info : PyDict) : Result (List FileInfo) :=
  match getKey info "length" with
  | some length => do
    let attributes ← optionalText info "attr"
    let symlinkPath ← optionalText info "symlink path"
    let name ← decodeUtf8 (← getItem info "name")
    let file ← makeFileInfo coerceInt name length none name attributes symlinkPath
      (getKey info "sha1")
    return [file]
  | none => do
    let items ← iterate (← getItem info "files")
    items.mapM (extractFile coerceInt)

/-- `_extract_pieces_info`: the piece length and the piece hashes. -/
def extractPiecesInfo (info : PyDict) : Result (PyObj × List Bytes) := do
  let pieceLength ← getItem info "piece length"
  let piecesData ← getItem info "pieces"
  let length ← pyLen piecesData
  if length % 20 ≠ 0 then
    .error (.torrent ("Invalid pieces data length: " ++ toString length ++
      " bytes (should be multiple of 20)"))
  else
    match piecesData with
    | .bytes b => .ok (pieceLength, pieces 20 b)
    -- the slices of another sequence are no byte strings
    | _ => if length = 0 then .ok (pieceLength, []) else .error .failed

def extractAnnounceList (data : PyDict) : Result (Option (List (List Str))) :=
  match getKey data "announce-list" with
  | none => .ok none
  | some v => do
    let tiers ← iterate v
    let urls ← tiers.mapM (fun tier => do (← iterate tier).mapM decodeUtf8)
    return some urls

/-- `_extract_torrent_data` for a torrent whose `meta version` is not 2 or 3. -/
def extractV1Data (info data : PyDict) : Result TorrentInfo := do
  let announce ← decodeUtf8 (← getItem data "announce")
  let infoBencoded ← (encode (.dict info)).mapError (fun _ => ParseError.failed)
  let infoHash := sha1 infoBencoded
  let files ← extractFileInfo coerceInt info
  let (pieceLength, pieceHashes) ← extractPiecesInfo info
  let announceList ← extractAnnounceList data
  let comment ← optionalText data "comment"
  let createdBy ← optionalText data "created by"
  let encoding ← optionalText data "encoding"
  let isPrivate := truth ((getKey info "private").getD (.int 0))
  let name ← decodeUtf8 (← getItem info "name")
  let creationDate ← optionalInt coerceInt data "creation date"
  let pieceLength ← toInt coerceInt pieceLength
  if h : 0 < pieceLength then
    return {
      name, infoHash, announce, announceList, comment, createdBy, creationDate, encoding,
      isPrivate, files, pieceLength
      totalLength := (files.map FileInfo.length).sum
      pieces := pieceHashes
      numPieces := pieceHashes.length
      metaVersion := 1
      infoHash_length := sha1_length _
      pieceLength_pos := h }
  else .error .failed

variable (parseV2 : Int → PyDict → PyDict → Result TorrentInfo)

def extractTorrentData (info data : PyDict) : Result TorrentInfo := do
  match ← isV2 (getKey info "meta version") with
  | some version => do
    let t ← parseV2 version info data
    return { t with metaVersion := version }
  | none => extractV1Data coerceInt info data

/-- `TorrentParser.parse` on the bytes that were read, with fuel for the decoder. -/
def parse (n : Nat) (torrentData : Bytes) : Result TorrentInfo :=
  match (decode torrentData n ⟨0, false⟩).1 with
  | .ok decoded => do
    let (data, info) ← validateTorrent decoded
    extractTorrentData coerceInt parseV2 info data
  | .error (.raised _) => .error .failed
  | .error .outOfFuel => .error .outOfFuel

end Parser

end Torrent

end Ccbt
