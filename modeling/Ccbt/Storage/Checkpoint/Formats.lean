import Ccbt.Python.Bytes
import Ccbt.Storage.Checkpoint.Model
import Mathlib.Algebra.Order.Floor.Ring
import Mathlib.Data.Rat.Floor

/-!
# The formats of checkpoints: `storage/checkpoint.py`

How a checkpoint is written as JSON and as a binary file, and how the files are read. `json`,
`msgpack`, `gzip` and `zstandard` are given with what is relied on: what they write is read again,
and a text that has been cut off is none.
-/

namespace Ccbt

open Python

namespace Checkpoint

section Serialisers

def jsonLeaf : Value → Option Value
  | .bytes _ => none
  | .other _ => none
  | v => some v

def jsonKey (repr : PyFloat → Str) : DictKey → Option DictKey
  | .none => some (.str "null".toList)
  | .bool b => some (.str (if b then "true".toList else "false".toList))
  | .int n => some (.str (strInt n))
  | .float x => some (.str (repr x))
  | .str s => some (.str s)
  | .bytes _ => none
  | .other _ => none

/-- The keys that `msgpack.unpackb` allows by default. -/
def unpackKey : DictKey → Option DictKey
  | .str s => some (.str s)
  | .bytes b => some (.bytes b)
  | _ => none

/-- What `json.loads` makes of what `json.dump` has written. -/
abbrev jsonImage (repr : PyFloat → Str) : Value → Option Value :=
  Value.image jsonLeaf (jsonKey repr)

/-- What `msgpack.unpackb` makes of what `msgpack.packb` has given. -/
abbrev msgpackImage : Value → Option Value := Value.image some unpackKey

/-- The modules that are used. -/
structure Libraries where
  /-- `float.__repr__`. -/
  repr : PyFloat → Str
  /-- What `json.dump` has written to the file when it ends, and whether it has not raised. -/
  dump : Value → Bytes × Bool
  /-- `json.loads` of the text, which is not empty. -/
  loads : Bytes → Option Value
  /-- `json.dumps(v, sort_keys=True).encode()`. -/
  sortedDumps : Value → Bytes
  packb : Value → Option Bytes
  /-- `msgpack.unpackb(data, raw=False)`. -/
  unpackb : Bytes → Option Value
  gzip : Bytes → Bytes
  /-- What can be read from a `GzipFile`. -/
  gunzip : Bytes → Option Bytes
  zstd : Bytes → Bytes
  has_zstd : Bool
  dump_refused : ∀ entries, jsonImage repr (.dict entries) = none →
    (dump (.dict entries)).2 = false ∧ ∀ n, loads ((dump (.dict entries)).1.take n) = none
  dump_accepted : ∀ entries v, jsonImage repr (.dict entries) = some v →
    (dump (.dict entries)).2 = true ∧ loads (dump (.dict entries)).1 = some v ∧
      ∀ n < (dump (.dict entries)).1.length, loads ((dump (.dict entries)).1.take n) = none
  unpackb_packb : ∀ v data, packb v = some data → unpackb data = msgpackImage v ∧
    ∀ n < data.length, unpackb (data.take n) = none
  gunzip_gzip : ∀ data, gunzip (gzip data) = some data
  gunzip_gzip_take : ∀ data n, gunzip ((gzip data).take n) = none ∨
    ∃ m, gunzip ((gzip data).take n) = some (data.take m)
  gunzip_zstd_take : ∀ data n, gunzip ((zstd data).take n) = none ∨
    gunzip ((zstd data).take n) = some []

end Serialisers

inductive CheckpointFormat
  | JSON
  | BINARY
  | BOTH
  deriving DecidableEq

/-- The settings of `DiskConfig` for checkpoints, which are enabled. -/
structure DiskConfig where
  checkpoint_format : CheckpointFormat := .BOTH
  checkpoint_compression : Bool := true
  checkpoint_compression_algorithm : Str := "zstd".toList
  checkpoint_deduplication : Bool := true

/-- The end of a file name behind the info hash in hexadecimal. -/
inductive Suffix
  /-- `.checkpoint.json` -/
  | json
  /-- `.checkpoint.bin` -/
  | bin
  /-- `.checkpoint.bin.gz` -/
  | binGz
  /-- `.checkpoint.bin.zst` -/
  | binZst
  deriving DecidableEq

abbrev Disk := Bytes × Suffix → Option Bytes

/-- `time.time()`. -/
abbrev Now := { q : Rat // 0 ≤ q ∧ q < 2 ^ 64 }

/-- What becomes of the writing of a file. -/
inductive WriteOutcome
  | done
  /-- `open` raises. -/
  | notOpened
  /-- The writing raises when this many octets are on disk. -/
  | stopped (n : Nat)

/-- The file is opened for writing and gets a content, and whether nothing has been raised. -/
def writeFile (disk : Disk) (path : Bytes × Suffix) (content : Bytes) : WriteOutcome → Bool × Disk
  | .done => (true, Function.update disk path (some content))
  | .notOpened => (false, disk)
  | .stopped n => (false, Function.update disk path (some (content.take n)))

inductive LoadError
  | CheckpointNotFoundError
  | CheckpointCorruptedError
  deriving DecidableEq

/-- What `load_checkpoint` gives: an error, `None` or a checkpoint. -/
inductive Loaded
  | raised
  | absent
  | checkpoint (c : TorrentCheckpoint)

section Json

def resumeToText : DictKey → Value → Value
  | .str name, .bytes b =>
    if name = "info_hash".toList then .str (hexText b)
    else if name = "piece_completion_bitmap".toList then .str (b64encode b)
    else .bytes b
  | _, v => v

def resumeOfText : DictKey → Value → Value
  | .str name, .str s =>
    if name = "info_hash".toList then
      match fromHex s with
      | some b => .bytes b
      | none => .str s
    else if name = "piece_completion_bitmap".toList then
      match b64decode s with
      | some b => .bytes b
      | none => .str s
    else .str s
  | _, v => v

/-- A dictionary with its entries converted. -/
def convertEntries (convert : DictKey → Value → Value) : Value → Value
  | .dict entries => .dict (entries.map fun e => (e.1, convert e.1 e.2))
  | v => v

/-- `checkpoint_dict` as `_save_json_checkpoint` dumps it. -/
def jsonDict (c : TorrentCheckpoint) : CheckpointField → Value
  | .info_hash => .str (hexText c.info_hash)
  | .piece_states => c.pieceStates
  | .resume_data => convertEntries resumeToText (c.modelDump .resume_data)
  | field => c.modelDump field

variable (lib : Libraries)

def saveJson (c : TorrentCheckpoint) (now : Now) (outcome : WriteOutcome) (disk : Disk) :
    Bool × Disk :=
  let text := lib.dump (.record (jsonDict { c with updated_at := .finite now.val }))
  let (written, disk) := writeFile disk (c.info_hash, .json) text.1 outcome
  (text.2 && written, disk)

/-- The dictionary with what `_load_json_checkpoint` converts. What is converted in
`piece_states`, the validator takes as it is. -/
def convertedFields (d : CheckpointField → Value) (info_hash : Bytes) : CheckpointField → Value
  | .info_hash => .bytes info_hash
  | .resume_data => convertEntries resumeOfText (d .resume_data)
  | field => d field

/-- The checkpoint of the dictionary that `json.loads` has given. Every key is there in what has
been written. -/
def checkpointOfJson (v : Value) : Option TorrentCheckpoint :=
  let d : CheckpointField → Value := fun field => (v.get? field.name).getD .none
  ((asStr (d .info_hash)).bind fromHex).bind fun info_hash =>
    if asStr (d .version) = some "1.0".toList then
      asTorrentCheckpoint (convertedFields d info_hash)
    else none

def loadJson (disk : Disk) (info_hash : Bytes) : Except LoadError (Option TorrentCheckpoint) :=
  match disk (info_hash, .json) with
  | none => .error .CheckpointNotFoundError
  | some content =>
    match (lib.loads content).bind checkpointOfJson with
    | none => .error .CheckpointCorruptedError
    | some c => .ok (some c)

end Json

section Binary

def MAGIC_BYTES : Bytes := ascii "CCBT"

/-- Where the index leads in a `bytearray`: from its end if it is negative. -/
def octetIndex (length : Nat) (byte_idx : Int) : Int :=
  if byte_idx < 0 then byte_idx + length else byte_idx

/-- `bitfield[byte_idx] |= 1 << (7 - bit_idx)`, or `none` where it raises `IndexError`. -/
def markPiece (bitfield : Bytes) (piece_idx : Int) : Option Bytes :=
  let i := octetIndex bitfield.length (piece_idx / 8)
  if 0 ≤ i ∧ i < bitfield.length then
    some (bitfield.modify i.toNat (· ||| UInt8.ofNat (2 ^ (7 - (piece_idx % 8).toNat))))
  else none

/-- The verified pieces as a bitfield. -/
def pieceBitfield (c : TorrentCheckpoint) : Option Bytes :=
  c.verified_pieces.foldlM markPiece (List.replicate ((c.total_pieces + 7) / 8) 0)

def piecesOfBitfield (total_pieces : Nat) (bitfield : Bytes) : List Nat :=
  (List.range (8 * bitfield.length)).filter fun piece_idx =>
    piece_idx < total_pieces && (bitfield.getD (piece_idx / 8) 0).toNat.testBit (7 - piece_idx % 8)

/-- The entries of `metadata` of a binary checkpoint. -/
def metadataFields (c : TorrentCheckpoint) : MetadataField → Value
  | .torrent_name => .str c.torrent_name
  | .piece_length => .int c.piece_length
  | .total_length => .int c.total_length
  | .piece_states => c.pieceStates
  | .download_stats => c.download_stats.modelDump
  | .output_dir => .str c.output_dir
  | .files => .list (c.files.map FileCheckpoint.modelDump)
  | .peer_info => optional Subtype.val c.peer_info
  | .endgame_mode => .bool c.endgame_mode
  | .torrent_file_path => optional .str c.torrent_file_path
  | .magnet_uri => optional .str c.magnet_uri
  | .announce_urls => .list (c.announce_urls.map .str)
  | .display_name => optional .str c.display_name

def metadata (c : TorrentCheckpoint) : Value := .record (metadataFields c)

variable (lib : Libraries) (config : DiskConfig)

def seconds (now : Now) : Nat := ⌊now.val⌋.toNat

def binaryHeader (c : TorrentCheckpoint) (now : Now) : Bytes :=
  MAGIC_BYTES ++ [1] ++ c.info_hash ++ littleEndian 8 (seconds now)

/-- What `_write_binary` and `_write_binary_data` write up to their end or to the exception, and
whether there is none. -/
def binaryData (c : TorrentCheckpoint) (now : Now) : Bytes × Bool :=
  let data := binaryHeader c now
  if c.total_pieces < 2 ^ 32 then
    let data := data ++ littleEndian 4 c.total_pieces
    match pieceBitfield c with
    | none => (data, false)
    | some bitfield =>
      let data := data ++ bitfield
      match lib.packb (metadata c) with
      | none => (data, false)
      | some metadata_bytes =>
        if metadata_bytes.length < 2 ^ 32 then
          (data ++ littleEndian 4 metadata_bytes.length ++ metadata_bytes, true)
        else (data, false)
  else (data, false)

/-- Whether zstd is used for what is compressed. -/
def usesZstd : Bool :=
  config.checkpoint_compression_algorithm.map Char.toLower = "zstd".toList && lib.has_zstd

def binarySuffix : Suffix :=
  if config.checkpoint_compression then if usesZstd lib config then .binZst else .binGz else .bin

/-- The content of a binary file with these data; a compressor is closed behind an exception. -/
def compressed (data : Bytes) : Bytes :=
  if config.checkpoint_compression then
    if usesZstd lib config then lib.zstd data else lib.gzip data
  else data

/-- `_save_binary_checkpoint`, and whether it returns. -/
def saveBinary (c : TorrentCheckpoint) (now : Now) (outcome : WriteOutcome) (disk : Disk) :
    Bool × Disk :=
  let data := binaryData lib c now
  let (written, disk) := writeFile disk (c.info_hash, binarySuffix lib config)
    (compressed lib config data.1) outcome
  (data.2 && written, disk)

/-- `struct.unpack` of the next octets, and the rest. -/
def readExactly (n : Nat) (data : Bytes) : Option (Bytes × Bytes) :=
  if n ≤ data.length then some (data.take n, data.drop n) else none

def binaryDict (info_hash : Bytes) (timestamp total_pieces : Nat) (verified_pieces : List Nat)
    (metadata : Value) : CheckpointField → Value
  | .version => .str "1.0".toList
  | .info_hash => .bytes info_hash
  | .created_at => .int timestamp
  | .updated_at => .int timestamp
  | .total_pieces => .int total_pieces
  | .verified_pieces => .list (verified_pieces.map fun i : Nat => .int i)
  | .piece_states => (metadata.get? MetadataField.piece_states.name).getD (.dict [])
  | .download_stats => (metadata.get? MetadataField.download_stats.name).getD (.dict [])
  | .files => (metadata.get? MetadataField.files.name).getD (.list [])
  | .peer_info => (metadata.get? MetadataField.peer_info.name).getD .none
  | .endgame_mode => (metadata.get? MetadataField.endgame_mode.name).getD (.bool false)
  | .torrent_name => (metadata.get? MetadataField.torrent_name.name).getD (.str "Unknown".toList)
  | .piece_length => (metadata.get? MetadataField.piece_length.name).getD (.int 0)
  | .total_length => (metadata.get? MetadataField.total_length.name).getD (.int 0)
  | .output_dir => (metadata.get? MetadataField.output_dir.name).getD (.str ".".toList)
  | .torrent_file_path => (metadata.get? MetadataField.torrent_file_path.name).getD .none
  | .magnet_uri => (metadata.get? MetadataField.magnet_uri.name).getD .none
  | .announce_urls => (metadata.get? MetadataField.announce_urls.name).getD (.list [])
  | .display_name => (metadata.get? MetadataField.display_name.name).getD .none
  -- these two are not in the dictionary, and the model has `None` for them
  | .resume_data => .none
  | .file_selections => .none

/-- `_read_binary_data`, or `none` where it raises. -/
def readBinaryData (info_hash data : Bytes) : Option (CheckpointField → Value) := do
  let (magic, data) ← readExactly 4 data
  if magic ≠ MAGIC_BYTES then none else
  let (version, data) ← readExactly 1 data
  if version ≠ [1] then none else
  let (file_info_hash, data) ← readExactly 20 data
  if file_info_hash ≠ info_hash then none else
  let (timestamp, data) ← readExactly 8 data
  let (total_pieces, data) ← readExactly 4 data
  let total_pieces := ofLittleEndian total_pieces
  let bitfield := data.take ((total_pieces + 7) / 8)
  let (metadata_len, data) ← readExactly 4 (data.drop ((total_pieces + 7) / 8))
  let metadata ← lib.unpackb (data.take (ofLittleEndian metadata_len))
  some (binaryDict info_hash (ofLittleEndian timestamp) total_pieces
    (piecesOfBitfield total_pieces bitfield) metadata)

/-- What can be read from a binary file; a compressed one is taken for a gzip file. -/
def uncompressed (content : Bytes) : Option Bytes :=
  if config.checkpoint_compression then lib.gunzip content else some content

def loadBinary (disk : Disk) (info_hash : Bytes) : Except LoadError (Option TorrentCheckpoint) :=
  match disk (info_hash, binarySuffix lib config) with
  | none => .error .CheckpointNotFoundError
  | some content =>
    match ((uncompressed lib config content).bind (readBinaryData lib info_hash)).bind
      asTorrentCheckpoint with
    | none => .error .CheckpointCorruptedError
    | some c => .ok (some c)

end Binary

section Both

variable (lib : Libraries) (config : DiskConfig)

/-- The writing of `save_checkpoint` in a format, with the time and the outcome for each file, and
whether it returns. -/
def saveAs (c : TorrentCheckpoint) (times : Now × Now) (outcomes : WriteOutcome × WriteOutcome)
    (disk : Disk) : CheckpointFormat → Bool × Disk
  | .JSON => saveJson lib c times.1 outcomes.1 disk
  | .BINARY => saveBinary lib config c times.2 outcomes.2 disk
  | .BOTH =>
    match saveJson lib c times.1 outcomes.1 disk with
    | (false, disk) => (false, disk)
    | (true, disk) => saveBinary lib config c times.2 outcomes.2 disk

/-- What `load_checkpoint` tries in a format. -/
def tryLoad (disk : Disk) (info_hash : Bytes) :
    CheckpointFormat → Except LoadError (Option TorrentCheckpoint)
  | .JSON => loadJson lib disk info_hash
  | .BINARY => loadBinary lib config disk info_hash
  | .BOTH =>
    match loadJson lib disk info_hash with
    | .ok none => loadBinary lib config disk info_hash
    | result => result

/-- `load_checkpoint` in a format. -/
def loadAs (disk : Disk) (info_hash : Bytes) (checkpoint_format : CheckpointFormat) : Loaded :=
  match tryLoad lib config disk info_hash checkpoint_format with
  | .ok none => .absent
  | .ok (some c) => .checkpoint c
  | .error .CheckpointNotFoundError => .absent
  | .error .CheckpointCorruptedError => .raised

end Both

end Checkpoint

end Ccbt
