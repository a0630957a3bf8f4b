import Ccbt.Peer.PieceManager
import Ccbt.Python.BinAscii
import Ccbt.Python.Value

/-!
# Checkpoints: `TorrentCheckpoint` of `ccbt/models.py`

The models with what their validators ask for, the dictionaries that `model_dump` makes of them, and
what the constructors make of a dictionary, as far as it has come from a checkpoint. An optional
`download_stats` is replaced by the default when a checkpoint is made, so it is always there.
-/

namespace Ccbt

open Python

namespace PieceState

def value : PieceState → Str
  | MISSING => "missing".toList
  | REQUESTED => "requested".toList
  | DOWNLOADING => "downloading".toList
  | COMPLETE => "complete".toList
  | VERIFIED => "verified".toList

/-- `PieceState(v)`, or `none` where it raises `ValueError`. -/
def ofValue (v : Str) : Option PieceState :=
  [MISSING, REQUESTED, DOWNLOADING, COMPLETE, VERIFIED].find? fun state => state.value = v

theorem ofValue_value (state : PieceState) : ofValue state.value = some state := by
  cases state <;> decide +kernel

end PieceState

namespace Checkpoint

/-- A `dict[str, Any]`. -/
def isStrDict : Value → Bool
  | .dict entries => (entries.all fun e => match e.1 with | .str _ => true | _ => false) &&
      decide (entries.map Prod.fst).Nodup
  | _ => false

abbrev StrDict := { v : Value // isStrDict v = true }

structure DownloadStats where
  bytes_downloaded : Nat
  download_time : PyFloat
  average_speed : PyFloat
  start_time : PyFloat
  last_update : PyFloat
  download_time_ge : download_time.isNonneg = true
  average_speed_ge : average_speed.isNonneg = true

structure FileCheckpoint where
  path : Str
  size : Nat
  exists_ : Bool := false
  attributes : Option Str := none
  symlink_path : Option Str := none
  file_sha1 : Option Bytes := none

structure TorrentCheckpoint where
  version : Str
  info_hash : Bytes
  torrent_name : Str
  created_at : PyFloat
  updated_at : PyFloat
  total_pieces : Nat
  piece_length : Nat
  total_length : Nat
  verified_pieces : List Int
  piece_states : Dict Int PieceState
  download_stats : DownloadStats
  output_dir : Str
  files : List FileCheckpoint
  peer_info : Option StrDict
  endgame_mode : Bool
  torrent_file_path : Option Str
  magnet_uri : Option Str
  announce_urls : List Str
  display_name : Option Str
  resume_data : Option StrDict
  file_selections : Option (Dict Int StrDict)
  info_hash_length : info_hash.length = 20
  piece_length_gt : 0 < piece_length

section Keys

inductive StatsField
  | bytes_downloaded
  | download_time
  | average_speed
  | start_time
  | last_update

inductive FileField
  | path
  | size
  | exists_
  | attributes
  | symlink_path
  | file_sha1

inductive CheckpointField
  | version
  | info_hash
  | torrent_name
  | created_at
  | updated_at
  | total_pieces
  | piece_length
  | total_length
  | verified_pieces
  | piece_states
  | download_stats
  | output_dir
  | files
  | peer_info
  | endgame_mode
  | torrent_file_path
  | magnet_uri
  | announce_urls
  | display_name
  | resume_data
  | file_selections

/-- The keys of the metadata in a binary checkpoint. -/
inductive MetadataField
  | torrent_name
  | piece_length
  | total_length
  | piece_states
  | download_stats
  | output_dir
  | files
  | peer_info
  | endgame_mode
  | torrent_file_path
  | magnet_uri
  | announce_urls
  | display_name

def StatsField.name : StatsField → Str
  | bytes_downloaded => "bytes_downloaded".toList
  | download_time => "download_time".toList
  | average_speed => "average_speed".toList
  | start_time => "start_time".toList
  | last_update => "last_update".toList

def FileField.name : FileField → Str
  | path => "path".toList
  | size => "size".toList
  | exists_ => "exists".toList
  | attributes => "attributes".toList
  | symlink_path => "symlink_path".toList
  | file_sha1 => "file_sha1".toList

def CheckpointField.name : CheckpointField → Str
  | version => "version".toList
  | info_hash => "info_hash".toList
  | torrent_name => "torrent_name".toList
  | created_at => "created_at".toList
  | updated_at => "updated_at".toList
  | total_pieces => "total_pieces".toList
  | piece_length => "piece_length".toList
  | total_length => "total_length".toList
  | verified_pieces => "verified_pieces".toList
  | piece_states => "piece_states".toList
  | download_stats => "download_stats".toList
  | output_dir => "output_dir".toList
  | files => "files".toList
  | peer_info => "peer_info".toList
  | endgame_mode => "endgame_mode".toList
  | torrent_file_path => "torrent_file_path".toList
  | magnet_uri => "magnet_uri".toList
  | announce_urls => "announce_urls".toList
  | display_name => "display_name".toList
  | resume_data => "resume_data".toList
  | file_selections => "file_selections".toList

def MetadataField.name : MetadataField → Str
  | torrent_name => "torrent_name".toList
  | piece_length => "piece_length".toList
  | total_length => "total_length".toList
  | piece_states => "piece_states".toList
  | download_stats => "download_stats".toList
  | output_dir => "output_dir".toList
  | files => "files".toList
  | peer_info => "peer_info".toList
  | endgame_mode => "endgame_mode".toList
  | torrent_file_path => "torrent_file_path".toList
  | magnet_uri => "magnet_uri".toList
  | announce_urls => "announce_urls".toList
  | display_name => "display_name".toList

def StatsField.all : List StatsField :=
  [.bytes_downloaded, .download_time, .average_speed, .start_time, .last_update]

theorem StatsField.mem_all (k : StatsField) : k ∈ StatsField.all := by
  cases k <;> simp [StatsField.all]

theorem StatsField.nodup_names : (StatsField.all.map StatsField.name).Nodup := by
  decide +kernel

instance : Names StatsField where
  all := StatsField.all
  name := StatsField.name
  mem_all := StatsField.mem_all
  nodup_names := StatsField.nodup_names

def FileField.all : List FileField :=
  [.path, .size, .exists_, .attributes, .symlink_path, .file_sha1]

theorem FileField.mem_all (k : FileField) : k ∈ FileField.all := by
  cases k <;> simp [FileField.all]

theorem FileField.nodup_names : (FileField.all.map FileField.name).Nodup := by
  decide +kernel

instance : Names FileField where
  all := FileField.all
  name := FileField.name
  mem_all := FileField.mem_all
  nodup_names := FileField.nodup_names

def CheckpointField.all : List CheckpointField :=
  [.version, .info_hash, .torrent_name, .created_at, .updated_at, .total_pieces,
    .piece_length, .total_length, .verified_pieces, .piece_states, .download_stats, .output_dir,
    .files, .peer_info, .endgame_mode, .torrent_file_path, .magnet_uri, .announce_urls,
    .display_name, .resume_data, .file_selections]

theorem CheckpointField.mem_all (k : CheckpointField) : k ∈ CheckpointField.all := by
  cases k <;> simp [CheckpointField.all]

theorem CheckpointField.nodup_names : (CheckpointField.all.map CheckpointField.name).Nodup := by
  decide +kernel

instance : Names CheckpointField where
  all := CheckpointField.all
  name := CheckpointField.name
  mem_all := CheckpointField.mem_all
  nodup_names := CheckpointField.nodup_names

def MetadataField.all : List MetadataField :=
  [.torrent_name, .piece_length, .total_length, .piece_states, .download_stats, .output_dir,
    .files, .peer_info, .endgame_mode, .torrent_file_path, .magnet_uri, .announce_urls,
    .display_name]

theorem MetadataField.mem_all (k : MetadataField) : k ∈ MetadataField.all := by
  cases k <;> simp [MetadataField.all]

theorem MetadataField.nodup_names : (MetadataField.all.map MetadataField.name).Nodup := by
  decide +kernel

instance : Names MetadataField where
  all := MetadataField.all
  name := MetadataField.name
  mem_all := MetadataField.mem_all
  nodup_names := MetadataField.nodup_names

end Keys

section Dump

def optional {α : Type} (dump : α → Value) : Option α → Value
  | none => .none
  | some x => dump x

def DownloadStats.modelDump (stats : DownloadStats) : Value :=
  .record fun
    | StatsField.bytes_downloaded => .int stats.bytes_downloaded
    | .download_time => .float stats.download_time
    | .average_speed => .float stats.average_speed
    | .start_time => .float stats.start_time
    | .last_update => .float stats.last_update

def FileCheckpoint.modelDump (file : FileCheckpoint) : Value :=
  .record fun
    | FileField.path => .str file.path
    | .size => .int file.size
    | .exists_ => .bool file.exists_
    | .attributes => optional .str file.attributes
    | .symlink_path => optional .str file.symlink_path
    | .file_sha1 => optional .bytes file.file_sha1

/-- The entries of `model_dump` of a checkpoint; a member of an enumeration is its string. -/
def TorrentCheckpoint.modelDump (c : TorrentCheckpoint) : CheckpointField → Value
  | .version => .str c.version
  | .info_hash => .bytes c.info_hash
  | .torrent_name => .str c.torrent_name
  | .created_at => .float c.created_at
  | .updated_at => .float c.updated_at
  | .total_pieces => .int c.total_pieces
  | .piece_length => .int c.piece_length
  | .total_length => .int c.total_length
  | .verified_pieces => .list (c.verified_pieces.map .int)
  | .piece_states => .dict (c.piece_states.entries.map fun e => (.int e.1, .str e.2.value))
  | .download_stats => c.download_stats.modelDump
  | .output_dir => .str c.output_dir
  | .files => .list (c.files.map FileCheckpoint.modelDump)
  | .peer_info => optional Subtype.val c.peer_info
  | .endgame_mode => .bool c.endgame_mode
  | .torrent_file_path => optional .str c.torrent_file_path
  | .magnet_uri => optional .str c.magnet_uri
  | .announce_urls => .list (c.announce_urls.map .str)
  | .display_name => optional .str c.display_name
  | .resume_data => optional Subtype.val c.resume_data
  | .file_selections =>
    optional (fun d => .dict (d.entries.map fun e => (.int e.1, e.2.val))) c.file_selections

/-- `{str(k): v.value for k, v in piece_states.items()}` -/
def TorrentCheckpoint.pieceStates (c : TorrentCheckpoint) : Value :=
  .dict (c.piece_states.entries.map fun e => (.str (strInt e.1), .str e.2.value))

end Dump

section Validate

def asStr : Value → Option Str
  | .str s => some s
  | _ => none

def asInt : Value → Option Int
  | .int n => some n
  | _ => none

def asNat : Value → Option Nat
  | .int n => if 0 ≤ n then some n.toNat else none
  | _ => none

def asBool : Value → Option Bool
  | .bool b => some b
  | _ => none

def asBytes : Value → Option Bytes
  | .bytes b => some b
  | _ => none

def asFloat : Value → Option PyFloat
  | .float x => some x
  | .int n => some (.finite n)
  | _ => none

def asOptional {α : Type} (validate : Value → Option α) : Value → Option (Option α)
  | .none => some none
  | v => (validate v).map some

def asList {α : Type} (validate : Value → Option α) : Value → Option (List α)
  | .list items => items.mapM validate
  | _ => none

def asStrDict (v : Value) : Option StrDict :=
  if h : isStrDict v = true then some ⟨v, h⟩ else none

/-- An integer as a key; in a text it is a string. -/
def asIntKey : DictKey → Option Int
  | .int n => some n
  | .str s => parseInt s
  | _ => none

/-- A dictionary with integers as its keys. -/
def asIntDict {α : Type} (validate : Value → Option α) : Value → Option (Dict Int α)
  | .dict entries =>
    (entries.mapM fun e => (asIntKey e.1).bind fun k => (validate e.2).map fun v => (k, v)).map
      fun es => ⟨dictOf es, nodup_keys_dictOf es⟩
  | _ => none

/-- `DownloadStats(**v)` -/
def asDownloadStats (v : Value) : Option DownloadStats := do
  let bytes_downloaded ← (v.get? StatsField.bytes_downloaded.name).bind asNat
  let download_time ← (v.get? StatsField.download_time.name).bind asFloat
  let average_speed ← (v.get? StatsField.average_speed.name).bind asFloat
  let start_time ← (v.get? StatsField.start_time.name).bind asFloat
  let last_update ← (v.get? StatsField.last_update.name).bind asFloat
  if h : download_time.isNonneg = true ∧ average_speed.isNonneg = true then
    some ⟨bytes_downloaded, download_time, average_speed, start_time, last_update, h.1, h.2⟩
  else none

/-- `FileCheckpoint(**v)` -/
def asFileCheckpoint (v : Value) : Option FileCheckpoint := do
  let path ← (v.get? FileField.path.name).bind asStr
  let size ← (v.get? FileField.size.name).bind asNat
  let exists_ ← (v.get? FileField.exists_.name).bind asBool
  let attributes ← (v.get? FileField.attributes.name).bind (asOptional asStr)
  let symlink_path ← (v.get? FileField.symlink_path.name).bind (asOptional asStr)
  let file_sha1 ← (v.get? FileField.file_sha1.name).bind (asOptional asBytes)
  some ⟨path, size, exists_, attributes, symlink_path, file_sha1⟩

/-- `TorrentCheckpoint(**d)` -/
def asTorrentCheckpoint (d : CheckpointField → Value) : Option TorrentCheckpoint := do
  let version ← asStr (d .version)
  let info_hash ← asBytes (d .info_hash)
  let torrent_name ← asStr (d .torrent_name)
  let created_at ← asFloat (d .created_at)
  let updated_at ← asFloat (d .updated_at)
  let total_pieces ← asNat (d .total_pieces)
  let piece_length ← asNat (d .piece_length)
  let total_length ← asNat (d .total_length)
  let verified_pieces ← asList asInt (d .verified_pieces)
  let piece_states ← asIntDict (fun v => (asStr v).bind PieceState.ofValue) (d .piece_states)
  let download_stats ← asDownloadStats (d .download_stats)
  let output_dir ← asStr (d .output_dir)
  let files ← asList asFileCheckpoint (d .files)
  let peer_info ← asOptional asStrDict (d .peer_info)
  let endgame_mode ← asBool (d .endgame_mode)
  let torrent_file_path ← asOptional asStr (d .torrent_file_path)
  let magnet_uri ← asOptional asStr (d .magnet_uri)
  let announce_urls ← asList asStr (d .announce_urls)
  let display_name ← asOptional asStr (d .display_name)
  let resume_data ← asOptional asStrDict (d .resume_data)
  let file_selections ← asOptional (asIntDict asStrDict) (d .file_selections)
  if h : info_hash.length = 20 ∧ 0 < piece_length then
    some { version, info_hash, torrent_name, created_at, updated_at, total_pieces, piece_length,
           total_length, verified_pieces, piece_states, download_stats, output_dir, files,
           peer_info, endgame_mode, torrent_file_path, magnet_uri, announce_urls, display_name,
           resume_data, file_selections, info_hash_length := h.1, piece_length_gt := h.2 }
  else none

end Validate

end Checkpoint

end Ccbt
