import Ccbt.Core.Torrent

/-!
# Torrent data from metadata: `core/magnet.py`

`build_torrent_data_from_metadata` makes the client's `torrent_data` of an info dictionary that has
come from peers. What it reads is arbitrary decoded data, as for the parser of torrent files.
-/

namespace Ccbt

open Python Bencode Torrent

namespace Magnet

structure FileEntry where
  length : Int
  path : List Str
  full_path : Str
  deriving DecidableEq

inductive FileInfo
  | multi (files : List FileEntry) (name : Str) (total_length : Int)
  | single (length : Int) (name : Str) (total_length : Int)
  deriving DecidableEq

def FileInfo.name : FileInfo → Str
  | multi _ name _ => name
  | single _ name _ => name

/-- The total length that `pieces_info` gets, which is added up again for many files. -/
def FileInfo.totalLength : FileInfo → Int
  | single _ _ total_length => total_length
  | multi files _ _ => (files.map FileEntry.length).sum

structure PiecesInfo where
  piece_length : Int
  num_pieces : Nat
  piece_hashes : List PyObj
  total_length : Int

/-- `torrent_data`. There are no trackers in it. -/
structure TorrentData where
  info_hash : Bytes
  info : PyDict
  file_info : FileInfo
  pieces_info : PiecesInfo
  name : Str
  is_private : Bool

def pyInt : PyObj → Result Int
  | .int n => .ok n
  | .bool b => .ok (if b then 1 else 0)
  | .bytes b =>
    match (if b.all (· < 128) then parseInt (b.map fun c => Char.ofNat c.toNat) else none) with
    | some n => .ok n
    | none => .error .failed
  | .str s =>
    match parseInt s with
    | some n => .ok n
    | none => .error .failed
  | _ => .error .failed

def decodeIgnore : PyObj → Result Str
  | .bytes b => .ok (utf8DecodeIgnore b)
  | _ => .error .failed

/-- `[obj[i : i + 20] for i in range(0, len(obj), 20)]`. A dictionary cannot be sliced. -/
def pieceHashes : PyObj → Result (List PyObj)
  | .bytes b => .ok ((pieces 20 b).map .bytes)
  | .str s => .ok ((pieces 20 s).map .str)
  | .list items => .ok ((pieces 20 items).map .list)
  | .dict [] => .ok []
  | _ => .error .failed

def buildFile (f : PyObj) : Result FileEntry := do
  let d ← asDict f
  let length ← pyInt (← getItem d "length")
  let parts ← iterate (← getItem d "path")
  let path ← parts.mapM decodeIgnore
  return { length, path, full_path := List.intercalate ['/'] path }

def buildFileInfo (info_dict : PyDict) : Result FileInfo :=
  match getKey info_dict "files" with
  | some v => do
    let items ← iterate v
    let files ← items.mapM buildFile
    let name ← decodeIgnore ((getKey info_dict "name").getD (.bytes []))
    return .multi files name (files.map FileEntry.length).sum
  | none => do
    let length ← pyInt ((getKey info_dict "length").getD (.int 0))
    let name ← decodeIgnore ((getKey info_dict "name").getD (.bytes []))
    return .single length name length

def buildTorrentDataFromMetadata (info_hash : Bytes) (info_dict : PyDict) : Result TorrentData := do
  let piece_length ← pyInt ((getKey info_dict "piece length").getD (.int 0))
  let piece_hashes ← pieceHashes ((getKey info_dict "pieces").getD (.bytes []))
  let file_info ← buildFileInfo info_dict
  return {
    info_hash
    info := info_dict
    file_info
    pieces_info := {
      piece_length
      num_pieces := piece_hashes.length
      piece_hashes
      total_length := file_info.totalLength }
    name := file_info.name
    is_private := truth ((getKey info_dict "private").getD (.int 0)) }

end Magnet

end Ccbt
