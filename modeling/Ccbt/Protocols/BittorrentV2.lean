import Ccbt.Python.Bytes

/-!
# Version 2 messages: the message classes of `protocols/bittorrent_v2.py`

`deserialize` takes the octets from the message id on. An error stands for the
`ProtocolVersionError` that the class raises.
-/

namespace Ccbt

open Python

namespace BittorrentV2

def MESSAGE_ID_PIECE_LAYER_REQUEST : UInt8 := 20
def MESSAGE_ID_PIECE_LAYER_RESPONSE : UInt8 := 21
def MESSAGE_ID_FILE_TREE_REQUEST : UInt8 := 22
def MESSAGE_ID_FILE_TREE_RESPONSE : UInt8 := 23

inductive V2Message
  | PieceLayerRequest (pieces_root : Bytes) (root_length : pieces_root.length = 32)
  | PieceLayerResponse (pieces_root : Bytes) (piece_hashes : List Bytes)
      (root_length : pieces_root.length = 32) (hash_length : ∀ h ∈ piece_hashes, h.length = 32)
  | FileTreeRequest
  | FileTreeResponse (file_tree : Bytes) (ne_nil : file_tree ≠ [])
  deriving DecidableEq

namespace PieceLayerRequest

def new (pieces_root : Bytes) : Except String V2Message :=
  if h : pieces_root.length = 32 then .ok (.PieceLayerRequest pieces_root h)
  else .error s!"pieces_root must be 32 bytes (SHA-256), got {pieces_root.length}"

def deserialize (data : Bytes) : Except String V2Message :=
  if data.length < 1 + 32 then
    .error s!"Piece layer request too short: {data.length} bytes (expected at least 33)"
  else if data.head? ≠ some MESSAGE_ID_PIECE_LAYER_REQUEST then
    .error s!"Invalid message ID: {data.headD 0} (expected {MESSAGE_ID_PIECE_LAYER_REQUEST})"
  else new ((data.drop 1).take 32)

end PieceLayerRequest

namespace PieceLayerResponse

def new (pieces_root : Bytes) (piece_hashes : List Bytes) : Except String V2Message :=
  if hr : pieces_root.length = 32 then
    if hh : ∀ h ∈ piece_hashes, h.length = 32 then
      .ok (.PieceLayerResponse pieces_root piece_hashes hr hh)
    else
      let i := piece_hashes.findIdx (fun h => h.length ≠ 32)
      .error s!"Piece hash {i} must be 32 bytes (SHA-256), got {(piece_hashes.getD i []).length}"
  else .error s!"pieces_root must be 32 bytes (SHA-256), got {pieces_root.length}"

def deserialize (data : Bytes) : Except String V2Message :=
  if data.length < 1 + 32 then
    .error s!"Piece layer response too short: {data.length} bytes (expected at least 33)"
  else if data.head? ≠ some MESSAGE_ID_PIECE_LAYER_RESPONSE then
    .error s!"Invalid message ID: {data.headD 0} (expected {MESSAGE_ID_PIECE_LAYER_RESPONSE})"
  else
    let piece_layer_data := data.drop 33
    if piece_layer_data.length % 32 ≠ 0 then
      .error ("Piece layer data length must be multiple of 32 bytes, " ++
        s!"got {piece_layer_data.length}")
    else new ((data.drop 1).take 32) (pieces 32 piece_layer_data)

end PieceLayerResponse

namespace FileTreeRequest

def deserialize (data : Bytes) : Except String V2Message :=
  if data.length < 1 then
    .error s!"File tree request too short: {data.length} bytes (expected at least 1)"
  else if data.head? ≠ some MESSAGE_ID_FILE_TREE_REQUEST then
    .error s!"Invalid message ID: {data.headD 0} (expected {MESSAGE_ID_FILE_TREE_REQUEST})"
  else .ok .FileTreeRequest

end FileTreeRequest

namespace FileTreeResponse

def deserialize (data : Bytes) : Except String V2Message :=
  if data.length < 1 then
    .error s!"File tree response too short: {data.length} bytes (expected at least 1)"
  else if data.head? ≠ some MESSAGE_ID_FILE_TREE_RESPONSE then
    .error s!"Invalid message ID: {data.headD 0} (expected {MESSAGE_ID_FILE_TREE_RESPONSE})"
  else if h : data.drop 1 ≠ [] then .ok (.FileTreeResponse (data.drop 1) h)
  else .error "File tree data is empty"

end FileTreeResponse

end BittorrentV2

end Ccbt
