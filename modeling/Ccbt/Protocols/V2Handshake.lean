import Ccbt.Core.Bencode.Equality
import Ccbt.Python.BinAscii
import Ccbt.Python.StreamReader

/-!
# Handshakes of versions 1 and 2: `protocols/bittorrent_v2.py`

How handshakes are made, taken apart and read from a connection. There are three formats, of 68, 80
and 100 octets, that differ in the info hashes between the reserved octets and the peer id. The
version is told from the length of what has been read, which is 80 octets in every format.
-/

namespace Ccbt

open Python

namespace BittorrentV2

def PROTOCOL_STRING : Bytes := ascii "BitTorrent protocol"
def PROTOCOL_STRING_LEN : Nat := 19
def RESERVED_BYTES_LEN : Nat := 8
def INFO_HASH_V1_LEN : Nat := 20
def INFO_HASH_V2_LEN : Nat := 32
def PEER_ID_LEN : Nat := 20

def HANDSHAKE_V1_SIZE : Nat :=
  1 + PROTOCOL_STRING_LEN + RESERVED_BYTES_LEN + INFO_HASH_V1_LEN + PEER_ID_LEN

def HANDSHAKE_V2_SIZE : Nat :=
  1 + PROTOCOL_STRING_LEN + RESERVED_BYTES_LEN + INFO_HASH_V2_LEN + PEER_ID_LEN

inductive ProtocolVersion
  | V1
  | V2
  | HYBRID
  deriving DecidableEq

inductive HandshakeError
  | ProtocolVersionError (message : Str)
  | TimeoutError
  | ValueError (message : Str)
  deriving DecidableEq

def slice (data : Bytes) (start stop : Nat) : Bytes := (data.drop start).take (stop - start)

/-- A `ProtocolVersionError` with its message. -/
def raise {α : Type} (message : Str) : Except HandshakeError α :=
  .error (.ProtocolVersionError message)

def detectProtocolVersion (handshake : Bytes) : Except HandshakeError ProtocolVersion :=
  if handshake.length < 1 + PROTOCOL_STRING_LEN then
    raise ("Handshake too short: ".toList ++ strInt handshake.length ++ " bytes".toList)
  else
    let pstrlen := (handshake.headD 0).toNat
    if pstrlen ≠ PROTOCOL_STRING_LEN then
      raise ("Invalid protocol string length: ".toList ++ strInt pstrlen ++
        " (expected 19)".toList)
    else
      let protocol := slice handshake 1 (1 + PROTOCOL_STRING_LEN)
      if protocol ≠ PROTOCOL_STRING then
        raise ("Invalid protocol string: ".toList ++ PyObj.reprBytes protocol)
      else if handshake.length < 1 + PROTOCOL_STRING_LEN + RESERVED_BYTES_LEN then
        raise "Handshake too short for reserved bytes".toList
      else
        let has_v2_support := (handshake.getD (1 + PROTOCOL_STRING_LEN) 0) &&& 0x01 ≠ 0
        let remaining := handshake.length - (1 + PROTOCOL_STRING_LEN + RESERVED_BYTES_LEN)
        if remaining = INFO_HASH_V1_LEN + PEER_ID_LEN then
          .ok (if has_v2_support then .HYBRID else .V1)
        else if remaining = INFO_HASH_V2_LEN + PEER_ID_LEN then .ok .V2
        else if remaining = INFO_HASH_V1_LEN + INFO_HASH_V2_LEN + PEER_ID_LEN then .ok .HYBRID
        else
          raise ("Invalid handshake size: ".toList ++ strInt handshake.length ++
            " bytes (remaining: ".toList ++ strInt remaining ++ ")".toList)

/-- What `parse_v2_handshake` returns. The info hashes are those that are there. -/
structure ParsedHandshake where
  protocol : Bytes
  reserved_bytes : Bytes
  peer_id : Bytes
  version : ProtocolVersion
  info_hash_v2 : Option Bytes
  info_hash_v1 : Option Bytes
  deriving DecidableEq

def parseV2Handshake (data : Bytes) : Except HandshakeError ParsedHandshake :=
  if data.length < HANDSHAKE_V1_SIZE then
    raise ("Handshake too short: ".toList ++ strInt data.length ++ " bytes (minimum 68)".toList)
  else
    let pstrlen := (data.headD 0).toNat
    if pstrlen ≠ PROTOCOL_STRING_LEN then
      raise ("Invalid protocol string length: ".toList ++ strInt pstrlen)
    else
      let protocol := slice data 1 (1 + PROTOCOL_STRING_LEN)
      if protocol ≠ PROTOCOL_STRING then
        raise ("Invalid protocol string: ".toList ++ PyObj.reprBytes protocol)
      else
        let hash_start := 1 + PROTOCOL_STRING_LEN + RESERVED_BYTES_LEN
        let reserved_bytes := slice data (1 + PROTOCOL_STRING_LEN) hash_start
        match detectProtocolVersion data with
        | .error e => .error e
        | .ok .V2 =>
          let peer_start := hash_start + INFO_HASH_V2_LEN
          .ok {
            protocol, reserved_bytes, version := .V2
            info_hash_v2 := some (slice data hash_start peer_start)
            info_hash_v1 := none
            peer_id := slice data peer_start (peer_start + PEER_ID_LEN) }
        | .ok .HYBRID =>
          let v2_start := hash_start + INFO_HASH_V1_LEN
          let peer_start := v2_start + INFO_HASH_V2_LEN
          if peer_start + PEER_ID_LEN ≤ data.length then
            .ok {
              protocol, reserved_bytes, version := .HYBRID
              info_hash_v2 := some (slice data v2_start peer_start)
              info_hash_v1 := some (slice data hash_start v2_start)
              peer_id := slice data peer_start (peer_start + PEER_ID_LEN) }
          else
            .ok {
              protocol, reserved_bytes, version := .HYBRID
              info_hash_v2 := none
              info_hash_v1 := some (slice data hash_start v2_start)
              peer_id := slice data v2_start (v2_start + PEER_ID_LEN) }
        | .ok .V1 =>
          let peer_start := hash_start + INFO_HASH_V1_LEN
          .ok {
            protocol, reserved_bytes, version := .V1
            info_hash_v2 := none
            info_hash_v1 := some (slice data hash_start peer_start)
            peer_id := slice data peer_start (peer_start + PEER_ID_LEN) }

/-- The error of an argument that has not the right length. -/
def wrongLength {α : Type} (name : String) (expected : Nat) (value : Bytes) :
    Except HandshakeError α :=
  raise (name.toList ++ " must be ".toList ++ strInt expected ++ " bytes, got ".toList ++
    strInt value.length)

def handshakeStart (reserved_bytes : Bytes) : Bytes :=
  UInt8.ofNat PROTOCOL_STRING_LEN :: PROTOCOL_STRING ++ reserved_bytes

/-- Reserved octets with the bit for version 2. -/
def supportsV2 : Bytes := 0x01 :: List.replicate 7 0

def createV2Handshake (info_hash_v2 peer_id : Bytes) : Except HandshakeError Bytes :=
  if info_hash_v2.length ≠ INFO_HASH_V2_LEN then
    wrongLength "info_hash_v2" INFO_HASH_V2_LEN info_hash_v2
  else if peer_id.length ≠ PEER_ID_LEN then wrongLength "peer_id" PEER_ID_LEN peer_id
  else .ok (handshakeStart supportsV2 ++ info_hash_v2 ++ peer_id)

def createHybridHandshake (info_hash_v1 info_hash_v2 peer_id : Bytes) :
    Except HandshakeError Bytes :=
  if info_hash_v1.length ≠ INFO_HASH_V1_LEN then
    wrongLength "info_hash_v1" INFO_HASH_V1_LEN info_hash_v1
  else if info_hash_v2.length ≠ INFO_HASH_V2_LEN then
    wrongLength "info_hash_v2" INFO_HASH_V2_LEN info_hash_v2
  else if peer_id.length ≠ PEER_ID_LEN then wrongLength "peer_id" PEER_ID_LEN peer_id
  else .ok (handshakeStart supportsV2 ++ info_hash_v1 ++ info_hash_v2 ++ peer_id)

def mismatch {α : Type} (version : String) (expected got : Bytes) : Except HandshakeError α :=
  .error (.ValueError ("Info hash ".toList ++ version.toList ++ " mismatch: expected ".toList ++
    (hexText expected).take 16 ++ "..., got ".toList ++ (hexText got).take 16 ++ "...".toList))

/-- The checks of the info hashes, where ours are given. -/
def validateInfoHashes (handshake_data : Bytes) (parsed : ParsedHandshake)
    (our_info_hash_v2 our_info_hash_v1 : Bytes) : Except HandshakeError Unit := do
  if our_info_hash_v2 ≠ [] ∧ parsed.version ∈ [.V2, .HYBRID] then
    match parsed.info_hash_v2 with
    | some peer_info_hash_v2 =>
      if peer_info_hash_v2 ≠ our_info_hash_v2 then
        mismatch "v2" our_info_hash_v2 peer_info_hash_v2
    | none => pure ()
  if our_info_hash_v1 ≠ [] ∧ parsed.version ∈ [.V1, .HYBRID] then
    let hash_start := 1 + PROTOCOL_STRING_LEN + RESERVED_BYTES_LEN
    let peer_info_hash_v1 := parsed.info_hash_v1.getD
      (slice handshake_data hash_start (hash_start + INFO_HASH_V1_LEN))
    if peer_info_hash_v1 ≠ our_info_hash_v1 then
      mismatch "v1" our_info_hash_v1 peer_info_hash_v1

/-- The octets that `handle_v2_handshake` takes for a handshake: 80 or, where there are not so many,
another 68. -/
def readHandshake (reader : StreamReader) : Except HandshakeError Bytes × StreamReader :=
  match reader.readexactly HANDSHAKE_V2_SIZE with
  | (.data handshake_data, reader) => (.ok handshake_data, reader)
  | (.timeout, reader) => (.error .TimeoutError, reader)
  | (.incomplete _ _, reader) =>
    match reader.readexactly HANDSHAKE_V1_SIZE with
    | (.data handshake_data, reader) => (.ok handshake_data, reader)
    | (.timeout, reader) => (.error .TimeoutError, reader)
    | (.incomplete received expected, reader) =>
      (raise ("Incomplete handshake read: ".toList ++ strInt expected ++
        " bytes expected, got ".toList ++ strInt received.length), reader)

/-- `handle_v2_handshake`. An info hash of ours that is not given is the empty one. -/
def handleV2Handshake (reader : StreamReader) (our_info_hash_v2 our_info_hash_v1 : Bytes) :
    Except HandshakeError (ProtocolVersion × Bytes × ParsedHandshake) × StreamReader :=
  let (handshake_data, reader) := readHandshake reader
  (do
    let handshake_data ← handshake_data
    let parsed ← parseV2Handshake handshake_data
    validateInfoHashes handshake_data parsed our_info_hash_v2 our_info_hash_v1
    return (parsed.version, parsed.peer_id, parsed), reader)

end BittorrentV2

end Ccbt
