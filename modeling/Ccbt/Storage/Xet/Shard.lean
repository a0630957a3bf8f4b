import Ccbt.Core.Bencode.Equality
import Ccbt.Framing.Reader
import Ccbt.Python.Hashlib
import Ccbt.Python.Bytes

/-!
# Shards

`XetShard` of `ccbt/storage/xet_shard.py`: file metadata, xorb hashes and chunk hashes, and the
binary format they are stored in. A shard that is serialized with a key ends with an HMAC of what
stands before.
-/

namespace Ccbt.Xet

open Python Framing

abbrev SHARD_VERSION : UInt8 := 1
abbrev SHARD_HEADER_SIZE : Nat := 24
abbrev HMAC_SIZE : Nat := 32

def SHARD_MAGIC : Bytes := [0x53, 0x48, 0x41, 0x52]

/-- What the format handlers raise. -/
inductive FormatError where
  | value (msg : String)
  | unicodeEncode
  | unicodeDecode
  | struct
  deriving DecidableEq, Repr

/-- A `str` that may hold lone surrogates, each given by its number among the 2048. -/
abbrev WideStr := List (Char ⊕ Fin 2048)

def encodeWide (s : WideStr) : Except FormatError Bytes :=
  match s.mapM Sum.getLeft? with
  | some text => .ok (utf8Encode text)
  | none => .error .unicodeEncode

def decodeWide (data : Bytes) : Except FormatError WideStr :=
  match utf8Decode data with
  | some text => .ok (text.map .inl)
  | none => .error .unicodeDecode

/-- `struct.pack` of an unsigned integer of `k` octets. -/
def packUnsigned (k : Nat) (n : Int) : Except FormatError Bytes :=
  if 0 ≤ n ∧ n < 256 ^ k then .ok (littleEndian k n.toNat) else .error .struct

/-- The next unsigned integer of `k` octets. -/
def readUnsigned (k : Nat) (e : FormatError) : Reader UInt8 FormatError Nat := do
  let octets ← Reader.items k e
  return ofLittleEndian octets

/-- An entry of `files`. -/
structure ShardFile where
  path : WideStr
  hash : Bytes
  xorbs : List Bytes
  size : Int
  hash_length : hash.length = 32
  xorbs_length : ∀ xorb_hash ∈ xorbs, xorb_hash.length = 32

/-- A list of hashes that each stand in it once. -/
structure HashList where
  hashes : List Bytes
  length_eq : ∀ h ∈ hashes, h.length = 32
  nodup : hashes.Nodup

/-- A shard that has been built through its methods. -/
structure XetShard where
  files : List ShardFile
  xorbs : HashList
  chunks : HashList

theorem length_of_mem_nil : ∀ h ∈ ([] : List Bytes), h.length = 32 :=
  fun _ h => absurd h List.not_mem_nil

def HashList.empty : HashList := ⟨[], length_of_mem_nil, List.nodup_nil⟩

/-- The hash at the end of the list, unless it stands there already. -/
def HashList.insert (l : HashList) (h : Bytes) (hlength : h.length = 32) : HashList :=
  if hmem : h ∈ l.hashes then l
  else
    { hashes := l.hashes ++ [h]
      length_eq := by
        intro x hx
        obtain hx | hx := List.mem_append.mp hx
        · exact l.length_eq x hx
        · exact List.mem_singleton.mp hx ▸ hlength
      nodup := List.nodup_append.mpr ⟨l.nodup, List.nodup_singleton h, fun x hx y hy => by
        rw [List.mem_singleton.mp hy]
        rintro rfl
        exact hmem hx⟩ }

/-- What `add_chunk_hash` and `add_xorb_hash` do with their lists. -/
def HashList.add (l : HashList) (what : String) (h : Bytes) : Except FormatError HashList :=
  if hlength : h.length = 32 then .ok (l.insert h hlength)
  else
    let n := h.length
    .error (.value s!"{what} hash must be 32 bytes, got {n}")

namespace XetShard

def new : XetShard := ⟨[], .empty, .empty⟩

def addFileInfo (shard : XetShard) (file_path : WideStr) (file_hash : Bytes)
    (xorb_refs : List Bytes) (total_size : Int) : Except FormatError XetShard :=
  if hhash : file_hash.length = 32 then
    if hrefs : ∀ xorb_hash ∈ xorb_refs, xorb_hash.length = 32 then
      .ok { shard with files := shard.files ++ [{
        path := file_path, hash := file_hash, xorbs := xorb_refs, size := total_size
        hash_length := hhash, xorbs_length := hrefs }] }
    else
      -- the first reference of another length
      let n := ((xorb_refs.find? (fun h => h.length ≠ 32)).getD []).length
      .error (.value s!"Xorb hash must be 32 bytes, got {n}")
  else
    let n := file_hash.length
    .error (.value s!"File hash must be 32 bytes, got {n}")

def addChunkHash (shard : XetShard) (chunk_hash : Bytes) : Except FormatError XetShard := do
  let chunks ← shard.chunks.add "Chunk" chunk_hash
  return { shard with chunks }

def addXorbHash (shard : XetShard) (xorb_hash : Bytes) : Except FormatError XetShard := do
  let xorbs ← shard.xorbs.add "Xorb" xorb_hash
  return { shard with xorbs }

section Serialize

variable (shard : XetShard)

def serializeHeader (has_hmac : Bool) : Except FormatError Bytes := do
  let flags : UInt8 := if has_hmac then 0x01 else 0x00
  let file_count ← packUnsigned 4 shard.files.length
  let xorb_count ← packUnsigned 4 shard.xorbs.hashes.length
  let chunk_count ← packUnsigned 4 shard.chunks.hashes.length
  return SHARD_MAGIC ++ [SHARD_VERSION] ++ [flags] ++ [0, 0] ++ file_count ++ xorb_count ++
    chunk_count ++ [0, 0, 0, 0]

def serializeFile (file_info : ShardFile) : Except FormatError Bytes := do
  let path_bytes ← encodeWide file_info.path
  let path_len ← packUnsigned 4 path_bytes.length
  let size ← packUnsigned 8 file_info.size
  let xorb_count ← packUnsigned 4 file_info.xorbs.length
  return path_len ++ path_bytes ++ file_info.hash ++ size ++ xorb_count ++ file_info.xorbs.flatten

def serializeFileInfo : Except FormatError Bytes := do
  let entries ← shard.files.mapM serializeFile
  return entries.flatten

def serializeCasInfo : Bytes := shard.xorbs.hashes.flatten ++ shard.chunks.hashes.flatten

/-- `_serialize_footer`. An empty key is no key here. -/
def serializeFooter (hmac_key : Option Bytes) (data : Bytes) : Bytes :=
  match hmac_key with
  | some key => if key ≠ [] then hmacSha256 key data else []
  | none => []

def serialize (hmac_key : Option Bytes) : Except FormatError Bytes := do
  let header ← shard.serializeHeader hmac_key.isSome
  let file_info ← shard.serializeFileInfo
  let cas_info := shard.serializeCasInfo
  let footer := serializeFooter hmac_key (header ++ file_info ++ cas_info)
  return header ++ file_info ++ cas_info ++ footer

end Serialize

section Deserialize

def tooShort (what : String) : FormatError := .value ("Shard data too short for " ++ what)

/-- The header, as `struct.unpack("4sBB2sIII4s", ...)` gives it. -/
structure Header where
  magic : Bytes
  version : Bytes
  flags : Bytes
  file_count : Nat
  xorb_count : Nat
  chunk_count : Nat

/-- The fields of the header. That there are enough octets has been checked before. -/
def readHeader : Reader UInt8 FormatError Header := do
  let magic ← Reader.items 4 .struct
  let version ← Reader.items 1 .struct
  let flags ← Reader.items 1 .struct
  let _reserved1 ← Reader.items 2 .struct
  let file_count ← readUnsigned 4 .struct
  let xorb_count ← readUnsigned 4 .struct
  let chunk_count ← readUnsigned 4 .struct
  let _reserved2 ← Reader.items 4 .struct
  return { magic, version, flags, file_count, xorb_count, chunk_count }

/-- The magic octets and the version are looked at. -/
def checkHeader (header : Header) : Except FormatError Unit :=
  if header.magic ≠ SHARD_MAGIC then
    .error (.value ("Invalid shard magic: expected b\x27SHAR\x27, got " ++
      String.ofList (PyObj.reprBytes header.magic)))
  else if header.version ≠ [SHARD_VERSION] then
    let version := ofLittleEndian header.version
    .error (.value s!"Unsupported shard version: {version} (expected 1)")
  else .ok ()

/-- The HMAC is verified when the flag of the header is set and a key is given that is not
empty. -/
def verifyHmac (data : Bytes) (hmac_key : Option Bytes) (flags : Bytes) : Except FormatError Unit :=
  let key := hmac_key.getD []
  if flags.getD 0 0 &&& 0x01 ≠ 0 ∧ key ≠ [] then
    if data.length < HMAC_SIZE then .error (tooShort "HMAC")
    else
      let payload := data.take (data.length - HMAC_SIZE)
      let expected_hmac := data.drop (data.length - HMAC_SIZE)
      if expected_hmac = hmacSha256 key payload then .ok ()
      else .error (.value "Shard HMAC verification failed")
  else .ok ()

/-- The references of a file, each behind those before it. -/
def readXorbRefs (xorb_ref_count : Nat) : Reader UInt8 FormatError (List Bytes) :=
  Reader.loop (fun _ xorb_refs => do
    let xorb_ref ← Reader.items 32 (tooShort "xorb ref")
    return xorb_refs ++ [xorb_ref]) 0 xorb_ref_count []

/-- A round of the loop over the files. -/
def readFile (shard : XetShard) : Reader UInt8 FormatError XetShard := do
  let path_len ← readUnsigned 4 (tooShort "path length")
  let path ← Reader.items path_len (tooShort "path")
  let file_path ← Reader.lift (decodeWide path)
  let file_hash ← Reader.items 32 (tooShort "file hash")
  let file_size ← readUnsigned 8 (tooShort "file size")
  let xorb_ref_count ← readUnsigned 4 (tooShort "xorb count")
  let xorb_refs ← readXorbRefs xorb_ref_count
  Reader.lift (shard.addFileInfo file_path file_hash xorb_refs file_size)

/-- A round of the loop over the xorb hashes. -/
def readXorbHash (shard : XetShard) : Reader UInt8 FormatError XetShard := do
  let xorb_hash ← Reader.items 32 (tooShort "xorb hash")
  Reader.lift (shard.addXorbHash xorb_hash)

/-- A round of the loop over the chunk hashes. -/
def readChunkHash (shard : XetShard) : Reader UInt8 FormatError XetShard := do
  let chunk_hash ← Reader.items 32 (tooShort "chunk hash")
  Reader.lift (shard.addChunkHash chunk_hash)

/-- The sections behind the header. -/
def readSections (header : Header) : Reader UInt8 FormatError XetShard := do
  let shard ← Reader.loop (fun _ => readFile) 0 header.file_count new
  let shard ← Reader.loop (fun _ => readXorbHash) 0 header.xorb_count shard
  Reader.loop (fun _ => readChunkHash) 0 header.chunk_count shard

/-- What `deserialize` does with data that are long enough for a header. -/
def reader (data : Bytes) (hmac_key : Option Bytes) : Reader UInt8 FormatError XetShard := do
  let header ← readHeader
  Reader.lift (checkHeader header)
  Reader.lift (verifyHmac data hmac_key header.flags)
  readSections header

def deserialize (data : Bytes) (hmac_key : Option Bytes) : Except FormatError XetShard :=
  if data.length < SHARD_HEADER_SIZE then
    let n := data.length
    .error (.value s!"Shard data too short: {n} bytes (minimum 24)")
  else (reader data hmac_key data).map Prod.fst

end Deserialize

end XetShard

end Ccbt.Xet
