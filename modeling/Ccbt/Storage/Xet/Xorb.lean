import Ccbt.Storage.Xet.Shard

/-!
# Xorbs

`Xorb` of `ccbt/storage/xet_xorb.py`: chunks that are stored together, each with its hash, and the
binary format they are stored in. Chunks are compressed with LZ4 where that is installed, asked for
and of use.
-/

namespace Ccbt.Xet

open Python Framing

abbrev MAX_XORB_SIZE : Nat := 64 * 1024 * 1024
abbrev XORB_VERSION : UInt8 := 1
abbrev XORB_HEADER_SIZE : Nat := 16
abbrev FLAG_COMPRESSED : UInt8 := 0x01

def XORB_MAGIC : Bytes := [0x31, 0x75, 0x68, 0x24]

/-- The module `lz4.frame`: `compress` with the arguments that are given to it, `none` where it
raises, and `decompress`, or the text of what it raises. -/
structure Lz4Frame where
  compress : Bytes → Option Bytes
  decompress : Bytes → Except String Bytes

/-- What is compressed is decompressed again, and a frame is never empty: it begins with a magic
number. -/
structure Lz4Frame.Lawful (z : Lz4Frame) : Prop where
  decompress_compress : ∀ data frame, z.compress data = some frame → z.decompress frame = .ok data
  compress_ne_nil : ∀ data, z.compress data ≠ some []

def hex (data : Bytes) : String :=
  String.ofList (data.flatMap fun b =>
    [PyObj.hexDigit (b.toNat / 16), PyObj.hexDigit (b.toNat % 16)])

/-- A xorb that has been built through `add_chunk`. -/
structure Xorb where
  chunks : List (Bytes × Bytes)
  total_size : Nat
  hash_length : ∀ chunk ∈ chunks, chunk.1.length = 32
  total_size_eq : total_size = (chunks.map fun chunk => chunk.2.length).sum
  total_size_le : total_size ≤ MAX_XORB_SIZE

namespace Xorb

def new : Xorb := ⟨[], 0, by simp, rfl, Nat.zero_le _⟩

/-- `add_chunk`: the xorb behind it and what it returns. -/
def addChunk (xorb : Xorb) (chunk_hash chunk_data : Bytes) : Except FormatError (Xorb × Bool) :=
  if hsize : xorb.total_size + chunk_data.length > MAX_XORB_SIZE then .ok (xorb, false)
  else if hhash : chunk_hash.length ≠ 32 then
    let n := chunk_hash.length
    .error (.value s!"Chunk hash must be 32 bytes, got {n}")
  else .ok ({
    chunks := xorb.chunks ++ [(chunk_hash, chunk_data)]
    total_size := xorb.total_size + chunk_data.length
    hash_length := by
      intro chunk hchunk
      obtain hchunk | hchunk := List.mem_append.mp hchunk
      · exact xorb.hash_length chunk hchunk
      · rw [List.mem_singleton.mp hchunk]
        exact not_not.mp hhash
    total_size_eq := by simp [xorb.total_size_eq]
    total_size_le := by omega }, true)

-- the module, if it is installed
variable (lz4 : Option Lz4Frame)

section Serialize

variable (xorb : Xorb) (compress : Bool)

def serializeHeader : Bytes :=
  let flags : UInt8 := if compress ∧ lz4.isSome then FLAG_COMPRESSED else 0x00
  XORB_MAGIC ++ [XORB_VERSION] ++ [flags] ++ List.replicate 10 0

/-- The compressed size and the data that are written for a chunk: the data themselves and zero
when they are not compressed. -/
def compressChunk (chunk_data : Bytes) : Nat × Bytes :=
  match lz4 with
  | some z =>
    if compress then
      match z.compress chunk_data with
      | some compressed_data =>
        if compressed_data.length < chunk_data.length then
          (compressed_data.length, compressed_data)
        else (0, chunk_data)
      | none => (0, chunk_data)
    else (0, chunk_data)
  | none => (0, chunk_data)

def serializeChunk (chunk : Bytes × Bytes) : Except FormatError Bytes := do
  let final := compressChunk lz4 compress chunk.2
  let uncompressed_size ← packUnsigned 4 chunk.2.length
  let compressed_size ← packUnsigned 4 final.1
  return chunk.1 ++ uncompressed_size ++ compressed_size ++ final.2

def serializeChunks : Except FormatError Bytes := do
  let count ← packUnsigned 4 xorb.chunks.length
  let entries ← xorb.chunks.mapM (serializeChunk lz4 compress)
  return count ++ entries.flatten

def serialize : Except FormatError Bytes := do
  let chunk_data ← serializeChunks lz4 xorb compress
  let metadata ← packUnsigned 8 xorb.total_size
  return serializeHeader lz4 compress ++ chunk_data ++ metadata

end Serialize

section Deserialize

def tooShort (what : String) : FormatError := .value ("Xorb data too short for " ++ what)

/-- What is missing of a chunk. -/
def chunkTooShort (i : Nat) (what : String) : FormatError := tooShort s!"chunk {i} {what}"

/-- The magic octets, the version and the flags of the header are looked at. -/
def checkHeader (magic_bytes version flags : Bytes) : Except FormatError Unit :=
  if magic_bytes ≠ XORB_MAGIC then
    let got := hex magic_bytes
    .error (.value s!"Invalid xorb magic: expected 31756824, got {got}")
  else if version ≠ [XORB_VERSION] then
    let version := ofLittleEndian version
    .error (.value s!"Unsupported xorb version: {version} (expected 1)")
  else if flags.getD 0 0 &&& FLAG_COMPRESSED ≠ 0 ∧ lz4.isNone then
    .error (.value "Xorb is compressed but LZ4 is not available")
  else .ok ()

/-- The sanity check of the reader. -/
def checkCount (chunk_count : Nat) : Except FormatError Unit :=
  if chunk_count > 1000000 then
    .error (.value s!"Invalid chunk count: {chunk_count} (too large)")
  else .ok ()

/-- The data of a chunk that has been compressed. -/
def decompressChunk (z : Lz4Frame) (i uncompressed_size : Nat) (compressed_data : Bytes) :
    Except FormatError Bytes :=
  match z.decompress compressed_data with
  | .error e => .error (.value s!"Failed to decompress chunk {i}: {e}")
  | .ok chunk_data =>
    if chunk_data.length ≠ uncompressed_size then
      -- the error that is raised here is caught and raised again
      let got := chunk_data.length
      let mismatch := s!"expected {uncompressed_size}, got {got}"
      let e := s!"Chunk {i} decompressed size mismatch: {mismatch}"
      .error (.value s!"Failed to decompress chunk {i}: {e}")
    else .ok chunk_data

def readData (i uncompressed_size compressed_size : Nat) : Reader UInt8 FormatError Bytes :=
  if compressed_size > 0 then
    match lz4 with
    | none => Reader.lift (.error (.value s!"Chunk {i} is compressed but LZ4 is not available"))
    | some z => do
      let compressed_data ← Reader.items compressed_size (chunkTooShort i "compressed data")
      Reader.lift (decompressChunk z i uncompressed_size compressed_data)
  else Reader.items uncompressed_size (chunkTooShort i "data")

/-- A round of the loop over the chunks. What `add_chunk` returns is not looked at. -/
def readChunk (i : Nat) (xorb : Xorb) : Reader UInt8 FormatError Xorb := do
  let chunk_hash ← Reader.items 32 (chunkTooShort i "hash")
  let uncompressed_size ← readUnsigned 4 (chunkTooShort i "uncompressed size")
  let compressed_size ← readUnsigned 4 (chunkTooShort i "compressed size")
  let chunk_data ← readData lz4 i uncompressed_size compressed_size
  Reader.lift ((xorb.addChunk chunk_hash chunk_data).map Prod.fst)

/-- What `deserialize` does with data that are long enough for a header. A total size that does
not fit is a warning in the log. -/
def reader : Reader UInt8 FormatError Xorb := do
  let magic_bytes ← Reader.items 4 .struct
  let version ← Reader.items 1 .struct
  let flags ← Reader.items 1 .struct
  let _reserved ← Reader.items 10 .struct
  Reader.lift (checkHeader lz4 magic_bytes version flags)
  let chunk_count ← readUnsigned 4 (tooShort "chunk count")
  Reader.lift (checkCount chunk_count)
  let xorb ← Reader.loop (readChunk lz4) 0 chunk_count new
  let _total_size ← readUnsigned 8 (tooShort "metadata")
  return xorb

def deserialize (data : Bytes) : Except FormatError Xorb :=
  if data.length < XORB_HEADER_SIZE then
    let n := data.length
    .error (.value s!"Xorb data too short: {n} bytes (minimum 16)")
  else (reader lz4 data).map Prod.fst

end Deserialize

end Xorb

end Ccbt.Xet
