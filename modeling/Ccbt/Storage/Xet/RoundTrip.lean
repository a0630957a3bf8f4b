import Ccbt.Storage.Xet.ShardFormat
import Ccbt.Storage.Xet.Xorb
import Mathlib.Algebra.Order.BigOperators.Group.List

/-!
# Shards and xorbs are read back

A shard that can be written at all is read back as it was. A xorb is read back as long as it has no
more chunks than the reader takes; the writer has no such limit. Of data that somebody else has
written the reader keeps the chunks that fit into a xorb, whatever else is stored.
-/

namespace Ccbt.Xet

open Python Framing

/-- What the format has room for: a path that can be encoded, and sizes and counts that fit. -/
structure ShardFile.Encodable (f : ShardFile) : Prop where
  text : ∀ c ∈ f.path, c.isLeft
  path_length : ∀ path, encodeWide f.path = .ok path → path.length < 2 ^ 32
  size : 0 ≤ f.size ∧ f.size < 2 ^ 64
  refs_count : f.xorbs.length < 2 ^ 32

namespace XetShard

/-- Every file can be written, and the counts fit into the header. -/
structure Encodable (shard : XetShard) : Prop where
  files : ∀ f ∈ shard.files, f.Encodable
  file_count : shard.files.length < 2 ^ 32
  xorb_count : shard.xorbs.hashes.length < 2 ^ 32
  chunk_count : shard.chunks.hashes.length < 2 ^ 32

section Serialize

theorem serializeFile_eq_ok_iff {f : ShardFile} {word : Bytes} : serializeFile f = .ok word ↔
    ∃ path, encodeWide f.path = .ok path ∧ path.length < 256 ^ 4 ∧
      (0 ≤ f.size ∧ f.size < 256 ^ 8) ∧ f.xorbs.length < 256 ^ 4 ∧
      word = littleEndian 4 path.length ++ path ++ f.hash ++ littleEndian 8 f.size.toNat ++
        littleEndian 4 f.xorbs.length ++ f.xorbs.flatten := by
  simp only [serializeFile, bind_eq_ok_iff, packUnsigned_eq_ok_iff, pure, Except.pure,
    Except.ok.injEq, Int.toNat_natCast]
  constructor
  · rintro ⟨path, hpath, _, ⟨⟨-, hlength⟩, rfl⟩, _, ⟨hsize, rfl⟩, _, ⟨⟨-, hcount⟩, rfl⟩, rfl⟩
    exact ⟨path, hpath, by exact_mod_cast hlength, hsize, by exact_mod_cast hcount, rfl⟩
  · rintro ⟨path, hpath, hlength, hsize, hcount, rfl⟩
    exact ⟨path, hpath, _, ⟨⟨by omega, by exact_mod_cast hlength⟩, rfl⟩, _, ⟨hsize, rfl⟩, _,
      ⟨⟨by omega, by exact_mod_cast hcount⟩, rfl⟩, rfl⟩

theorem serializeFile_isOk_iff {f : ShardFile} :
    (∃ word, serializeFile f = .ok word) ↔ f.Encodable := by
  simp only [serializeFile_eq_ok_iff]
  constructor
  · rintro ⟨_, path, hpath, hlength, hsize, hcount, -⟩
    refine ⟨encodeWide_isOk_iff.mp ⟨path, hpath⟩, fun path' hpath' => ?_, hsize, hcount⟩
    rw [hpath] at hpath'
    rwa [← Except.ok.inj hpath']
  · rintro ⟨htext, hlength, hsize, hcount⟩
    obtain ⟨path, hpath⟩ := encodeWide_isOk_iff.mpr htext
    exact ⟨_, path, hpath, hlength path hpath, hsize, hcount, rfl⟩

/-- What is written for a file stands for that file. -/
theorem exists_fileWord {f : ShardFile} {word : Bytes} (h : serializeFile f = .ok word) :
    ∃ w : FileWord, w.file = f ∧ w.word = word := by
  obtain ⟨path, hpath, hlength, hsize, hcount, rfl⟩ := serializeFile_eq_ok_iff.mp h
  refine ⟨{
    path
    file_path := f.path
    hash := f.hash
    size := littleEndian 8 f.size.toNat
    xorb_refs := f.xorbs
    decodes := encodeWide_eq_ok hpath
    path_length := hlength
    hash_length := f.hash_length
    size_length := littleEndian_length 8 _
    refs_length := f.xorbs_length
    refs_count := hcount }, ?_, rfl⟩
  have hback : (ofLittleEndian (littleEndian 8 f.size.toNat) : Int) = f.size := by
    rw [ofLittleEndian_littleEndian (by omega)]
    omega
  cases f
  simp only [FileWord.file, hback]

theorem mapM_isOk_iff {α β : Type} {g : α → Except FormatError β} {xs : List α} :
    (∃ ys, xs.mapM g = .ok ys) ↔ ∀ x ∈ xs, ∃ y, g x = .ok y := by
  induction xs with
  | nil => simp [pure, Except.pure]
  | cons x xs ih =>
    simp only [List.mapM_cons, List.forall_mem_cons, ← ih, bind_eq_ok_iff]
    constructor
    · rintro ⟨_, y, hy, ys, hys, -⟩
      exact ⟨⟨y, hy⟩, ys, hys⟩
    · rintro ⟨⟨y, hy⟩, ys, hys⟩
      exact ⟨_, y, hy, ys, hys, rfl⟩

theorem exists_fileWords {files : List ShardFile} {entries : List Bytes}
    (h : files.mapM serializeFile = .ok entries) :
    ∃ ws : List FileWord, ws.map FileWord.file = files ∧ ws.map FileWord.word = entries := by
  induction files generalizing entries with
  | nil =>
    obtain rfl := Except.ok.inj h
    exact ⟨[], rfl, rfl⟩
  | cons f files ih =>
    simp only [List.mapM_cons, bind_eq_ok_iff] at h
    obtain ⟨word, hword, entries, hentries, hcons⟩ := h
    obtain rfl := Except.ok.inj hcons
    obtain ⟨w, rfl, rfl⟩ := exists_fileWord hword
    obtain ⟨ws, rfl, rfl⟩ := ih hentries
    exact ⟨w :: ws, rfl, rfl⟩

variable {shard : XetShard} {hmac_key : Option Bytes}

theorem serialize_eq_ok_iff {data : Bytes} : shard.serialize hmac_key = .ok data ↔
    shard.files.length < 256 ^ 4 ∧ shard.xorbs.hashes.length < 256 ^ 4 ∧
      shard.chunks.hashes.length < 256 ^ 4 ∧
      ∃ entries, shard.files.mapM serializeFile = .ok entries ∧
        ∃ body, body = SHARD_MAGIC ++ [SHARD_VERSION] ++
            [if hmac_key.isSome then (0x01 : UInt8) else 0x00] ++ [0, 0] ++
            littleEndian 4 shard.files.length ++ littleEndian 4 shard.xorbs.hashes.length ++
            littleEndian 4 shard.chunks.hashes.length ++ [0, 0, 0, 0] ++ entries.flatten ++
            shard.serializeCasInfo ∧
          data = body ++ serializeFooter hmac_key body := by
  simp only [serialize, serializeHeader, serializeFileInfo, bind_eq_ok_iff, packUnsigned_eq_ok_iff,
    pure, Except.pure, Except.ok.injEq, Int.toNat_natCast]
  constructor
  · rintro ⟨_, ⟨_, ⟨⟨-, hfiles⟩, rfl⟩, _, ⟨⟨-, hxorbs⟩, rfl⟩, _, ⟨⟨-, hchunks⟩, rfl⟩, rfl⟩, _,
      ⟨entries, hentries, rfl⟩, rfl⟩
    exact ⟨by exact_mod_cast hfiles, by exact_mod_cast hxorbs, by exact_mod_cast hchunks, entries,
      hentries, _, rfl, rfl⟩
  · rintro ⟨hfiles, hxorbs, hchunks, entries, hentries, _, rfl, rfl⟩
    exact ⟨_, ⟨_, ⟨⟨by omega, by exact_mod_cast hfiles⟩, rfl⟩, _,
      ⟨⟨by omega, by exact_mod_cast hxorbs⟩, rfl⟩, _,
      ⟨⟨by omega, by exact_mod_cast hchunks⟩, rfl⟩, rfl⟩, _, ⟨entries, hentries, rfl⟩, rfl⟩

/-- What is written begins with the shard, and the footer passes its own check. -/
theorem exists_shardWord {data : Bytes} (h : shard.serialize hmac_key = .ok data) :
    ∃ (w : ShardWord) (footer : Bytes), w.shard = shard ∧ data = w.word ++ footer ∧
      verifyHmac data hmac_key w.flags = .ok () := by
  obtain ⟨hfiles, hxorbs, hchunks, entries, hentries, body, hbody, rfl⟩ :=
    serialize_eq_ok_iff.mp h
  obtain ⟨ws, hws, rfl⟩ := exists_fileWords hentries
  have hcount : ws.length = shard.files.length := by rw [← hws, List.length_map]
  let w : ShardWord := {
    flags := [if hmac_key.isSome then 0x01 else 0x00]
    reserved1 := [0, 0]
    reserved2 := [0, 0, 0, 0]
    files := ws
    xorbs := digests shard.xorbs
    chunks := digests shard.chunks
    flags_length := rfl
    reserved1_length := rfl
    reserved2_length := rfl
    file_count := hcount ▸ hfiles
    xorb_count := by rwa [← List.length_map Subtype.val, digests_map]
    chunk_count := by rwa [← List.length_map Subtype.val, digests_map] }
  have hxorb_count : w.xorbs.length = shard.xorbs.hashes.length := by
    rw [← digests_map shard.xorbs, List.length_map]
  have hchunk_count : w.chunks.length = shard.chunks.hashes.length := by
    rw [← digests_map shard.chunks, List.length_map]
  have hword : body = w.word := by
    have hhashes : shard.serializeCasInfo =
        w.xorbs.flatMap Subtype.val ++ w.chunks.flatMap Subtype.val := by
      rw [serializeCasInfo, List.flatMap_def, List.flatMap_def, digests_map, digests_map]
    rw [hbody, hhashes, ShardWord.word, ShardWord.headerWord, ShardWord.sectionsWord, hxorb_count,
      hchunk_count, ← hcount]
    simp only [w, List.flatMap_def, List.append_assoc]
  have hshard : w.shard = shard := by
    simp only [ShardWord.shard, w, hws, insertAll_digests]
  refine ⟨w, serializeFooter hmac_key body, hshard, by rw [hword], ?_⟩
  cases hmac_key with
  | none => simp [verifyHmac]
  | some key =>
    by_cases hkey : key = []
    · simp [verifyHmac, hkey]
    · refine (verifyHmac_eq_ok_iff hkey).mpr fun _ => ?_
      have hfooter : serializeFooter (some key) body = hmacSha256 key body := if_pos hkey
      rw [hfooter]
      exact (authentic_append (length_hmacSha256 key body)).mpr rfl

/-- A shard is read back exactly when it can be written. -/
theorem roundTrip_iff (shard : XetShard) (hmac_key : Option Bytes) :
    (∃ data, shard.serialize hmac_key = .ok data ∧ deserialize data hmac_key = .ok shard) ↔
      shard.Encodable := by
  constructor
  · rintro ⟨data, h, -⟩
    obtain ⟨hfiles, hxorbs, hchunks, entries, hentries, -⟩ := serialize_eq_ok_iff.mp h
    refine ⟨fun f hf => ?_, hfiles, hxorbs, hchunks⟩
    exact serializeFile_isOk_iff.mp (mapM_isOk_iff.mp ⟨entries, hentries⟩ f hf)
  · intro h
    obtain ⟨entries, hentries⟩ := mapM_isOk_iff.mpr fun f hf =>
      serializeFile_isOk_iff.mpr (h.files f hf)
    have hdata := (serialize_eq_ok_iff : shard.serialize hmac_key = _ ↔ _).mpr
      ⟨h.file_count, h.xorb_count, h.chunk_count, entries, hentries, _, rfl, rfl⟩
    obtain ⟨w, footer, hshard, hword, hverify⟩ := exists_shardWord hdata
    refine ⟨_, hdata, ?_⟩
    rw [hword] at hverify ⊢
    rw [w.deserialize_eq hverify, hshard]

end Serialize

end XetShard

namespace Xorb

/-- An entry of the data: the hash of a chunk, its two sizes and what is written for it, which is
the chunk itself or, with a size that is not zero, a frame of it. -/
structure Entry (lz4 : Option Lz4Frame) where
  chunk_hash : Bytes
  uncompressed_size : Bytes
  compressed_size : Bytes
  final_data : Bytes
  chunk_data : Bytes
  hash_length : chunk_hash.length = 32
  uncompressed_length : uncompressed_size.length = 4
  compressed_length : compressed_size.length = 4
  data_length : ofLittleEndian uncompressed_size = chunk_data.length
  data : ofLittleEndian compressed_size = 0 ∧ final_data = chunk_data ∨
    0 < ofLittleEndian compressed_size ∧ ofLittleEndian compressed_size = final_data.length ∧
      ∃ z ∈ lz4, z.decompress final_data = .ok chunk_data

namespace Entry

variable {lz4 : Option Lz4Frame}

def word (entry : Entry lz4) : Bytes :=
  entry.chunk_hash ++ entry.uncompressed_size ++ entry.compressed_size ++ entry.final_data

def chunk (entry : Entry lz4) : Bytes × Bytes := (entry.chunk_hash, entry.chunk_data)

end Entry

theorem decompressChunk_eq_ok_iff {z : Lz4Frame} {i n : Nat} {frame data : Bytes} :
    decompressChunk z i n frame = .ok data ↔ z.decompress frame = .ok data ∧ data.length = n := by
  rw [decompressChunk]
  cases z.decompress frame with
  | error e => exact iff_of_false (fun h => by cases h) fun h => by cases h.1
  | ok data' =>
    simp only [ne_eq, ite_not]
    split
    · next h =>
      constructor
      · rintro ⟨⟩
        exact ⟨rfl, h⟩
      · rintro ⟨⟨⟩, -⟩
        rfl
    · next h =>
      refine iff_of_false (fun hdata => by cases hdata) ?_
      rintro ⟨⟨⟩, hlength⟩
      exact h hlength

/-- The reader takes the data of an entry. -/
theorem Entry.reads_readData {lz4 : Option Lz4Frame} (entry : Entry lz4) (i : Nat) :
    (readData lz4 i entry.chunk_data.length (ofLittleEndian entry.compressed_size)).Reads
      entry.final_data entry.chunk_data := by
  obtain ⟨hsize, hdata⟩ | ⟨hpos, hsize, z, rfl, hdata⟩ := entry.data
  · unfold readData
    rw [hsize, if_neg (Nat.lt_irrefl 0), hdata]
    exact Reader.reads_items rfl _
  · have hback := decompressChunk_eq_ok_iff (i := i).mpr ⟨hdata, rfl⟩
    unfold readData
    rw [if_pos hpos]
    exact (Reader.reads_items hsize.symm _).bind_end (Reader.reads_lift hback)

/-- What the reader takes for a chunk are the data of an entry. -/
theorem sound_readData (lz4 : Option Lz4Frame) (i n size : Nat) :
    (readData lz4 i n size).Sound fun final_data chunk_data =>
      n = chunk_data.length ∧ (size = 0 ∧ final_data = chunk_data ∨
        0 < size ∧ size = final_data.length ∧
          ∃ z ∈ lz4, z.decompress final_data = .ok chunk_data) := by
  unfold readData
  split
  · next hpos =>
    cases lz4 with
    | none =>
      refine (Reader.sound_lift _).mono ?_
      rintro _ _ ⟨-, ⟨⟩⟩
    | some z =>
      refine ((Reader.sound_items _ _).bind fun _ => Reader.sound_lift _).mono ?_
      rintro _ chunk_data ⟨_, _, final_data, rfl, ⟨hlength, rfl⟩, rfl, hdata⟩
      obtain ⟨hframe, rfl⟩ := decompressChunk_eq_ok_iff.mp hdata
      rw [List.append_nil]
      exact ⟨rfl, .inr ⟨hpos, hlength.symm, z, rfl, hframe⟩⟩
  · next hpos =>
    refine (Reader.sound_items _ _).mono ?_
    rintro _ _ ⟨rfl, rfl⟩
    exact ⟨rfl, .inl ⟨Nat.eq_zero_of_not_pos hpos, rfl⟩⟩

variable (lz4 : Option Lz4Frame) (compress : Bool)

/-- A chunk as it stands in the data. -/
def chunkWord (chunk : Bytes × Bytes) : Bytes :=
  chunk.1 ++ littleEndian 4 chunk.2.length ++
    littleEndian 4 (compressChunk lz4 compress chunk.2).1 ++ (compressChunk lz4 compress chunk.2).2

/-- Data are written as they are, or as a shorter frame with its length. -/
theorem compressChunk_cases (data : Bytes) :
    compressChunk lz4 compress data = (0, data) ∨
      ∃ z frame, lz4 = some z ∧ z.compress data = some frame ∧ frame.length < data.length ∧
        compressChunk lz4 compress data = (frame.length, frame) := by
  unfold compressChunk
  split
  · next z =>
    split
    · split
      · next frame hframe =>
        split
        · next hlt => exact .inr ⟨z, frame, rfl, hframe, hlt, rfl⟩
        · exact .inl rfl
      · exact .inl rfl
    · exact .inl rfl
  · exact .inl rfl

theorem compressChunk_le (data : Bytes) :
    (compressChunk lz4 compress data).1 ≤ data.length := by
  obtain h | ⟨_, _, _, _, hlt, h⟩ := compressChunk_cases lz4 compress data
  · rw [h]
    exact Nat.zero_le _
  · rw [h]
    exact Nat.le_of_lt hlt

variable {lz4}

/-- The xorb behind `add_chunk`. -/
def afterAdd (xorb : Xorb) (chunk : Bytes × Bytes) : Xorb :=
  match xorb.addChunk chunk.1 chunk.2 with
  | .ok (xorb, _) => xorb
  | .error _ => xorb

theorem addChunk_eq_ok (xorb : Xorb) (chunk : Bytes × Bytes) (h : chunk.1.length = 32) :
    (xorb.addChunk chunk.1 chunk.2).map Prod.fst = .ok (xorb.afterAdd chunk) := by
  rw [afterAdd, addChunk]
  split
  · rfl
  · rw [dif_neg (not_not_intro h)]
    rfl

/-- A chunk for which there is room comes behind the others. -/
theorem afterAdd_chunks (xorb : Xorb) {chunk : Bytes × Bytes} (h : chunk.1.length = 32)
    (hsize : xorb.total_size + chunk.2.length ≤ MAX_XORB_SIZE) :
    (xorb.afterAdd chunk).chunks = xorb.chunks ++ [chunk] := by
  rw [afterAdd, addChunk, dif_neg (Nat.not_lt.mpr hsize), dif_neg (not_not_intro h)]

theorem eq_of_chunks_eq {x y : Xorb} (h : x.chunks = y.chunks) : x = y := by
  have htotal : x.total_size = y.total_size := by rw [x.total_size_eq, y.total_size_eq, h]
  cases x
  cases y
  simp_all

theorem foldl_afterAdd_chunks {chunks : List (Bytes × Bytes)} {xorb : Xorb}
    (h : ∀ chunk ∈ chunks, chunk.1.length = 32)
    (hsize : xorb.total_size + (chunks.map fun chunk => chunk.2.length).sum ≤ MAX_XORB_SIZE) :
    (chunks.foldl afterAdd xorb).chunks = xorb.chunks ++ chunks := by
  induction chunks generalizing xorb with
  | nil => simp
  | cons chunk chunks ih =>
    rw [List.map_cons, List.sum_cons] at hsize
    have hadd := afterAdd_chunks xorb (h chunk List.mem_cons_self) (by omega)
    have htotal : (xorb.afterAdd chunk).total_size = xorb.total_size + chunk.2.length := by
      rw [(xorb.afterAdd chunk).total_size_eq, hadd, xorb.total_size_eq]
      simp
    rw [List.foldl_cons, ih (fun c hc => h c (List.mem_cons_of_mem _ hc)) (by omega), hadd,
      List.append_assoc, List.singleton_append]

/-- Adding the chunks of a xorb one after the other gives the xorb. -/
theorem foldl_afterAdd (x : Xorb) : x.chunks.foldl afterAdd new = x := by
  apply eq_of_chunks_eq
  have hsize := x.total_size_le
  rw [x.total_size_eq] at hsize
  have hnew : new.total_size = 0 := rfl
  exact foldl_afterAdd_chunks x.hash_length (by omega)

theorem length_le_total_size {x : Xorb} {chunk : Bytes × Bytes} (h : chunk ∈ x.chunks) :
    chunk.2.length < 256 ^ 4 := by
  have hmem : chunk.2.length ∈ x.chunks.map fun chunk => chunk.2.length :=
    List.mem_map_of_mem h
  have hle := List.single_le_sum (fun _ _ => Nat.zero_le _) _ hmem
  have htotal := x.total_size_le
  have heq := x.total_size_eq
  have hmax : MAX_XORB_SIZE < 256 ^ 4 := by decide
  omega

/-- What is written for a chunk is an entry with that chunk. -/
theorem exists_entry (hlz4 : ∀ z ∈ lz4, z.Lawful) {chunk : Bytes × Bytes}
    (h : chunk.1.length = 32) (hlength : chunk.2.length < 256 ^ 4) :
    ∃ entry : Entry lz4, entry.word = chunkWord lz4 compress chunk ∧ entry.chunk = chunk := by
  have hsize := Nat.lt_of_le_of_lt (compressChunk_le lz4 compress chunk.2) hlength
  have hdata : (compressChunk lz4 compress chunk.2).1 = 0 ∧
        (compressChunk lz4 compress chunk.2).2 = chunk.2 ∨
      0 < (compressChunk lz4 compress chunk.2).1 ∧ (compressChunk lz4 compress chunk.2).1 =
        (compressChunk lz4 compress chunk.2).2.length ∧
        ∃ z ∈ lz4, z.decompress (compressChunk lz4 compress chunk.2).2 = .ok chunk.2 := by
    obtain hplain | ⟨z, frame, rfl, hframe, -, hcompressed⟩ :=
      compressChunk_cases lz4 compress chunk.2
    · rw [hplain]
      exact .inl ⟨rfl, rfl⟩
    · have hz : z.Lawful := hlz4 z rfl
      have hpos : 0 < frame.length := List.length_pos_of_ne_nil fun hnil =>
        hz.compress_ne_nil chunk.2 (hnil ▸ hframe)
      rw [hcompressed]
      exact .inr ⟨hpos, rfl, z, rfl, hz.decompress_compress _ _ hframe⟩
  exact ⟨{
    chunk_hash := chunk.1
    uncompressed_size := littleEndian 4 chunk.2.length
    compressed_size := littleEndian 4 (compressChunk lz4 compress chunk.2).1
    final_data := (compressChunk lz4 compress chunk.2).2
    chunk_data := chunk.2
    hash_length := h
    uncompressed_length := littleEndian_length 4 _
    compressed_length := littleEndian_length 4 _
    data_length := ofLittleEndian_littleEndian hlength
    data := by rwa [ofLittleEndian_littleEndian hsize] }, rfl, rfl⟩

/-- A round takes an entry and adds its chunk. -/
theorem Entry.reads (entry : Entry lz4) (i : Nat) (xorb : Xorb) :
    (readChunk lz4 i xorb).Reads entry.word (xorb.afterAdd entry.chunk) := by
  rw [Entry.word]
  simp only [List.append_assoc]
  refine (Reader.reads_items entry.hash_length _).bind ?_
  refine (reads_octets entry.uncompressed_length).bind ?_
  refine (reads_octets entry.compressed_length).bind ?_
  rw [entry.data_length]
  exact (entry.reads_readData i).bind_end
    (Reader.reads_lift (xorb.addChunk_eq_ok entry.chunk entry.hash_length))

theorem reads_readChunk (hlz4 : ∀ z ∈ lz4, z.Lawful) {chunk : Bytes × Bytes}
    (h : chunk.1.length = 32) (hlength : chunk.2.length < 256 ^ 4) (i : Nat) (xorb : Xorb) :
    (readChunk lz4 i xorb).Reads (chunkWord lz4 compress chunk) (xorb.afterAdd chunk) := by
  obtain ⟨entry, hword, rfl⟩ := exists_entry compress hlz4 h hlength
  rw [← hword]
  exact entry.reads i xorb

/-- What a round takes is an entry, and its chunk is what is added. -/
theorem sound_readChunk (lz4 : Option Lz4Frame) (i : Nat) (xorb : Xorb) :
    (readChunk lz4 i xorb).Sound fun word xorb' =>
      ∃ entry : Entry lz4, word = entry.word ∧ xorb' = xorb.afterAdd entry.chunk := by
  refine ((Reader.sound_items 32 _).bind
    fun _ => ((Reader.sound_items 4 _).map ofLittleEndian).bind
    fun _ => ((Reader.sound_items 4 _).map ofLittleEndian).bind
    fun _ => (sound_readData lz4 i _ _).bind
    fun _ => Reader.sound_lift _).mono ?_
  rintro _ _ ⟨_, _, chunk_hash, rfl, ⟨hhash, rfl⟩, _, _, _, rfl,
    ⟨uncompressed_size, ⟨hsize, rfl⟩, rfl⟩, _, _, _, rfl,
    ⟨compressed_size, ⟨hcompressed, rfl⟩, rfl⟩, final_data, _, chunk_data, rfl, ⟨hlength, hdata⟩,
    rfl, hadd⟩
  refine ⟨{
    chunk_hash
    uncompressed_size
    compressed_size
    final_data
    chunk_data
    hash_length := hhash
    uncompressed_length := hsize
    compressed_length := hcompressed
    data_length := hlength
    data := hdata }, ?_, ?_⟩
  · simp only [Entry.word, List.append_assoc, List.append_nil]
  · rw [xorb.addChunk_eq_ok (chunk_hash, chunk_data) hhash] at hadd
    exact (Except.ok.inj hadd).symm

variable {compress}

/-- The header, the count and the chunks; the total size comes behind them. -/
def xorbWord (lz4 : Option Lz4Frame) (compress : Bool) (x : Xorb) : Bytes :=
  serializeHeader lz4 compress ++ littleEndian 4 x.chunks.length ++
    x.chunks.flatMap (chunkWord lz4 compress)

theorem serialize_eq_ok_iff {x : Xorb} {data : Bytes} : x.serialize lz4 compress = .ok data ↔
    x.chunks.length < 256 ^ 4 ∧
      data = xorbWord lz4 compress x ++ littleEndian 8 x.total_size := by
  have hentries : x.chunks.mapM (serializeChunk lz4 compress) =
      .ok (x.chunks.map (chunkWord lz4 compress)) := by
    have hall : ∀ chunks : List (Bytes × Bytes), (∀ chunk ∈ chunks, chunk.2.length < 256 ^ 4) →
        chunks.mapM (serializeChunk lz4 compress) = .ok (chunks.map (chunkWord lz4 compress)) := by
      intro chunks hchunks
      induction chunks with
      | nil => rfl
      | cons chunk chunks ih =>
        have hlength := hchunks chunk List.mem_cons_self
        have hsize := compressChunk_le lz4 compress chunk.2
        have hone : serializeChunk lz4 compress chunk = .ok (chunkWord lz4 compress chunk) := by
          simp only [serializeChunk, bind_eq_ok_iff, packUnsigned_eq_ok_iff]
          exact ⟨_, ⟨⟨by omega, by exact_mod_cast hlength⟩, rfl⟩, _,
            ⟨⟨by omega, by exact_mod_cast Nat.lt_of_le_of_lt hsize hlength⟩, rfl⟩, rfl⟩
        rw [List.mapM_cons, hone, ih fun c hc => hchunks c (List.mem_cons_of_mem _ hc)]
        rfl
    exact hall x.chunks fun _ => length_le_total_size
  have hmax : MAX_XORB_SIZE < 256 ^ 8 := by decide
  have htotal := x.total_size_le
  simp only [serialize, serializeChunks, hentries, bind_eq_ok_iff, packUnsigned_eq_ok_iff, pure,
    Except.pure, Except.ok.injEq, Int.toNat_natCast, xorbWord, List.flatMap_def]
  constructor
  · rintro ⟨_, ⟨_, ⟨⟨-, hcount⟩, rfl⟩, _, rfl, rfl⟩, _, ⟨-, rfl⟩, rfl⟩
    exact ⟨by exact_mod_cast hcount, by simp only [List.append_assoc]⟩
  · rintro ⟨hcount, rfl⟩
    exact ⟨_, ⟨_, ⟨⟨by omega, by exact_mod_cast hcount⟩, rfl⟩, _, rfl, rfl⟩, _,
      ⟨⟨by omega, by exact_mod_cast Nat.lt_of_le_of_lt htotal hmax⟩, rfl⟩,
      by simp only [List.append_assoc]⟩

/-- What is read behind the header. -/
def readBehindHeader (lz4 : Option Lz4Frame) : Reader UInt8 FormatError Xorb := do
  let chunk_count ← readUnsigned 4 (tooShort "chunk count")
  Reader.lift (checkCount chunk_count)
  let xorb ← Reader.loop (readChunk lz4) 0 chunk_count new
  let _total_size ← readUnsigned 8 (tooShort "metadata")
  return xorb

theorem reader_append {magic_bytes version flags reserved : Bytes}
    (hmagic : magic_bytes.length = 4) (hversion : version.length = 1) (hflags : flags.length = 1)
    (hreserved : reserved.length = 10) (rest : Bytes) :
    reader lz4 (magic_bytes ++ (version ++ (flags ++ (reserved ++ rest)))) =
      (Reader.lift (checkHeader lz4 magic_bytes version flags) >>= fun _ => readBehindHeader lz4)
        rest := by
  rw [reader, (Reader.reads_items hmagic _).bind_apply, (Reader.reads_items hversion _).bind_apply,
    (Reader.reads_items hflags _).bind_apply, (Reader.reads_items hreserved _).bind_apply]
  rfl

/-- The header that is written passes its own check, and the reader goes on to the count. -/
theorem reader_xorbWord (x : Xorb) (hcount : x.chunks.length < 256 ^ 4) (rest : Bytes) :
    reader lz4 (xorbWord lz4 compress x ++ rest) =
      (do
        Reader.lift (checkCount x.chunks.length)
        let xorb ← Reader.loop (readChunk lz4) 0 x.chunks.length new
        let _total_size ← readUnsigned 8 (tooShort "metadata")
        return xorb : Reader UInt8 FormatError Xorb)
        (x.chunks.flatMap (chunkWord lz4 compress) ++ rest) := by
  have hcheck : ∀ flags : UInt8, (flags = FLAG_COMPRESSED → lz4.isSome) →
      (flags = FLAG_COMPRESSED ∨ flags = 0x00) →
      checkHeader lz4 XORB_MAGIC [XORB_VERSION] [flags] = .ok () := by
    rintro flags hlz4 (rfl | rfl)
    · simp [checkHeader, Option.isSome_iff_ne_none.mp (hlz4 rfl)]
    · simp [checkHeader]
  have hread : ∀ flags : UInt8, checkHeader lz4 XORB_MAGIC [XORB_VERSION] [flags] = .ok () →
      ∀ rest, reader lz4 (XORB_MAGIC ++ ([XORB_VERSION] ++ ([flags] ++
        (List.replicate 10 0 ++ rest)))) = readBehindHeader lz4 rest := by
    intro flags hflags rest
    have hlift : (Reader.lift (checkHeader lz4 XORB_MAGIC [XORB_VERSION] [flags]) :
        Reader UInt8 FormatError Unit).Reads [] () := Reader.reads_lift hflags
    rw [reader_append rfl rfl rfl List.length_replicate]
    exact hlift.bind_apply rest
  rw [xorbWord, serializeHeader]
  simp only [List.append_assoc]
  split
  · next hflag =>
    rw [hread _ (hcheck FLAG_COMPRESSED (fun _ => hflag.2) (.inl rfl)), readBehindHeader,
      (reads_readUnsigned hcount).bind_apply]
  · rw [hread _ (hcheck 0x00 (fun h => by cases h) (.inr rfl)), readBehindHeader,
      (reads_readUnsigned hcount).bind_apply]

theorem deserialize_eq (hlz4 : ∀ z ∈ lz4, z.Lawful) {x : Xorb}
    (hcount : x.chunks.length ≤ 1000000) :
    deserialize lz4 (xorbWord lz4 compress x ++ littleEndian 8 x.total_size) = .ok x := by
  have hcheck : checkCount x.chunks.length = .ok () := if_neg (Nat.not_lt.mpr hcount)
  have hchunks := Reader.reads_loop x.chunks (fun i xorb chunk hchunk =>
    reads_readChunk compress hlz4 (x.hash_length chunk hchunk)
      (length_le_total_size hchunk) i xorb) 0 new
  have hlift : (Reader.lift (checkCount x.chunks.length) :
      Reader UInt8 FormatError Unit).Reads [] () := Reader.reads_lift hcheck
  rw [foldl_afterAdd] at hchunks
  rw [deserialize, if_neg]
  · rw [reader_xorbWord x (by omega), ← List.nil_append (x.chunks.flatMap _ ++ _),
      hlift.bind_apply, hchunks.bind_apply, ← List.append_nil (littleEndian 8 _),
      (reads_octets (littleEndian_length 8 _)).bind_apply]
    rfl
  · simp only [xorbWord, serializeHeader, XORB_MAGIC, XORB_HEADER_SIZE, List.length_append,
      List.length_replicate, List.length_cons, List.length_nil]
    omega

/-- The reader has a limit that the writer does not have. -/
theorem deserialize_ne_ok {x : Xorb} (hcount : 1000000 < x.chunks.length)
    (hfits : x.chunks.length < 256 ^ 4) (rest : Bytes) (y : Xorb) :
    deserialize lz4 (xorbWord lz4 compress x ++ rest) ≠ .ok y := by
  have hcheck : ∃ e, checkCount x.chunks.length = .error e := ⟨_, if_pos hcount⟩
  obtain ⟨e, hcheck⟩ := hcheck
  have hread : reader lz4 (xorbWord lz4 compress x ++ rest) = .error e := by
    rw [reader_xorbWord x hfits]
    apply Reader.bind_of_error
    rw [Reader.lift, hcheck]
    rfl
  rw [deserialize]
  split
  · exact fun h => by cases h
  · rw [hread]
    exact fun h => by cases h

/-- What is written for the xorb is read back as the xorb. -/
def RoundTrips (lz4 : Option Lz4Frame) (x : Xorb) (compress : Bool) : Prop :=
  ∃ data, x.serialize lz4 compress = .ok data ∧ deserialize lz4 data = .ok x

theorem roundTrip_iff (hlz4 : ∀ z ∈ lz4, z.Lawful) (x : Xorb) :
    x.RoundTrips lz4 compress ↔ x.chunks.length ≤ 1000000 := by
  constructor
  · rintro ⟨data, hdata, hread⟩
    obtain ⟨hfits, rfl⟩ := serialize_eq_ok_iff.mp hdata
    by_contra hcount
    exact deserialize_ne_ok (Nat.lt_of_not_le hcount) hfits _ x hread
  · intro hcount
    exact ⟨_, serialize_eq_ok_iff.mpr ⟨by omega, rfl⟩, deserialize_eq hlz4 hcount⟩

/-- As many empty chunks as the reader takes, and one more. -/
def crowdedXorb : Xorb where
  chunks := List.replicate 1000001 (List.replicate 32 0, [])
  total_size := 0
  hash_length := by
    intro chunk hchunk
    rw [(List.mem_replicate.mp hchunk).2, List.length_replicate]
  total_size_eq := by rw [List.map_replicate, List.sum_replicate, List.length_nil,
    nsmul_zero]
  total_size_le := Nat.zero_le _

theorem crowdedXorb_not_roundTrips : ¬crowdedXorb.RoundTrips none false := by
  rw [roundTrip_iff (fun _ h => by cases h), crowdedXorb, List.length_replicate]
  decide

section Stored

/-- What data begin with that hold chunks: a header that passes the check, the count, an entry for
each chunk and the total size. -/
structure Word (lz4 : Option Lz4Frame) where
  magic_bytes : Bytes
  version : Bytes
  flags : Bytes
  reserved : Bytes
  chunk_count : Bytes
  entries : List (Entry lz4)
  total_size : Bytes
  magic_length : magic_bytes.length = 4
  version_length : version.length = 1
  flags_length : flags.length = 1
  reserved_length : reserved.length = 10
  header : checkHeader lz4 magic_bytes version flags = .ok ()
  count_length : chunk_count.length = 4
  count_eq : ofLittleEndian chunk_count = entries.length
  count_le : entries.length ≤ 1000000
  total_length : total_size.length = 8

namespace Word

variable {lz4 : Option Lz4Frame} (w : Word lz4)

def word : Bytes :=
  w.magic_bytes ++ (w.version ++ (w.flags ++ (w.reserved ++ (w.chunk_count ++
    (w.entries.flatMap Entry.word ++ w.total_size)))))

/-- The chunks that are stored, in the order of their entries. -/
def stored : List (Bytes × Bytes) := w.entries.map Entry.chunk

def size : Nat := (w.stored.map fun chunk => chunk.2.length).sum

theorem length_stored : w.stored.length = ofLittleEndian w.chunk_count := by
  rw [stored, List.length_map, w.count_eq]

theorem hash_length : ∀ chunk ∈ w.stored, chunk.1.length = 32 := by
  intro chunk hchunk
  obtain ⟨entry, -, rfl⟩ := List.mem_map.mp hchunk
  exact entry.hash_length

theorem reads_readBehindHeader : (readBehindHeader lz4).Reads
    (w.chunk_count ++ (w.entries.flatMap Entry.word ++ w.total_size))
    (w.stored.foldl afterAdd new) := by
  have hcheck : checkCount w.entries.length = .ok () := if_neg (Nat.not_lt.mpr w.count_le)
  have hloop : (Reader.loop _ 0 w.entries.length new).Reads (w.entries.flatMap Entry.word)
      (w.entries.foldl (fun xorb entry => xorb.afterAdd entry.chunk) new) :=
    Reader.reads_loop w.entries (fun i xorb entry _ => entry.reads i xorb) 0 new
  refine (reads_octets w.count_length).bind ?_
  rw [w.count_eq, stored, List.foldl_map]
  refine (Reader.reads_lift hcheck).bind_nil ?_
  refine hloop.bind ?_
  exact (reads_octets w.total_length).bind_end (Reader.reads_pure _)

/-- The reader takes the word, and adds the stored chunks one after the other. -/
theorem reads : (reader lz4).Reads w.word (w.stored.foldl afterAdd new) := by
  intro rest
  have hlift : (Reader.lift (checkHeader lz4 w.magic_bytes w.version w.flags) :
      Reader UInt8 FormatError Unit).Reads [] () := Reader.reads_lift w.header
  rw [word]
  simp only [List.append_assoc]
  rw [reader_append w.magic_length w.version_length w.flags_length w.reserved_length]
  refine (hlift.bind_apply _).trans ?_
  have hreads := w.reads_readBehindHeader rest
  simp only [List.append_assoc] at hreads
  exact hreads

theorem deserialize_append (rest : Bytes) :
    deserialize lz4 (w.word ++ rest) = .ok (w.stored.foldl afterAdd new) := by
  rw [deserialize, if_neg, w.reads rest]
  · rfl
  · simp only [word, List.length_append, w.magic_length, w.version_length, w.flags_length,
      w.reserved_length, XORB_HEADER_SIZE]
    omega

/-- The chunks that are added are all there exactly when they fit into a xorb. -/
theorem foldl_afterAdd_chunks_iff :
    (w.stored.foldl afterAdd new).chunks = w.stored ↔ w.size ≤ MAX_XORB_SIZE := by
  constructor
  · intro h
    have htotal := (w.stored.foldl afterAdd new).total_size_eq
    rw [h] at htotal
    rw [size, ← htotal]
    exact (w.stored.foldl afterAdd new).total_size_le
  · intro h
    exact foldl_afterAdd_chunks w.hash_length ((Nat.zero_add _).trans_le h)

end Word

variable {lz4 : Option Lz4Frame}

/-- What the reader takes is a word. -/
theorem sound_reader : (reader lz4).Sound fun word _ => ∃ w : Word lz4, word = w.word := by
  have hround : ∀ i xorb, (readChunk lz4 i xorb).Sound fun word xorb' =>
      ∃ entry : Entry lz4, word = entry.word ∧ xorb' = xorb.afterAdd entry.chunk :=
    sound_readChunk lz4
  refine ((Reader.sound_items 4 _).bind
    fun _ => (Reader.sound_items 1 _).bind
    fun _ => (Reader.sound_items 1 _).bind
    fun _ => (Reader.sound_items 10 _).bind
    fun _ => (Reader.sound_lift _).bind
    fun _ => ((Reader.sound_items 4 _).map ofLittleEndian).bind
    fun count => (Reader.sound_lift _).bind
    fun _ => (Reader.sound_loop_foldl hround 0 count new).bind
    fun xorb => ((Reader.sound_items 8 _).map ofLittleEndian).map fun _ => xorb).mono ?_
  rintro _ _ ⟨_, _, magic_bytes, rfl, ⟨hmagic, rfl⟩, _, _, version, rfl, ⟨hversion, rfl⟩,
    _, _, flags, rfl, ⟨hflags, rfl⟩, _, _, reserved, rfl, ⟨hreserved, rfl⟩,
    _, _, _, rfl, ⟨rfl, hheader⟩, _, _, _, rfl, ⟨chunk_count, ⟨hcount, rfl⟩, rfl⟩,
    _, _, _, rfl, ⟨rfl, hcheck⟩, _, _, _, rfl, ⟨pairs, hpairs, hwords, rfl, rfl⟩,
    _, ⟨total_size, ⟨htotal, rfl⟩, rfl⟩, rfl⟩
  have hle : ofLittleEndian chunk_count ≤ 1000000 := by
    rw [checkCount] at hcheck
    split at hcheck
    · cases hcheck
    · next hle => exact Nat.le_of_not_lt hle
  refine ⟨{
    magic_bytes
    version
    flags
    reserved
    chunk_count
    entries := pairs.map Prod.snd
    total_size
    magic_length := hmagic
    version_length := hversion
    flags_length := hflags
    reserved_length := hreserved
    header := hheader
    count_length := hcount
    count_eq := by rw [List.length_map, hpairs]
    count_le := by rwa [List.length_map, hpairs]
    total_length := htotal }, ?_⟩
  have hentries : (pairs.map Prod.snd).flatMap Entry.word = pairs.flatMap Prod.fst := by
    rw [List.flatMap_map]
    exact List.flatMap_congr fun pair hpair => (hwords pair hpair).symm
  rw [Word.word, hentries]
  rfl

/-- Data are accepted exactly when they begin with a word, and the xorb is what adding the stored
chunks gives. -/
theorem deserialize_eq_ok_iff {data : Bytes} {x : Xorb} : deserialize lz4 data = .ok x ↔
    ∃ w : Word lz4, w.word <+: data ∧ x = w.stored.foldl afterAdd new := by
  constructor
  · intro h
    have hread : (reader lz4 data).map Prod.fst = .ok x := by
      rw [deserialize] at h
      split at h
      · cases h
      · exact h
    cases hreader : reader lz4 data with
    | error e =>
      rw [hreader] at hread
      cases hread
    | ok p =>
      obtain ⟨_, hdata, w, rfl⟩ := sound_reader data p.1 p.2 hreader
      have hword := w.deserialize_append p.2
      rw [← hdata, h] at hword
      exact ⟨w, ⟨p.2, hdata.symm⟩, Except.ok.inj hword⟩
  · rintro ⟨w, ⟨rest, rfl⟩, rfl⟩
    exact w.deserialize_append rest

/-- A `ValueError` with a message. -/
def IsValueError (e : FormatError) : Prop := ∃ msg, e = .value msg

theorem raises_readChunk (i : Nat) (xorb : Xorb) : (readChunk lz4 i xorb).Raises IsValueError := by
  have hdata : ∀ n size, (readData lz4 i n size).Raises IsValueError := by
    intro n size
    unfold readData
    split
    · cases lz4 with
      | none => exact Reader.raises_lift fun _ h => ⟨_, (Except.error.inj h).symm⟩
      | some z =>
        refine (Reader.raises_items _ ⟨_, rfl⟩).bind fun frame => Reader.raises_lift fun e h => ?_
        rw [decompressChunk] at h
        split at h
        · exact ⟨_, (Except.error.inj h).symm⟩
        · split at h
          · exact ⟨_, (Except.error.inj h).symm⟩
          · cases h
    · exact Reader.raises_items _ ⟨_, rfl⟩
  have hunsigned : ∀ k what, (readUnsigned k (chunkTooShort i what)).Raises IsValueError :=
    fun k what => (Reader.raises_items k ⟨_, rfl⟩).bind fun _ => Reader.raises_pure _
  refine (Reader.raises_items 32 ⟨_, rfl⟩).bind fun chunk_hash => (hunsigned 4 _).bind fun n =>
    (hunsigned 4 _).bind fun size => (hdata n size).bind fun chunk_data =>
    Reader.raises_lift fun e h => ?_
  rw [addChunk] at h
  split at h
  · cases h
  · split at h
    · exact ⟨_, (Except.error.inj h).symm⟩
    · cases h

/-- Data that are long enough begin with the fields of a header. -/
theorem exists_header {data : Bytes} (h : XORB_HEADER_SIZE ≤ data.length) :
    ∃ magic_bytes version flags reserved rest : Bytes, magic_bytes.length = 4 ∧
      version.length = 1 ∧ flags.length = 1 ∧ reserved.length = 10 ∧
      data = magic_bytes ++ (version ++ (flags ++ (reserved ++ rest))) := by
  have hlength : 16 ≤ data.length := h
  have hdrop : ∀ n k, (data.drop n).take k ++ data.drop (n + k) = data.drop n := by
    intro n k
    rw [← List.drop_drop, List.take_append_drop]
  refine ⟨data.take 4, (data.drop 4).take 1, (data.drop 5).take 1, (data.drop 6).take 10,
    data.drop 16, ?_, ?_, ?_, ?_, ?_⟩
  · rw [List.length_take]
    omega
  · rw [List.length_take, List.length_drop]
    omega
  · rw [List.length_take, List.length_drop]
    omega
  · rw [List.length_take, List.length_drop]
    omega
  · rw [hdrop 6 10, hdrop 5 1, hdrop 4 1, List.take_append_drop]

/-- The unpacking of the header cannot fail, and everything else is a `ValueError`. -/
theorem deserialize_error {data : Bytes} {e : FormatError} (h : deserialize lz4 data = .error e) :
    IsValueError e := by
  have hbehind : (readBehindHeader lz4).Raises IsValueError := by
    have hunsigned : ∀ k what, (readUnsigned k (tooShort what)).Raises IsValueError :=
      fun k what => (Reader.raises_items k ⟨_, rfl⟩).bind fun _ => Reader.raises_pure _
    refine (hunsigned 4 _).bind fun count => (Reader.raises_lift fun e h => ?_).bind fun _ =>
      (Reader.raises_loop (fun i xorb => raises_readChunk i xorb) 0 count new).bind fun xorb =>
      (hunsigned 8 _).bind fun _ => Reader.raises_pure xorb
    rw [checkCount] at h
    split at h
    · exact ⟨_, (Except.error.inj h).symm⟩
    · cases h
  have hheader : ∀ magic_bytes version flags e,
      checkHeader lz4 magic_bytes version flags = .error e → IsValueError e := by
    intro magic_bytes version flags e h
    rw [checkHeader] at h
    split_ifs at h
    all_goals exact ⟨_, (Except.error.inj h).symm⟩
  rw [deserialize] at h
  split at h
  · exact ⟨_, (Except.error.inj h).symm⟩
  · next hlength =>
    obtain ⟨magic_bytes, version, flags, reserved, rest, hmagic, hversion, hflags, hreserved,
      rfl⟩ := exists_header (Nat.le_of_not_lt hlength)
    rw [reader_append hmagic hversion hflags hreserved] at h
    cases hread : (Reader.lift (checkHeader lz4 magic_bytes version flags) >>= fun _ =>
        readBehindHeader lz4) rest with
    | error e' =>
      rw [hread] at h
      refine Except.error.inj h ▸ ?_
      exact (Reader.raises_lift (hheader magic_bytes version flags)).bind (fun _ => hbehind) rest e'
        hread
    | ok p =>
      rw [hread] at h
      cases h

variable (lz4)

/-- Nothing is dropped in silence: data are refused with a `ValueError`, or they hold chunks and
the xorb has all of these, as many as the count says, and their size. -/
def DecodesAll (data : Bytes) : Prop :=
  match deserialize lz4 data with
  | .error e => IsValueError e
  | .ok x => (∃ w : Word lz4, w.word <+: data) ∧ ∀ w : Word lz4, w.word <+: data →
      x.chunks = w.stored ∧ x.chunks.length = ofLittleEndian w.chunk_count ∧ x.total_size = w.size

variable {lz4}

theorem Word.decodesAll_append_iff (w : Word lz4) (rest : Bytes) :
    DecodesAll lz4 (w.word ++ rest) ↔
      ∀ w' : Word lz4, w'.word <+: w.word ++ rest → w'.size ≤ MAX_XORB_SIZE := by
  have hstored : ∀ w' : Word lz4, w'.word <+: w.word ++ rest →
      w'.stored.foldl afterAdd new = w.stored.foldl afterAdd new := by
    intro w' hw'
    have hdata := deserialize_eq_ok_iff.mpr ⟨w', hw', rfl⟩
    rw [w.deserialize_append rest] at hdata
    exact (Except.ok.inj hdata).symm
  rw [DecodesAll, w.deserialize_append rest]
  constructor
  · rintro ⟨-, hall⟩ w' hw'
    rw [← w'.foldl_afterAdd_chunks_iff, hstored w' hw']
    exact (hall w' hw').1
  · intro hsize
    refine ⟨⟨w, List.prefix_append _ _⟩, fun w' hw' => ?_⟩
    have hchunks := w'.foldl_afterAdd_chunks_iff.mpr (hsize w' hw')
    rw [← hstored w' hw']
    refine ⟨hchunks, by rw [hchunks, w'.length_stored], ?_⟩
    rw [Xorb.total_size_eq, hchunks, Word.size]

/-- No chunk is dropped exactly when the stored chunks fit into a xorb. -/
theorem decodesAll_iff (lz4 : Option Lz4Frame) (data : Bytes) :
    DecodesAll lz4 data ↔ ∀ w : Word lz4, w.word <+: data → w.size ≤ MAX_XORB_SIZE := by
  cases h : deserialize lz4 data with
  | error e =>
    refine iff_of_true ?_ fun w hw => ?_
    · rw [DecodesAll, h]
      exact deserialize_error h
    · rw [deserialize_eq_ok_iff.mpr ⟨w, hw, rfl⟩] at h
      cases h
  | ok x =>
    obtain ⟨w, ⟨rest, rfl⟩, -⟩ := deserialize_eq_ok_iff.mp h
    exact w.decodesAll_append_iff rest

/-- Two chunks of 40 MiB each. -/
def oversizedWord : Word none :=
  let entry (b : UInt8) : Entry none := {
    chunk_hash := List.replicate 32 b
    uncompressed_size := littleEndian 4 41943040
    compressed_size := [0, 0, 0, 0]
    final_data := List.replicate 41943040 b
    chunk_data := List.replicate 41943040 b
    hash_length := List.length_replicate
    uncompressed_length := littleEndian_length 4 _
    compressed_length := rfl
    data_length := by rw [ofLittleEndian_littleEndian (by decide), List.length_replicate]
    data := .inl ⟨by decide, rfl⟩ }
  { magic_bytes := XORB_MAGIC
    version := [XORB_VERSION]
    flags := [0]
    reserved := List.replicate 10 0
    chunk_count := [2, 0, 0, 0]
    entries := [entry 1, entry 2]
    total_size := littleEndian 8 83886080
    magic_length := rfl
    version_length := rfl
    flags_length := rfl
    reserved_length := rfl
    header := by decide
    count_length := rfl
    count_eq := by decide
    count_le := by decide
    total_length := littleEndian_length 8 _ }

theorem oversizedWord_not_decodesAll : ¬DecodesAll none oversizedWord.word := by
  rw [← List.append_nil oversizedWord.word, Word.decodesAll_append_iff]
  intro h
  have hsize : oversizedWord.size = 41943040 + 41943040 := by
    simp only [Word.size, Word.stored, oversizedWord, Entry.chunk, List.map_cons, List.map_nil,
      List.sum_cons, List.sum_nil, List.length_replicate, Nat.add_zero]
  have hle := h oversizedWord (List.prefix_append _ _)
  rw [hsize] at hle
  exact absurd hle (by decide)

end Stored

end Xorb

/-- What is written for the shard is read back as the shard. -/
def XetShard.RoundTrips (shard : XetShard) (hmac_key : Option Bytes) : Prop :=
  ∃ data, shard.serialize hmac_key = .ok data ∧ XetShard.deserialize data hmac_key = .ok shard

/-- A shard is read back exactly when the format has room for it, and a xorb exactly when it has at
most a million chunks. -/
theorem formats_roundTrip_iff {lz4 : Option Lz4Frame} (hlz4 : ∀ z ∈ lz4, z.Lawful) :
    (∀ (shard : XetShard) (hmac_key : Option Bytes),
      shard.RoundTrips hmac_key ↔ shard.Encodable) ∧
    ∀ (x : Xorb) (compress : Bool), x.RoundTrips lz4 compress ↔ x.chunks.length ≤ 1000000 :=
  ⟨XetShard.roundTrip_iff, fun x _ => Xorb.roundTrip_iff hlz4 x⟩

/-- 64 zero octets as a frame of one block: a literal, a match of 58 octets at distance one and five
literals. -/
def zerosFrame : Bytes :=
  [0x04, 0x22, 0x4D, 0x18, 0x68, 0x40, 64, 0, 0, 0, 0, 0, 0, 0, 0x5C] ++ [11, 0, 0, 0] ++
    [0x1F, 0x00, 0x01, 0x00, 0x27, 0x50, 0, 0, 0, 0, 0] ++ [0, 0, 0, 0]

/-- LZ4, as far as 64 zero octets go. -/
def zerosLz4 : Lz4Frame where
  compress data := if data = List.replicate 64 0 then some zerosFrame else none
  decompress frame :=
    if frame = zerosFrame then .ok (List.replicate 64 0) else .error "not the frame"

theorem zerosLz4_lawful : zerosLz4.Lawful where
  decompress_compress := by
    intro data frame h
    simp only [zerosLz4, Option.ite_none_right_eq_some, Option.some.injEq] at h
    obtain ⟨rfl, rfl⟩ := h
    rfl
  compress_ne_nil := by
    intro data h
    simp only [zerosLz4, Option.ite_none_right_eq_some, Option.some.injEq] at h
    exact absurd h.2 (by decide)

/-- A xorb with one chunk that is worth compressing. -/
def zerosXorb : Xorb where
  chunks := [(List.replicate 32 0, List.replicate 64 0)]
  total_size := 64
  hash_length := by simp
  total_size_eq := rfl
  total_size_le := by decide

theorem zerosXorb_roundTrips : (∀ z ∈ some zerosLz4, z.Lawful) ∧
    zerosXorb.RoundTrips (some zerosLz4) true :=
  have hlz4 : ∀ z ∈ some zerosLz4, z.Lawful := fun _ hz => Option.some.inj hz ▸ zerosLz4_lawful
  ⟨hlz4, ((formats_roundTrip_iff hlz4).2 zerosXorb true).mpr (by decide)⟩

end Ccbt.Xet
