import Ccbt.Storage.Xet.Shard

/-!
# The shard format

Which shards can be written, that what is written is read back, and what data the reader takes.
-/

namespace Ccbt.Xet

open Python Framing

theorem bind_eq_ok_iff {α β : Type} {x : Except FormatError α} {f : α → Except FormatError β}
    {b : β} : (x >>= f) = .ok b ↔ ∃ a, x = .ok a ∧ f a = .ok b := by
  cases x with
  | error e => exact iff_of_false (fun h => by cases h) fun ⟨_, h, _⟩ => by cases h
  | ok a =>
    constructor
    · exact fun h => ⟨a, rfl, h⟩
    · rintro ⟨a', ha, h⟩
      rwa [Except.ok.inj ha]

section Fields

variable {k n : Nat} {e : FormatError}

theorem packUnsigned_eq_ok_iff {n : Int} {data : Bytes} : packUnsigned k n = .ok data ↔
    (0 ≤ n ∧ n < 256 ^ k) ∧ data = littleEndian k n.toNat := by
  rw [packUnsigned]
  split
  · next h => rw [Except.ok.injEq, and_iff_right h, eq_comm]
  · next h => exact iff_of_false (fun h' => by cases h') fun h' => h h'.1

theorem reads_octets {octets : Bytes} (h : octets.length = k) :
    (readUnsigned k e).Reads octets (ofLittleEndian octets) :=
  (Reader.reads_items h e).map ofLittleEndian

theorem reads_readUnsigned (h : n < 256 ^ k) : (readUnsigned k e).Reads (littleEndian k n) n := by
  have hreads := reads_octets (e := e) (littleEndian_length k n)
  rwa [ofLittleEndian_littleEndian h] at hreads

theorem sound_readUnsigned (k : Nat) (e : FormatError) :
    (readUnsigned k e).Sound fun word n => n < 256 ^ k ∧ word = littleEndian k n := by
  refine ((Reader.sound_items k e).map ofLittleEndian).mono ?_
  rintro word n ⟨octets, ⟨rfl, rfl⟩, rfl⟩
  exact ⟨ofLittleEndian_lt octets, (littleEndian_ofLittleEndian octets).symm⟩

theorem encodeWide_eq_ok {s : WideStr} {data : Bytes} (h : encodeWide s = .ok data) :
    decodeWide data = .ok s := by
  have htext : ∀ (s : WideStr) (text : Str), s.mapM Sum.getLeft? = some text →
      s = text.map .inl := by
    intro s
    induction s with
    | nil => rintro text ⟨⟩; rfl
    | cons c s ih =>
      intro text hs
      cases c with
      | inr c => simp at hs
      | inl c =>
        rw [List.mapM_cons] at hs
        cases hrest : s.mapM Sum.getLeft? with
        | none => simp [hrest] at hs
        | some rest =>
          simp only [hrest, Sum.getLeft?_inl, Option.bind_eq_bind, Option.bind_some,
            Option.pure_def, Option.some.injEq] at hs
          rw [← hs, List.map_cons, ← ih rest hrest]
  rw [encodeWide] at h
  split at h
  · next text hs =>
    rw [← Except.ok.inj h, decodeWide, utf8Decode_utf8Encode, htext s text hs]
  · cases h

/-- A text without lone surrogates can be encoded, and no other. -/
theorem encodeWide_isOk_iff {s : WideStr} :
    (∃ data, encodeWide s = .ok data) ↔ ∀ c ∈ s, c.isLeft := by
  have hmap : (s.mapM Sum.getLeft?).isSome ↔ ∀ c ∈ s, c.isLeft := by
    induction s with
    | nil => simp
    | cons c s ih =>
      rw [List.mapM_cons, List.forall_mem_cons, ← ih]
      cases c with
      | inr c => simp
      | inl c => cases s.mapM Sum.getLeft? <;> simp
  rw [← hmap, encodeWide]
  cases s.mapM Sum.getLeft? with
  | none => simp
  | some text => simp

end Fields

namespace XetShard

section Files

/-- Reading one reference after the other. -/
theorem reads_readXorbRefs {xorb_refs : List Bytes} (h : ∀ ref ∈ xorb_refs, ref.length = 32) :
    (readXorbRefs xorb_refs.length).Reads xorb_refs.flatten xorb_refs := by
  have hround : ∀ (i : Nat) (refs : List Bytes), ∀ ref ∈ xorb_refs,
      (do
        let xorb_ref ← Reader.items 32 (tooShort "xorb ref")
        return refs ++ [xorb_ref] : Reader UInt8 FormatError (List Bytes)).Reads ref
          (refs ++ [ref]) := by
    intro _ refs ref href
    exact (Reader.reads_items (h ref href) _).map fun xorb_ref => refs ++ [xorb_ref]
  have hfold : ∀ refs : List Bytes, xorb_refs.foldl (fun refs ref => refs ++ [ref]) refs =
      refs ++ xorb_refs := by
    intro refs
    clear h hround
    induction xorb_refs generalizing refs with
    | nil => rw [List.foldl_nil, List.append_nil]
    | cons ref xorb_refs ih => rw [List.foldl_cons, ih, List.append_assoc, List.singleton_append]
  have hloop : (readXorbRefs xorb_refs.length).Reads (xorb_refs.flatMap id)
      (xorb_refs.foldl (fun refs ref => refs ++ [ref]) []) :=
    Reader.reads_loop xorb_refs hround 0 []
  rwa [hfold, List.nil_append, List.flatMap_id] at hloop

end Files

/-- A file as it stands in the data. -/
structure FileWord where
  path : Bytes
  file_path : WideStr
  hash : Bytes
  size : Bytes
  xorb_refs : List Bytes
  decodes : decodeWide path = .ok file_path
  path_length : path.length < 256 ^ 4
  hash_length : hash.length = 32
  size_length : size.length = 8
  refs_length : ∀ ref ∈ xorb_refs, ref.length = 32
  refs_count : xorb_refs.length < 256 ^ 4

namespace FileWord

variable (f : FileWord)

def word : Bytes :=
  littleEndian 4 f.path.length ++ f.path ++ f.hash ++ f.size ++
    littleEndian 4 f.xorb_refs.length ++ f.xorb_refs.flatten

def file : ShardFile where
  path := f.file_path
  hash := f.hash
  xorbs := f.xorb_refs
  size := ofLittleEndian f.size
  hash_length := f.hash_length
  xorbs_length := f.refs_length

theorem reads (shard : XetShard) :
    (readFile shard).Reads f.word { shard with files := shard.files ++ [f.file] } := by
  have hadd : shard.addFileInfo f.file_path f.hash f.xorb_refs (ofLittleEndian f.size) =
      .ok { shard with files := shard.files ++ [f.file] } := by
    rw [addFileInfo, dif_pos f.hash_length, dif_pos f.refs_length]
    rfl
  rw [word]
  simp only [List.append_assoc]
  refine (reads_readUnsigned f.path_length).bind ?_
  refine (Reader.reads_items rfl _).bind ?_
  refine (Reader.reads_lift f.decodes).bind_nil ?_
  refine (Reader.reads_items f.hash_length _).bind ?_
  refine (reads_octets f.size_length).bind ?_
  refine (reads_readUnsigned f.refs_count).bind ?_
  exact (reads_readXorbRefs f.refs_length).bind_end (Reader.reads_lift hadd)

theorem sound (shard : XetShard) :
    (readFile shard).Sound fun w _ => ∃ f : FileWord, f.word = w := by
  have hrefs : ∀ n, (readXorbRefs n).Sound fun w _ => ∃ refs : List Bytes, refs.length = n ∧
      (∀ ref ∈ refs, ref.length = 32) ∧ w = refs.flatten := by
    intro n
    refine Reader.sound_loop (fun _ refs => ?_) 0 n []
    refine ((Reader.sound_items 32 _).map fun ref => refs ++ [ref]).mono ?_
    rintro w _ ⟨_, ⟨hlength, -⟩, -⟩
    exact hlength
  refine ((sound_readUnsigned 4 _).bind fun path_len => (Reader.sound_items path_len _).bind
    fun path => (Reader.sound_lift (decodeWide path)).bind
    fun file_path => (Reader.sound_items 32 _).bind
    fun hash => (sound_readUnsigned 8 _).bind
    fun size => (sound_readUnsigned 4 _).bind
    fun n => (hrefs n).bind
    fun refs => Reader.sound_lift (shard.addFileInfo file_path hash refs size)).mono ?_
  rintro w _ ⟨_, _, path_len, rfl, ⟨hpath, rfl⟩, _, _, path, rfl, ⟨rfl, rfl⟩, _, _, file_path, rfl,
    ⟨rfl, hdecodes⟩, _, _, hash, rfl, ⟨hhash, rfl⟩, _, _, size, rfl, ⟨hsize, rfl⟩, _, _, n, rfl,
    ⟨hcount, rfl⟩, _, _, _, rfl, ⟨refs, rfl, hrefs, rfl⟩, rfl, -⟩
  refine ⟨{
    path, file_path, hash
    size := littleEndian 8 size
    xorb_refs := refs
    decodes := hdecodes
    path_length := hpath
    hash_length := hhash
    size_length := littleEndian_length 8 size
    refs_length := hrefs
    refs_count := hcount }, ?_⟩
  simp only [word, List.append_assoc, List.append_nil, List.nil_append]

end FileWord

/-- A hash of 32 octets. -/
abbrev Digest := { h : Bytes // h.length = 32 }

section Hashes

variable (shard : XetShard)

/-- All hashes in the list, those that stand in it already left out. -/
def insertAll (l : HashList) (hs : List Digest) : HashList :=
  hs.foldl (fun l h => l.insert h.1 h.2) l

theorem insertAll_hashes {l : HashList} {hs : List Digest}
    (h : (l.hashes ++ hs.map Subtype.val).Nodup) :
    (insertAll l hs).hashes = l.hashes ++ hs.map Subtype.val := by
  induction hs generalizing l with
  | nil => simp [insertAll]
  | cons d hs ih =>
    have hmem : d.1 ∉ l.hashes := fun hin =>
      (List.nodup_append.mp h).2.2 _ hin d.1 (List.mem_cons_self ..) rfl
    have hinsert : (l.insert d.1 d.2).hashes = l.hashes ++ [d.1] := by
      rw [HashList.insert, dif_neg hmem]
    have hrest := ih (l := l.insert d.1 d.2) (by simpa [hinsert] using h)
    simpa [insertAll, hinsert] using hrest

def digests (l : HashList) : List Digest := l.hashes.attachWith _ l.length_eq

theorem digests_map (l : HashList) : (digests l).map Subtype.val = l.hashes := by
  rw [digests, List.attachWith_map_subtype_val]

theorem insertAll_digests (l : HashList) : insertAll .empty (digests l) = l := by
  have hhashes : (insertAll .empty (digests l)).hashes = l.hashes := by
    rw [insertAll_hashes, digests_map]
    · rfl
    · rw [digests_map]
      exact l.nodup
  cases l
  cases h : insertAll .empty _
  simpa [h] using hhashes

theorem addXorbHash_eq (h : Digest) :
    shard.addXorbHash h.1 = .ok { shard with xorbs := shard.xorbs.insert h.1 h.2 } := by
  rw [addXorbHash, HashList.add, dif_pos h.2]
  rfl

theorem addChunkHash_eq (h : Digest) :
    shard.addChunkHash h.1 = .ok { shard with chunks := shard.chunks.insert h.1 h.2 } := by
  rw [addChunkHash, HashList.add, dif_pos h.2]
  rfl

theorem reads_readXorbHash (h : Digest) :
    (readXorbHash shard).Reads h.1 { shard with xorbs := shard.xorbs.insert h.1 h.2 } :=
  (Reader.reads_items h.2 _).bind_end (Reader.reads_lift (addXorbHash_eq shard h))

theorem reads_readChunkHash (h : Digest) :
    (readChunkHash shard).Reads h.1 { shard with chunks := shard.chunks.insert h.1 h.2 } :=
  (Reader.reads_items h.2 _).bind_end (Reader.reads_lift (addChunkHash_eq shard h))

theorem sound_readXorbHash : (readXorbHash shard).Sound fun w _ => w.length = 32 := by
  refine ((Reader.sound_items 32 _).bind fun h => Reader.sound_lift (shard.addXorbHash h)).mono ?_
  rintro w _ ⟨u, v, _, rfl, ⟨hlength, rfl⟩, rfl, -⟩
  rwa [List.append_nil]

theorem sound_readChunkHash : (readChunkHash shard).Sound fun w _ => w.length = 32 := by
  refine ((Reader.sound_items 32 _).bind fun h => Reader.sound_lift (shard.addChunkHash h)).mono ?_
  rintro w _ ⟨u, v, _, rfl, ⟨hlength, rfl⟩, rfl, -⟩
  rwa [List.append_nil]

end Hashes

/-- A shard as it stands in the data, without an HMAC. -/
structure ShardWord where
  flags : Bytes
  reserved1 : Bytes
  reserved2 : Bytes
  files : List FileWord
  xorbs : List Digest
  chunks : List Digest
  flags_length : flags.length = 1
  reserved1_length : reserved1.length = 2
  reserved2_length : reserved2.length = 4
  file_count : files.length < 256 ^ 4
  xorb_count : xorbs.length < 256 ^ 4
  chunk_count : chunks.length < 256 ^ 4

namespace ShardWord

variable (w : ShardWord)

def headerWord : Bytes :=
  SHARD_MAGIC ++ [SHARD_VERSION] ++ w.flags ++ w.reserved1 ++ littleEndian 4 w.files.length ++
    littleEndian 4 w.xorbs.length ++ littleEndian 4 w.chunks.length ++ w.reserved2

def sectionsWord : Bytes :=
  w.files.flatMap FileWord.word ++ w.xorbs.flatMap Subtype.val ++ w.chunks.flatMap Subtype.val

def word : Bytes := w.headerWord ++ w.sectionsWord

def header : Header where
  magic := SHARD_MAGIC
  version := [SHARD_VERSION]
  flags := w.flags
  file_count := w.files.length
  xorb_count := w.xorbs.length
  chunk_count := w.chunks.length

def shard : XetShard where
  files := w.files.map FileWord.file
  xorbs := insertAll .empty w.xorbs
  chunks := insertAll .empty w.chunks

theorem length_headerWord : w.headerWord.length = SHARD_HEADER_SIZE := by
  simp [headerWord, w.flags_length, w.reserved1_length, w.reserved2_length, SHARD_MAGIC]

theorem reads_readHeader : readHeader.Reads w.headerWord w.header := by
  rw [headerWord, readHeader]
  simp only [List.append_assoc]
  refine (Reader.reads_items (show SHARD_MAGIC.length = 4 from rfl) _).bind ?_
  refine (Reader.reads_items (show [SHARD_VERSION].length = 1 from rfl) _).bind ?_
  refine (Reader.reads_items w.flags_length _).bind ?_
  refine (Reader.reads_items w.reserved1_length _).bind ?_
  refine (reads_readUnsigned w.file_count).bind ?_
  refine (reads_readUnsigned w.xorb_count).bind ?_
  refine (reads_readUnsigned w.chunk_count).bind ?_
  exact (Reader.reads_items w.reserved2_length _).map fun _ => w.header

theorem reads_readSections : (readSections w.header).Reads w.sectionsWord w.shard := by
  have hfiles : ∀ (fs : List FileWord) (shard : XetShard),
      fs.foldl (fun shard f => { shard with files := shard.files ++ [f.file] }) shard =
        { shard with files := shard.files ++ fs.map FileWord.file } := by
    intro fs
    induction fs with
    | nil => simp
    | cons f fs ih => simp [ih]
  have hxorbs : ∀ (hs : List Digest) (shard : XetShard),
      hs.foldl (fun shard h => { shard with xorbs := shard.xorbs.insert h.1 h.2 }) shard =
        { shard with xorbs := insertAll shard.xorbs hs } := by
    intro hs
    induction hs with
    | nil => simp [insertAll]
    | cons h hs ih => simp [ih, insertAll]
  have hchunks : ∀ (hs : List Digest) (shard : XetShard),
      hs.foldl (fun shard h => { shard with chunks := shard.chunks.insert h.1 h.2 }) shard =
        { shard with chunks := insertAll shard.chunks hs } := by
    intro hs
    induction hs with
    | nil => simp [insertAll]
    | cons h hs ih => simp [ih, insertAll]
  have hshard : w.shard = w.chunks.foldl
      (fun shard h => { shard with chunks := shard.chunks.insert h.1 h.2 })
      (w.xorbs.foldl (fun shard h => { shard with xorbs := shard.xorbs.insert h.1 h.2 })
        (w.files.foldl (fun shard f => { shard with files := shard.files ++ [f.file] }) new)) := by
    rw [hfiles, hxorbs, hchunks]
    rfl
  rw [sectionsWord, List.append_assoc, readSections, hshard]
  refine (Reader.reads_loop w.files (fun _ shard f _ => f.reads shard) 0 new).bind ?_
  refine (Reader.reads_loop w.xorbs (fun _ shard h _ => reads_readXorbHash shard h) 0 _).bind ?_
  exact Reader.reads_loop w.chunks (fun _ shard h _ => reads_readChunkHash shard h) 0 _

theorem checkHeader_header : checkHeader w.header = .ok () := by
  simp only [checkHeader, header, ne_eq, not_true_eq_false, if_false]

theorem reads_reader {data : Bytes} {hmac_key : Option Bytes}
    (hverify : verifyHmac data hmac_key w.flags = .ok ()) :
    (reader data hmac_key).Reads w.word w.shard := by
  refine w.reads_readHeader.bind ?_
  refine (Reader.reads_lift w.checkHeader_header).bind_nil ?_
  exact (Reader.reads_lift hverify).bind_nil w.reads_readSections

theorem deserialize_eq {rest : Bytes} {hmac_key : Option Bytes}
    (hverify : verifyHmac (w.word ++ rest) hmac_key w.flags = .ok ()) :
    deserialize (w.word ++ rest) hmac_key = .ok w.shard := by
  have hlength := w.length_headerWord
  rw [deserialize, if_neg (by simp only [word, List.length_append]; omega),
    w.reads_reader hverify]
  rfl

end ShardWord

section Sound

theorem exists_map_eq {α β : Type} {g : α → β} {ys : List β} (h : ∀ y ∈ ys, ∃ x, g x = y) :
    ∃ xs : List α, xs.map g = ys := by
  induction ys with
  | nil => exact ⟨[], rfl⟩
  | cons y ys ih =>
    obtain ⟨x, hx⟩ := h y List.mem_cons_self
    obtain ⟨xs, hxs⟩ := ih fun y hy => h y (List.mem_cons_of_mem _ hy)
    exact ⟨x :: xs, by rw [List.map_cons, hx, hxs]⟩

theorem exists_digests {words : List Bytes} (h : ∀ w ∈ words, w.length = 32) :
    ∃ hs : List Digest, hs.map Subtype.val = words :=
  exists_map_eq fun w hw => ⟨⟨w, h w hw⟩, rfl⟩

theorem sound_readHeader : readHeader.Sound fun word header =>
    ∃ flags reserved1 reserved2 : Bytes, flags.length = 1 ∧ reserved1.length = 2 ∧
      reserved2.length = 4 ∧ header.flags = flags ∧ header.file_count < 256 ^ 4 ∧
      header.xorb_count < 256 ^ 4 ∧ header.chunk_count < 256 ^ 4 ∧
      word = header.magic ++ header.version ++ flags ++ reserved1 ++
        littleEndian 4 header.file_count ++ littleEndian 4 header.xorb_count ++
        littleEndian 4 header.chunk_count ++ reserved2 := by
  refine ((Reader.sound_items 4 _).bind fun magic => (Reader.sound_items 1 _).bind
    fun version => (Reader.sound_items 1 _).bind
    fun flags => (Reader.sound_items 2 _).bind
    fun _ => (sound_readUnsigned 4 _).bind
    fun file_count => (sound_readUnsigned 4 _).bind
    fun xorb_count => (sound_readUnsigned 4 _).bind
    fun chunk_count => (Reader.sound_items 4 _).map
    fun _ => (⟨magic, version, flags, file_count, xorb_count, chunk_count⟩ : Header)).mono ?_
  rintro w header ⟨_, _, magic, rfl, ⟨-, rfl⟩, _, _, version, rfl, ⟨-, rfl⟩, _, _, flags, rfl,
    ⟨hflags, rfl⟩, _, _, reserved1, rfl, ⟨hreserved1, rfl⟩, _, _, file_count, rfl, ⟨hfile, rfl⟩,
    _, _, xorb_count, rfl, ⟨hxorb, rfl⟩, _, _, chunk_count, rfl, ⟨hchunk, rfl⟩,
    reserved2, ⟨hreserved2, rfl⟩, rfl⟩
  refine ⟨flags, reserved1, reserved2, hflags, hreserved1, hreserved2, rfl, hfile, hxorb, hchunk,
    ?_⟩
  simp only [List.append_assoc]

theorem sound_readSections (header : Header) : (readSections header).Sound fun word _ =>
    ∃ (files : List FileWord) (xorbs chunks : List Digest), files.length = header.file_count ∧
      xorbs.length = header.xorb_count ∧ chunks.length = header.chunk_count ∧
      word = files.flatMap FileWord.word ++ xorbs.flatMap Subtype.val ++
        chunks.flatMap Subtype.val := by
  refine ((Reader.sound_loop (fun _ shard => FileWord.sound shard) 0 header.file_count new).bind
    fun shard => (Reader.sound_loop (fun _ shard => sound_readXorbHash shard) 0
      header.xorb_count shard).bind
    fun shard => Reader.sound_loop (fun _ shard => sound_readChunkHash shard) 0
      header.chunk_count shard).mono ?_
  rintro w _ ⟨_, _, _, rfl, ⟨files, hfiles, hentries, rfl⟩, _, _, _, rfl, ⟨xorbs, hxorbs, hhashes,
    rfl⟩, chunks, hchunks, hhashes', rfl⟩
  obtain ⟨files, rfl⟩ := exists_map_eq hentries
  obtain ⟨xorbs, rfl⟩ := exists_digests hhashes
  obtain ⟨chunks, rfl⟩ := exists_digests hhashes'
  rw [List.length_map] at hfiles hxorbs hchunks
  refine ⟨files, xorbs, chunks, hfiles, hxorbs, hchunks, ?_⟩
  simp only [List.flatMap_def, List.append_assoc]

/-- The reader takes data only that begin with a shard, and whose HMAC is verified if it has to
be. -/
theorem sound_reader (data : Bytes) (hmac_key : Option Bytes) :
    (reader data hmac_key).Sound fun word _ =>
      ∃ w : ShardWord, w.word = word ∧ verifyHmac data hmac_key w.flags = .ok () := by
  refine (sound_readHeader.bind fun header => (Reader.sound_lift (checkHeader header)).bind
    fun _ => (Reader.sound_lift (verifyHmac data hmac_key header.flags)).bind
    fun _ => sound_readSections header).mono ?_
  rintro word _ ⟨_, _, header, rfl, ⟨flags, reserved1, reserved2, hflags, hreserved1, hreserved2,
    rfl, hfile, hxorb, hchunk, rfl⟩, _, _, _, rfl, ⟨rfl, hcheck⟩, _, _, _, rfl, ⟨rfl, hverify⟩,
    files, xorbs, chunks, hfiles, hxorbs, hchunks, rfl⟩
  have hheader : header.magic = SHARD_MAGIC ∧ header.version = [SHARD_VERSION] := by
    rw [checkHeader] at hcheck
    split at hcheck
    · cases hcheck
    · split at hcheck
      · cases hcheck
      · next hmagic hversion => exact ⟨not_not.mp hmagic, not_not.mp hversion⟩
  refine ⟨{
    flags := header.flags
    reserved1, reserved2, files, xorbs, chunks
    flags_length := hflags
    reserved1_length := hreserved1
    reserved2_length := hreserved2
    file_count := hfiles ▸ hfile
    xorb_count := hxorbs ▸ hxorb
    chunk_count := hchunks ▸ hchunk }, ?_, hverify⟩
  simp only [ShardWord.word, ShardWord.headerWord, ShardWord.sectionsWord, hfiles, hxorbs, hchunks,
    hheader, List.nil_append]

end Sound

/-!
## Shards and keys

Whether the HMAC of a shard is verified is decided by a flag of the shard's own header. Data whose
flag is not set are accepted under every key.
-/

variable {data key : Bytes}

/-- The data are accepted under the key. -/
def Accepted (data key : Bytes) : Prop := ∃ shard, deserialize data (some key) = .ok shard

/-- The last 32 octets are the HMAC of those before them. -/
def Authentic (data key : Bytes) : Prop :=
  data.drop (data.length - HMAC_SIZE) = hmacSha256 key (data.take (data.length - HMAC_SIZE))

/-- The flag for an HMAC in the header. -/
def Flagged (data : Bytes) : Prop := data.getD 5 0 &&& 0x01 ≠ 0

/-- The data begin with a shard: a header and as many files, xorb and chunk hashes as it says. -/
def WellFormed (data : Bytes) : Prop := ∃ (w : ShardWord) (rest : Bytes), data = w.word ++ rest

theorem flagged_iff (w : ShardWord) (rest : Bytes) :
    Flagged (w.word ++ rest) ↔ w.flags.getD 0 0 &&& 0x01 ≠ 0 := by
  obtain ⟨flags, hflags⟩ := List.length_eq_one_iff.mp w.flags_length
  simp [Flagged, ShardWord.word, ShardWord.headerWord, SHARD_MAGIC, hflags]

theorem length_of_authentic (h : Authentic data key) : HMAC_SIZE ≤ data.length := by
  have hlength := congrArg List.length h
  have hsize : HMAC_SIZE = 32 := rfl
  rw [List.length_drop, length_hmacSha256] at hlength
  omega

theorem verifyHmac_eq_ok_iff (hkey : key ≠ []) {flags : Bytes} :
    verifyHmac data (some key) flags = .ok () ↔
      (flags.getD 0 0 &&& 0x01 ≠ 0 → Authentic data key) := by
  rw [verifyHmac]
  dsimp only [Option.getD_some]
  split
  · next h =>
    rw [imp_iff_right h.1]
    split
    · next hshort =>
      exact iff_of_false (fun h' => by cases h')
        fun h' => absurd (length_of_authentic h') (by omega)
    · split
      · next hequal => exact iff_of_true rfl hequal
      · next hequal => exact iff_of_false (fun h' => by cases h') hequal
  · next h => exact iff_of_true rfl fun hflag => absurd ⟨hflag, hkey⟩ h

/-- Data are accepted when they are well formed and, if the flag is set, authentic. -/
theorem accepted_iff (hkey : key ≠ []) :
    Accepted data key ↔ WellFormed data ∧ (Flagged data → Authentic data key) := by
  constructor
  · rintro ⟨shard, h⟩
    rw [deserialize] at h
    split at h
    · cases h
    · cases hread : reader data (some key) data with
      | error e => rw [hread] at h; cases h
      | ok p =>
        obtain ⟨word, hword, w, rfl, hverify⟩ := sound_reader data (some key) data p.1 p.2 hread
        refine ⟨⟨w, p.2, hword⟩, fun hflag => ?_⟩
        rw [hword, flagged_iff] at hflag
        exact (verifyHmac_eq_ok_iff hkey).mp hverify hflag
  · rintro ⟨⟨w, rest, rfl⟩, hauthentic⟩
    rw [flagged_iff] at hauthentic
    exact ⟨w.shard, w.deserialize_eq ((verifyHmac_eq_ok_iff hkey).mpr hauthentic)⟩

/-- More octets behind a shard leave it well formed and its flag as it is. -/
theorem WellFormed.append (h : WellFormed data) (tag : Bytes) : WellFormed (data ++ tag) := by
  obtain ⟨w, rest, rfl⟩ := h
  exact ⟨w, rest ++ tag, List.append_assoc _ _ _⟩

theorem WellFormed.flagged_append (h : WellFormed data) (tag : Bytes) :
    Flagged (data ++ tag) ↔ Flagged data := by
  obtain ⟨w, rest, rfl⟩ := h
  rw [List.append_assoc, flagged_iff, flagged_iff]

theorem authentic_append {tag : Bytes} (htag : tag.length = HMAC_SIZE) :
    Authentic (data ++ tag) key ↔ tag = hmacSha256 key data := by
  have hlength : (data ++ tag).length - HMAC_SIZE = data.length := by
    rw [List.length_append, htag, Nat.add_sub_cancel]
  rw [Authentic, hlength, List.drop_left, List.take_left]

/-- Accepted data are authentic exactly when their flag is set, or they are no shard, or their last
octets happen to be the HMAC. Of the data that are a shard and 32 octets behind it only those with
the HMAC are accepted exactly when the flag is set. -/
theorem authentic_of_accepted_iff (hkey : key ≠ []) :
    (∀ data, (Accepted data key → Authentic data key) ↔
      Flagged data ∨ ¬WellFormed data ∨ Authentic data key) ∧
    ∀ payload, WellFormed payload →
      ((∀ tag, tag.length = HMAC_SIZE → Accepted (payload ++ tag) key →
        tag = hmacSha256 key payload) ↔ Flagged payload) := by
  constructor
  · intro data
    rw [accepted_iff hkey]
    tauto
  · intro payload hpayload
    constructor
    · intro h
      by_contra hflag
      have hall : ∀ tag : Bytes, tag.length = HMAC_SIZE → tag = hmacSha256 key payload := by
        intro tag htag
        refine h tag htag ((accepted_iff hkey).mpr ⟨hpayload.append tag, fun hflag' => ?_⟩)
        exact absurd ((hpayload.flagged_append tag).mp hflag') hflag
      -- there is more than one tag
      have htwo : List.replicate HMAC_SIZE (0 : UInt8) = List.replicate HMAC_SIZE 1 :=
        (hall _ List.length_replicate).trans (hall _ List.length_replicate).symm
      exact absurd htwo (by decide)
    · intro hflag tag htag haccepted
      have hauthentic := ((accepted_iff hkey).mp haccepted).2
        ((hpayload.flagged_append tag).mpr hflag)
      exact (authentic_append htag).mp hauthentic

/-- An empty shard that has been serialized without a key. -/
def unflaggedShard : Bytes := SHARD_MAGIC ++ [1, 0] ++ List.replicate 18 0

theorem authentic_of_accepted_key :
    [0x6B] ≠ ([] : Bytes) ∧ WellFormed unflaggedShard ∧
      ((∀ tag, tag.length = HMAC_SIZE → Accepted (unflaggedShard ++ tag) [0x6B] →
        tag = hmacSha256 [0x6B] unflaggedShard) ↔ Flagged unflaggedShard) :=
  have hkey : [0x6B] ≠ ([] : Bytes) := by decide
  have hwell : WellFormed unflaggedShard :=
    ⟨⟨[0], [0, 0], [0, 0, 0, 0], [], [], [], rfl, rfl, rfl, by decide, by decide, by decide⟩, [],
      by decide⟩
  ⟨hkey, hwell, (authentic_of_accepted_iff hkey).2 unflaggedShard hwell⟩

/-- It is accepted under a key, and it has no HMAC. -/
theorem unflaggedShard_accepted :
    Accepted unflaggedShard [0x6B] ∧ ¬Authentic unflaggedShard [0x6B] :=
  ⟨⟨new, by rfl⟩, fun h => absurd (length_of_authentic h) (by decide)⟩

end XetShard

end Ccbt.Xet
