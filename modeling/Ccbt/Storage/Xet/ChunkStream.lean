import Ccbt.Python.Bytes
import Ccbt.Storage.Xet.Chunking

/-!
# Chunking a stream and a file

`chunk_stream` and `chunk_file` of `ccbt/storage/xet_chunking.py` cut as soon as the buffer holds
the minimum chunk size. What arrives later is not looked at, and so a part of the stream that ends
inside of a chunk, behind its minimum size, makes a boundary that the data do not have.
-/

namespace Ccbt.Xet

open Python Framing

namespace GearhashChunker

variable (c : GearhashChunker)

/-- The inner loop of `chunk_stream` and `chunk_file`: the chunks that are yielded and the buffer
behind them, or `none` after `n` rounds. -/
def bufferLoop : Nat → Bytes → Option (List Bytes × Bytes)
  | 0, _ => none
  | n + 1, buffer =>
    if buffer.length ≥ MIN_CHUNK_SIZE then
      let boundary := c.findChunkBoundary buffer 0 c.targetMask
      (bufferLoop n (buffer.drop boundary)).map fun rest =>
        (buffer.take boundary :: rest.1, rest.2)
    else some ([], buffer)

/-- `if buffer: yield buffer` at the end. -/
def yieldRest (buffer : Bytes) : List Bytes := if buffer = [] then [] else [buffer]

/-- The loop of `chunk_stream` over what is left of the stream. -/
def streamLoop (fuel : Nat) : Bytes → List Bytes → Option (List Bytes)
  | buffer, [] => some (yieldRest buffer)
  | buffer, chunk :: stream => do
    let (chunks, buffer) ← c.bufferLoop fuel (buffer ++ chunk)
    return chunks ++ (← streamLoop fuel buffer stream)

/-- What `chunk_stream` yields, or `none` when a loop goes on for more than `fuel` rounds. -/
def chunkStream (fuel : Nat) (stream : List Bytes) : Option (List Bytes) :=
  c.streamLoop fuel [] stream

/-- `f.read(size)` where `rest` is left of the file: what is read, and what is left then. -/
def readFile (size : Int) (rest : Bytes) : Except String (Bytes × Bytes) :=
  if size < -1 then .error "read length must be non-negative or -1"
  else if size = -1 then .ok (rest, [])
  else .ok (rest.take size.toNat, rest.drop size.toNat)

/-- The loop of `chunk_file`, at most `n` reads. -/
def fileLoop (fuel : Nat) (chunk_size_hint : Int) :
    Nat → Bytes → Bytes → Option (Except String (List Bytes))
  | 0, _, _ => none
  | n + 1, buffer, rest =>
    match readFile chunk_size_hint rest with
    | .error e => some (.error e)
    | .ok (chunk, rest) =>
      if chunk = [] then some (.ok (yieldRest buffer))
      else do
        let (chunks, buffer) ← c.bufferLoop fuel (buffer ++ chunk)
        return (← fileLoop fuel chunk_size_hint n buffer rest).map (chunks ++ ·)

/-- What `chunk_file` yields for a file of this content, or the text of the `ValueError` that it
raises; `none` when a loop goes on for more than `fuel` rounds. -/
def chunkFile (fuel : Nat) (content : Bytes) (chunk_size_hint : Int) :
    Option (Except String (List Bytes)) :=
  c.fileLoop fuel chunk_size_hint fuel [] content

variable {c}

theorem bufferLoop_eq {fuel : Nat} {buffer : Bytes} (hfuel : buffer.length < fuel) :
    c.bufferLoop fuel buffer = some (c.cutter.drain MIN_CHUNK_SIZE buffer) := by
  have hsizes := sizes_lt
  have hmin : 0 < MIN_CHUNK_SIZE := by decide
  induction fuel generalizing buffer with
  | zero => omega
  | succ fuel ih =>
    rw [bufferLoop]
    split
    · next h =>
      have hcut : c.findChunkBoundary buffer 0 c.targetMask = c.cutter.cut buffer := by
        rw [findChunkBoundary_eq (Nat.zero_le _), Nat.zero_add, List.drop_zero]
        rfl
      have hlt := c.cutter.length_drop_cut_lt
        (List.ne_nil_of_length_pos (by omega : 0 < buffer.length))
      dsimp only
      rw [hcut, ih (by omega), Option.map_some, Cutter.drain_of_le hmin h]
    · next h => rw [Cutter.drain_of_lt (Nat.lt_of_not_le h)]

theorem streamLoop_eq {fuel : Nat} {buffer : Bytes} {stream : List Bytes}
    (hfuel : (buffer ++ stream.flatten).length < fuel) :
    c.streamLoop fuel buffer stream =
      some ((c.cutter.feedAll MIN_CHUNK_SIZE buffer stream).1 ++
        Cutter.remainder (c.cutter.feedAll MIN_CHUNK_SIZE buffer stream).2) := by
  induction stream generalizing buffer with
  | nil => rfl
  | cons chunk stream ih =>
    have hrest := congrArg List.length
      (Cutter.flatten_drain (s := c.cutter) (by decide : 0 < MIN_CHUNK_SIZE) (buffer ++ chunk))
    simp only [List.flatten_cons, List.length_append] at hfuel hrest
    rw [streamLoop, bufferLoop_eq (by rw [List.length_append]; omega)]
    simp only [Option.bind_eq_bind, Option.bind_some]
    rw [ih (by rw [List.length_append]; omega), Cutter.feedAll, List.append_assoc]
    rfl

/-- What is read from a file, one read after the other. -/
def fileParts (chunk_size_hint : Int) (content : Bytes) : List Bytes :=
  if chunk_size_hint = -1 then (if content = [] then [] else [content])
  else pieces chunk_size_hint.toNat content

theorem fileLoop_eq {fuel n : Nat} {chunk_size_hint : Int} {buffer rest : Bytes}
    (hhint : chunk_size_hint = -1 ∨ 0 < chunk_size_hint) (hn : rest.length < n) :
    c.fileLoop fuel chunk_size_hint n buffer rest =
      (c.streamLoop fuel buffer (fileParts chunk_size_hint rest)).map .ok := by
  induction n generalizing buffer rest with
  | zero => omega
  | succ n ih =>
    by_cases hrest : rest = []
    · -- nothing is left, and so nothing is read
      subst hrest
      have hread : ∃ rest', readFile chunk_size_hint [] = .ok ([], rest') := by
        rw [readFile, if_neg (by omega)]
        split
        · exact ⟨_, rfl⟩
        · rw [List.take_nil]
          exact ⟨_, rfl⟩
      obtain ⟨rest', hread⟩ := hread
      have hparts : fileParts chunk_size_hint [] = [] := by simp [fileParts]
      rw [fileLoop, hread, hparts]
      rfl
    · have hread : ∃ part rest', readFile chunk_size_hint rest = .ok (part, rest') ∧ part ≠ [] ∧
          rest'.length < rest.length ∧
          fileParts chunk_size_hint rest = part :: fileParts chunk_size_hint rest' := by
        have hlength := List.length_pos_of_ne_nil hrest
        rw [readFile, if_neg (by omega)]
        obtain rfl | hpos := hhint
        · exact ⟨rest, [], rfl, hrest, hlength, by simp [fileParts, hrest]⟩
        · have hsize : 0 < chunk_size_hint.toNat := by omega
          refine ⟨_, _, if_neg (by omega), ?_, ?_, ?_⟩
          · rw [Ne, List.take_eq_nil_iff]
            rintro (h | h)
            · omega
            · exact hrest h
          · rw [List.length_drop]
            omega
          · rw [fileParts, if_neg (by omega), pieces_of_ne_nil hsize hrest, fileParts,
              if_neg (by omega)]
      obtain ⟨part, rest', hread, hpart, hlt, hparts⟩ := hread
      rw [fileLoop, hread, hparts, streamLoop]
      simp only [if_neg hpart, Option.bind_eq_bind, ih (show rest'.length < n by omega)]
      cases c.bufferLoop fuel (buffer ++ part) with
      | none => rfl
      | some p =>
        simp only [Option.bind_some]
        cases c.streamLoop fuel p.2 (fileParts chunk_size_hint rest') <;> rfl

theorem flatten_fileParts {chunk_size_hint : Int}
    (hhint : chunk_size_hint = -1 ∨ 0 < chunk_size_hint) (content : Bytes) :
    (fileParts chunk_size_hint content).flatten = content := by
  rw [fileParts]
  split
  · split
    · next h => rw [h, List.flatten_nil]
    · rw [List.flatten_singleton]
  · exact flatten_pieces (by omega) content

variable (c)

/-- `chunk_stream` yields the chunks that `chunk_buffer` gives for the whole. -/
def StreamsAlike (stream : List Bytes) : Prop :=
  ∃ chunks, Returns (c.chunkBuffer · stream.flatten) chunks ∧
    Returns (c.chunkStream · stream) chunks

/-- `chunk_file` yields the chunks that `chunk_buffer` gives for the content of the file. -/
def FileAlike (content : Bytes) (chunk_size_hint : Int) : Prop :=
  ∃ chunks, Returns (c.chunkBuffer · content) chunks ∧
    Returns (c.chunkFile · content chunk_size_hint) (.ok chunks)

/-- The position lies less than the minimum chunk size behind a content-defined boundary of the
data: their start, or where a chunk that begins at a boundary ends. -/
def NearBoundary (data : Bytes) (k : Nat) : Prop := c.cutter.NearStart MIN_CHUNK_SIZE data k

variable {c}

theorem streamLoop_eq_chunks_iff (parts : List Bytes) :
    (c.cutter.feedAll MIN_CHUNK_SIZE [] parts).1 ++
        Cutter.remainder (c.cutter.feedAll MIN_CHUNK_SIZE [] parts).2 =
      c.cutter.chunks parts.flatten ↔
    ∀ n, c.NearBoundary parts.flatten (parts.take n).flatten.length := by
  have hshort : ∀ data : Bytes, data.length < MIN_CHUNK_SIZE → c.cutter.cut data = data.length :=
    fun data hdata => chunkLength_of_le (Nat.le_of_lt hdata)
  have hempty : ([] : Bytes).length < MIN_CHUNK_SIZE := by decide
  have hiff := Cutter.feedAll_eq_chunks_iff (by decide) hshort hempty parts
  simpa only [List.nil_append, List.length_nil, Nat.zero_add, NearBoundary] using hiff

theorem chunkStream_returns (stream : List Bytes) :
    Returns (c.chunkStream · stream) ((c.cutter.feedAll MIN_CHUNK_SIZE [] stream).1 ++
      Cutter.remainder (c.cutter.feedAll MIN_CHUNK_SIZE [] stream).2) :=
  ⟨stream.flatten.length + 1, fun _ hfuel => streamLoop_eq hfuel⟩

theorem streamsAlike_iff (stream : List Bytes) : c.StreamsAlike stream ↔
    ∀ n, c.NearBoundary stream.flatten (stream.take n).flatten.length := by
  rw [← streamLoop_eq_chunks_iff]
  constructor
  · rintro ⟨chunks, hbuffer, hstream⟩
    exact (chunkStream_returns stream).unique hstream |>.trans
      (hbuffer.unique (c.chunkBuffer_returns stream.flatten))
  · intro h
    exact ⟨_, c.chunkBuffer_returns stream.flatten, h ▸ chunkStream_returns stream⟩

theorem chunkFile_returns {chunk_size_hint : Int}
    (hhint : chunk_size_hint = -1 ∨ 0 < chunk_size_hint) (content : Bytes) :
    Returns (c.chunkFile · content chunk_size_hint)
      (.ok ((c.cutter.feedAll MIN_CHUNK_SIZE [] (fileParts chunk_size_hint content)).1 ++
        Cutter.remainder
          (c.cutter.feedAll MIN_CHUNK_SIZE [] (fileParts chunk_size_hint content)).2)) := by
  refine ⟨content.length + 1, fun fuel hfuel => ?_⟩
  have hlength : ([] ++ (fileParts chunk_size_hint content).flatten).length < fuel := by
    rw [List.nil_append, flatten_fileParts hhint]
    omega
  have hstream := streamLoop_eq (c := c) hlength
  change c.fileLoop fuel chunk_size_hint fuel [] content = _
  rw [fileLoop_eq hhint (by omega), hstream]
  rfl

/-- A file is read in parts of the same size. -/
theorem nearBoundary_fileParts_iff {chunk_size_hint : Int}
    (hhint : chunk_size_hint = -1 ∨ 0 < chunk_size_hint) (content : Bytes) :
    (∀ n, c.NearBoundary content ((fileParts chunk_size_hint content).take n).flatten.length) ↔
      chunk_size_hint = -1 ∨ ∀ n : Nat, n * chunk_size_hint.toNat < content.length →
        c.NearBoundary content (n * chunk_size_hint.toNat) := by
  have hend : c.NearBoundary content content.length := Cutter.nearStart_length (by decide) content
  have hbegin : c.NearBoundary content 0 := Cutter.nearStart_of_lt (by decide)
  obtain rfl | hpos := hhint
  · refine iff_of_true (fun n => ?_) (.inl rfl)
    cases n with
    | zero => rwa [List.take_zero]
    | succ n =>
      rw [fileParts, if_pos rfl]
      split
      · rwa [List.take_nil]
      · simpa using hend
  · have hne : chunk_size_hint ≠ -1 := by omega
    have hparts : fileParts chunk_size_hint content = pieces chunk_size_hint.toNat content :=
      if_neg hne
    simp only [hparts, hne, false_or,
      flatten_take_pieces (show 0 < chunk_size_hint.toNat by omega), List.length_take]
    constructor
    · intro h n hn
      have hn' := h n
      rwa [Nat.min_eq_left (Nat.le_of_lt hn)] at hn'
    · intro h n
      by_cases hn : n * chunk_size_hint.toNat < content.length
      · rw [Nat.min_eq_left (Nat.le_of_lt hn)]
        exact h n hn
      · rwa [Nat.min_eq_right (Nat.le_of_not_lt hn)]

theorem fileAlike_iff_of_reads {chunk_size_hint : Int}
    (hhint : chunk_size_hint = -1 ∨ 0 < chunk_size_hint) (content : Bytes) :
    c.FileAlike content chunk_size_hint ↔
      chunk_size_hint = -1 ∨ ∀ n : Nat, n * chunk_size_hint.toNat < content.length →
        c.NearBoundary content (n * chunk_size_hint.toNat) := by
  have hfeed := streamLoop_eq_chunks_iff (c := c) (fileParts chunk_size_hint content)
  rw [flatten_fileParts hhint] at hfeed
  rw [← nearBoundary_fileParts_iff hhint, ← hfeed]
  constructor
  · rintro ⟨chunks, hbuffer, hfile⟩
    exact (Except.ok.inj ((chunkFile_returns hhint content).unique hfile)).trans
      (hbuffer.unique (c.chunkBuffer_returns content))
  · intro h
    exact ⟨_, c.chunkBuffer_returns content, h ▸ chunkFile_returns hhint content⟩

/-- Nothing is read from a file when the hint is zero, and a hint below -1 is an error. -/
theorem fileAlike_iff_of_not_reads {chunk_size_hint : Int} (hne : chunk_size_hint ≠ -1)
    (hhint : chunk_size_hint ≤ 0) (content : Bytes) :
    c.FileAlike content chunk_size_hint ↔ chunk_size_hint = 0 ∧ content = [] := by
  by_cases hzero : chunk_size_hint = 0
  · subst hzero
    have hfile : Returns (c.chunkFile · content 0) (.ok []) :=
      ⟨1, fun fuel hfuel => by
        obtain ⟨fuel, rfl⟩ : ∃ m, fuel = m + 1 := ⟨fuel - 1, by omega⟩
        rfl⟩
    constructor
    · rintro ⟨chunks, hbuffer, hfile'⟩
      have hchunks := hbuffer.unique (c.chunkBuffer_returns content)
      rw [Except.ok.inj (hfile'.unique hfile)] at hchunks
      have hflatten := Cutter.flatten_chunks (s := c.cutter) content
      rw [← hchunks] at hflatten
      exact ⟨rfl, hflatten.symm⟩
    · rintro ⟨-, rfl⟩
      exact ⟨[], c.chunkBuffer_returns [], hfile⟩
  · have herror : Returns (c.chunkFile · content chunk_size_hint)
        (.error "read length must be non-negative or -1") :=
      ⟨1, fun fuel hfuel => by
        obtain ⟨fuel, rfl⟩ : ∃ m, fuel = m + 1 := ⟨fuel - 1, by omega⟩
        change c.fileLoop (fuel + 1) chunk_size_hint (fuel + 1) [] content = _
        rw [fileLoop, readFile, if_pos (by omega)]⟩
    refine iff_of_false ?_ fun h => hzero h.1
    rintro ⟨chunks, -, hfile⟩
    cases hfile.unique herror

theorem fileAlike_iff (content : Bytes) (chunk_size_hint : Int) :
    c.FileAlike content chunk_size_hint ↔
      chunk_size_hint = -1 ∨ (chunk_size_hint = 0 ∧ content = []) ∨
        0 < chunk_size_hint ∧ ∀ n : Nat, n * chunk_size_hint.toNat < content.length →
          c.NearBoundary content (n * chunk_size_hint.toNat) := by
  by_cases hhint : chunk_size_hint = -1 ∨ 0 < chunk_size_hint
  · rw [fileAlike_iff_of_reads hhint]
    have hzero : chunk_size_hint ≠ 0 := by omega
    by_cases hone : chunk_size_hint = -1
    · simp only [hone, true_or]
    · simp only [hone, hzero, false_and, false_or, hhint.resolve_left hone, true_and]
  · rw [fileAlike_iff_of_not_reads (by omega) (by omega)]
    have hpos : ¬0 < chunk_size_hint := by omega
    have hone : chunk_size_hint ≠ -1 := by omega
    simp only [hone, hpos, false_and, or_false, false_or]

/-- Chunking as the data arrive gives the chunks of the whole exactly when every part of the
stream, or of the file as it is read, ends near a boundary. -/
theorem arrival_iff (c : GearhashChunker) :
    (∀ stream, c.StreamsAlike stream ↔
      ∀ n, c.NearBoundary stream.flatten (stream.take n).flatten.length) ∧
    ∀ content chunk_size_hint, c.FileAlike content chunk_size_hint ↔
      chunk_size_hint = -1 ∨ (chunk_size_hint = 0 ∧ content = []) ∨
        0 < chunk_size_hint ∧ ∀ n : Nat, n * chunk_size_hint.toNat < content.length →
          c.NearBoundary content (n * chunk_size_hint.toNat) :=
  ⟨streamsAlike_iff, fileAlike_iff⟩

/-- The minimum chunk size itself is not near a boundary of longer data. -/
theorem not_nearBoundary {data : Bytes} (h : MIN_CHUNK_SIZE < data.length) :
    ¬c.NearBoundary data MIN_CHUNK_SIZE := by
  have hcut : MIN_CHUNK_SIZE < c.cutter.cut data := (chunkLength_bounds c.targetMask h).1
  rw [NearBoundary, Cutter.nearStart_of_lt_cut hcut]
  exact Nat.lt_irrefl _

/-- A first part of the minimum size is cut off when it arrives. -/
theorem not_streamsAlike {first : Bytes} {stream : List Bytes}
    (hfirst : first.length = MIN_CHUNK_SIZE) (hmore : 0 < stream.flatten.length) :
    ¬c.StreamsAlike (first :: stream) := by
  rw [streamsAlike_iff]
  intro h
  have hone := h 1
  rw [List.take_succ_cons, List.take_zero, List.flatten_singleton, hfirst] at hone
  refine not_nearBoundary ?_ hone
  rw [List.flatten_cons, List.length_append]
  omega

theorem not_fileAlike {content : Bytes} (h : MIN_CHUNK_SIZE < content.length) :
    ¬c.FileAlike content MIN_CHUNK_SIZE := by
  rw [fileAlike_iff]
  intro halike
  have hnear := (halike.resolve_left (by decide)).resolve_left fun hzero => by simp at hzero
  have hone := hnear.2 1
  rw [Int.toNat_natCast, Nat.one_mul] at hone
  exact not_nearBoundary h (hone h)

/-- The chunker with the default target size. -/
def defaultChunker : GearhashChunker where
  target_size := 16384
  gear_table := initGearTable
  accepted := by decide

/-- Two parts of the minimum size are two chunks when they arrive, while the first chunk of the
whole is longer. -/
theorem defaultChunker_not_alike :
    ¬defaultChunker.StreamsAlike [List.replicate 8192 0, List.replicate 8192 0] ∧
      ¬defaultChunker.FileAlike (List.replicate 16384 0) 8192 := by
  constructor
  · apply not_streamsAlike List.length_replicate
    rw [List.flatten_singleton, List.length_replicate]
    decide
  · apply not_fileAlike
    rw [List.length_replicate]
    decide

end GearhashChunker

end Ccbt.Xet
