import Ccbt.Python.Dict
import Ccbt.Storage.WriteSequence
import Ccbt.Transition.Run

/-!
# Reading blocks

`read_block` of `ccbt/storage/disk_io.py` with the two ways it reads: through a mapping of the
file, which keeps the size that the file had when it was mapped, or directly, with read-ahead. Other
events may change the files and the cache between two reads. A read returns what it has been asked
for if and only if the state before it is right (`readBlock_exact_iff`).
-/

namespace Ccbt.Storage

open Python PositionalWrite Transition

/-- What of the configuration decides how a block is read. -/
structure DiskConfig where
  use_mmap : Bool := true
  read_ahead_kib : Nat := 64
  read_ahead_adaptive : Bool := true
  read_ahead_max_kib : Nat := 1024

/-- `ReadPattern`, without the time of the last access. -/
structure ReadPattern where
  last_offset : Int := -1
  sequential_count : Nat := 0
  random_count : Nat := 0
  deriving DecidableEq, Repr

namespace ReadPattern

/-- `is_sequential`: within 1 MiB of the last offset. -/
def isSequential (pattern : ReadPattern) (offset : Int) : Bool :=
  if pattern.last_offset < 0 then false else (offset - pattern.last_offset).natAbs < 1024 * 1024

def update (pattern : ReadPattern) (offset : Int) : ReadPattern :=
  if pattern.isSequential offset then
    { pattern with sequential_count := pattern.sequential_count + 1, last_offset := offset }
  else { pattern with random_count := pattern.random_count + 1, last_offset := offset }

theorem last_offset_update (pattern : ReadPattern) (offset : Int) :
    (pattern.update offset).last_offset = offset := by
  rw [update]
  split <;> rfl

/-- Behind the update every access is sequential. -/
theorem isSequential_update (pattern : ReadPattern) (offset : Nat) :
    (pattern.update offset).isSequential offset = true := by
  rw [isSequential, last_offset_update, if_neg (by omega), Int.sub_self]
  rfl

end ReadPattern

inductive ReadError
  | FileNotFoundError
  deriving DecidableEq, Repr

/-- The files, and what the manager keeps about them: the sizes of the mappings in the cache, and
the read patterns. A file is `mappable` if the operating system opens it for update and maps it. -/
structure DiskState (Path : Type) [DecidableEq Path] where
  files : Path → Option Bytes
  mappable : Path → Bool
  mmap_cache : Dict Path Nat
  read_patterns : Dict Path ReadPattern

def requested (file : Bytes) (offset length : Nat) : Bytes := (file.drop offset).take length

namespace DiskState

variable {Path : Type} [DecidableEq Path]

section Reading

variable (config : DiskConfig) (s : DiskState Path) (file_path : Path)

/-- `_get_mmap_entry`: the size of the mapping, if there is one now. -/
def getMmapEntry : Option Nat × DiskState Path :=
  match s.mmap_cache.get? file_path with
  | some size => (some size, s)
  | none =>
    match s.files file_path with
    | none => (none, s)
    | some file =>
      if file.length = 0 then (none, s)
      else if s.mappable file_path then
        (some file.length, { s with mmap_cache := s.mmap_cache.set file_path file.length })
      else (none, s)

/-- The update of the read pattern at the start of `read_block`. -/
def track (offset : Nat) : DiskState Path :=
  let pattern : ReadPattern := (s.read_patterns.get? file_path).getD {}
  { s with read_patterns := s.read_patterns.set file_path (pattern.update offset) }

def getReadAheadSize (offset length : Nat) : Nat :=
  if config.read_ahead_adaptive then
    match s.read_patterns.get? file_path with
    | none => config.read_ahead_kib * 1024
    | some pattern =>
      if pattern.isSequential offset then min (config.read_ahead_max_kib * 1024) (length * 4)
      else config.read_ahead_kib * 1024
  else config.read_ahead_kib * 1024

def readBlockSync (offset length : Nat) : Except ReadError Bytes :=
  match s.files file_path with
  | none => .error .FileNotFoundError
  | some file => .ok (requested file offset length)

/-- A slice of a mapping of `size` octets, which shows the file as it is now. -/
def readMapping (size offset length : Nat) : Bytes :=
  requested (((s.files file_path).getD []).take size) offset length

/-- The direct read, with read-ahead. -/
def readDirect (offset length : Nat) : Except ReadError Bytes :=
  s.readBlockSync file_path offset (max length (s.getReadAheadSize config file_path offset length))

def readBlock (offset length : Nat) : Except ReadError Bytes × DiskState Path :=
  let s := s.track file_path offset
  if config.use_mmap then
    match s.getMmapEntry file_path with
    | (some size, s) => (.ok (s.readMapping file_path size offset length), s)
    | (none, s) => (s.readDirect config file_path offset length, s)
  else (s.readDirect config file_path offset length, s)

end Reading

inductive Event (Path : Type)
  | read (file_path : Path) (offset length : Nat)
  /-- The file is written to, by whomever. -/
  | write (file_path : Path) (offset : Nat) (data : Bytes)
  /-- `warmup_cache` loads the file. -/
  | warmup (file_path : Path)
  /-- `_cache_cleaner` closes the mapping. -/
  | evict (file_path : Path)
  /-- The operating system does from now on, or does no longer, open and map the file. -/
  | permit (file_path : Path) (mappable : Bool)

def step (config : DiskConfig) (s : DiskState Path) : Event Path → DiskState Path
  | .read file_path offset length => (s.readBlock config file_path offset length).2
  | .write file_path offset data =>
    { s with
      files := Function.update s.files file_path
        (some (pwrite 0 ((s.files file_path).getD []) offset data)) }
  | .warmup file_path => (s.getMmapEntry file_path).2
  | .evict file_path => { s with mmap_cache := s.mmap_cache.erase file_path }
  | .permit file_path mappable =>
    { s with mappable := Function.update s.mappable file_path mappable }

/-- A read of a file returns exactly what it has been asked for. -/
def Exact (config : DiskConfig) (s : DiskState Path) : Event Path → Prop
  | .read file_path offset length => ∀ file, s.files file_path = some file →
    (s.readBlock config file_path offset length).1 = .ok (requested file offset length)
  | _ => True

section Condition

variable (config : DiskConfig) (s : DiskState Path) (file_path : Path)

/-- The size of the mapping that a read goes through, if it goes through one: that of the mapping
in the cache, or the size of the file if it is mapped now. -/
def mappedSize (file : Bytes) : Option Nat :=
  if config.use_mmap then
    (s.mmap_cache.get? file_path).or
      (if file.length ≠ 0 ∧ s.mappable file_path then some file.length else none)
  else none

/-- The octets that are read ahead, whatever has been read before. -/
def readAhead (length : Nat) : Nat :=
  if config.read_ahead_adaptive then min (config.read_ahead_max_kib * 1024) (length * 4)
  else config.read_ahead_kib * 1024

/-- When a read returns what it has been asked for: a mapping must reach up to the end of the range
or of the file, and a direct read must not go beyond the range unless the file ends there. -/
def Serves (offset length : Nat) (file : Bytes) : Prop :=
  match s.mappedSize config file_path file with
  | some size => length = 0 ∨ file.length ≤ offset ∨ min file.length (offset + length) ≤ size
  | none => file.length ≤ offset + length ∨ readAhead config length ≤ length

/-- The condition for the event. -/
def Served (config : DiskConfig) (s : DiskState Path) : Event Path → Prop
  | .read file_path offset length =>
    ∀ file, s.files file_path = some file → s.Serves config file_path offset length file
  | _ => True

end Condition

section Exactness

variable {config : DiskConfig} {s : DiskState Path} {file_path : Path} {offset length : Nat}
  {file : Bytes}

theorem length_requested (file : Bytes) (offset length : Nat) :
    (requested file offset length).length = min length (file.length - offset) := by
  rw [requested, List.length_take, List.length_drop]

/-- Longer reads return the same if and only if the file ends first. -/
theorem requested_max_iff {ahead : Nat} : requested file offset (max length ahead) =
    requested file offset length ↔ file.length ≤ offset + length ∨ ahead ≤ length := by
  constructor
  · intro h
    have hlength := congrArg List.length h
    rw [length_requested, length_requested] at hlength
    omega
  · rintro (hend | hahead)
    · rw [requested, requested, List.take_of_length_le, List.take_of_length_le]
      · rw [List.length_drop]
        omega
      · rw [List.length_drop]
        omega
    · rw [Nat.max_eq_left hahead]

/-- The first octets of a file have the range in them if and only if they reach up to its end, or
to the end of the file. -/
theorem requested_take_iff {size : Nat} : requested (file.take size) offset length =
    requested file offset length ↔
      length = 0 ∨ file.length ≤ offset ∨ min file.length (offset + length) ≤ size := by
  constructor
  · intro h
    have hlength := congrArg List.length h
    rw [length_requested, length_requested, List.length_take] at hlength
    omega
  · intro h
    apply List.ext_getElem?
    intro k
    simp only [requested, List.getElem?_take, List.getElem?_drop]
    split
    · next hk =>
      split
      · rfl
      · exact (List.getElem?_eq_none (by omega)).symm
    · rfl

/-- Whatever has been read before, the access counts as sequential: the pattern has been updated
with this very access. -/
theorem getReadAheadSize_track : (s.track file_path offset).getReadAheadSize config file_path
    offset length = readAhead config length := by
  rw [getReadAheadSize, readAhead, track]
  dsimp only
  rw [Dict.get?_set_self]
  dsimp only
  rw [ReadPattern.isSequential_update, if_pos rfl]

@[simp] theorem files_track : (s.track file_path offset).files = s.files := rfl

@[simp] theorem mappable_track : (s.track file_path offset).mappable = s.mappable := rfl

@[simp] theorem mmap_cache_track : (s.track file_path offset).mmap_cache = s.mmap_cache := rfl

/-- What a read returns, told from the state before it. -/
theorem readBlock_fst (hfile : s.files file_path = some file) :
    (s.readBlock config file_path offset length).1 =
      match s.mappedSize config file_path file with
      | some size => .ok (requested (file.take size) offset length)
      | none => .ok (requested file offset (max length (readAhead config length))) := by
  have hdirect : (s.track file_path offset).readDirect config file_path offset length =
      .ok (requested file offset (max length (readAhead config length))) := by
    rw [readDirect, getReadAheadSize_track, readBlockSync, files_track, hfile]
  rw [readBlock, mappedSize]
  by_cases hmmap : config.use_mmap = true
  · rw [if_pos hmmap, if_pos hmmap, getMmapEntry, mmap_cache_track, files_track, mappable_track,
      hfile]
    cases hentry : s.mmap_cache.get? file_path with
    | some size =>
      show Except.ok (requested (((s.files file_path).getD []).take size) offset length) = _
      rw [hfile]
      rfl
    | none =>
      dsimp only [Option.none_or]
      by_cases hempty : file.length = 0
      · rw [if_pos hempty, if_neg fun h => h.1 hempty]
        exact hdirect
      · by_cases hmap : s.mappable file_path = true
        · rw [if_neg hempty, if_pos hmap, if_pos ⟨hempty, hmap⟩]
          show Except.ok (requested (((s.files file_path).getD []).take file.length) offset
            length) = _
          rw [hfile]
          rfl
        · rw [if_neg hempty, if_neg hmap, if_neg fun h => hmap h.2]
          exact hdirect
  · rw [if_neg hmmap, if_neg hmmap]
    exact hdirect

theorem exact_iff (e : Event Path) : s.Exact config e ↔ s.Served config e := by
  cases e with
  | read file_path offset length =>
    refine forall_congr' fun file => forall_congr' fun hfile => ?_
    rw [readBlock_fst hfile, Serves]
    cases s.mappedSize config file_path file with
    | some size =>
      dsimp only
      rw [Except.ok.injEq]
      exact requested_take_iff
    | none =>
      dsimp only
      rw [Except.ok.injEq]
      exact requested_max_iff
  | write | warmup | evict | permit => exact Iff.rfl

/-- In every history all reads return exactly what they have been asked for if and only if every
one of them meets the condition in the state before it. -/
theorem reads_exact_iff (config : DiskConfig) (s : DiskState Path) (history : List (Event Path)) :
    StepsMeet (step config) (fun s e => s.Exact config e) s history ↔
      StepsMeet (step config) (fun s e => s.Served config e) s history :=
  stepsMeet_congr fun _ e => exact_iff e

/-- A direct read of one octet that returns the whole file, and a read of an octet that has been
written behind the end that the file had when it was mapped. -/
theorem longRead_and_staleRead :
    let s : DiskState Unit := ⟨fun _ => some [1, 2, 3], fun _ => true, Dict.empty, Dict.empty⟩
    let grown := run (step {}) s [.read () 0 1, .write () 3 [4]]
    (s.readBlock { use_mmap := false } () 0 1).1 = .ok [1, 2, 3] ∧
      requested [1, 2, 3] 0 1 = [1] ∧ grown.files () = some [1, 2, 3, 4] ∧
      (grown.readBlock {} () 3 1).1 = .ok [] ∧ requested [1, 2, 3, 4] 3 1 = [4] := by
  decide

end Exactness

section Steady

/-- All files can be mapped, and the mappings in the cache have the sizes of the files. -/
structure Steady (s : DiskState Path) : Prop where
  mappable : ∀ file_path, s.mappable file_path = true
  sizes : ∀ file_path size, s.mmap_cache.get? file_path = some size →
    ∀ file, s.files file_path = some file → file.length = size

/-- The event neither makes a file larger nor takes away the access to it. -/
def KeepsSizes (s : DiskState Path) : Event Path → Prop
  | .write file_path offset data =>
    ∃ file, s.files file_path = some file ∧ offset + data.length ≤ file.length
  | .permit _ mappable => mappable = true
  | _ => True

variable {config : DiskConfig} {s : DiskState Path} {file_path : Path}

theorem Steady.getMmapEntry (h : s.Steady) (file_path : Path) :
    (s.getMmapEntry file_path).2.Steady := by
  rw [DiskState.getMmapEntry]
  split
  · exact h
  · split
    · exact h
    · next hfile =>
      split
      · exact h
      · split
        · refine ⟨h.mappable, fun file_path' size hentry file hfile' => ?_⟩
          dsimp only at hentry hfile'
          rw [Dict.get?_set] at hentry
          split at hentry
          · next heq =>
            rw [heq, hfile] at hfile'
            rw [← Option.some.inj hentry, ← Option.some.inj hfile']
          · exact h.sizes file_path' size hentry file hfile'
        · exact h

theorem Steady.readBlock (h : s.Steady) (file_path : Path) (offset length : Nat) :
    (s.readBlock config file_path offset length).2.Steady := by
  have htrack : (s.track file_path offset).Steady := ⟨h.mappable, h.sizes⟩
  have hentry := htrack.getMmapEntry file_path
  rw [DiskState.readBlock]
  split
  · split
    · next heq =>
      rw [heq] at hentry
      exact hentry
    · next heq =>
      rw [heq] at hentry
      exact hentry
  · exact htrack

theorem Steady.step {e : Event Path} (h : s.Steady) (hkeep : s.KeepsSizes e) :
    (s.step config e).Steady := by
  cases e with
  | read file_path offset length => exact h.readBlock file_path offset length
  | write file_path offset data =>
    obtain ⟨old, hold, hle⟩ := hkeep
    refine ⟨h.mappable, fun file_path' size hentry file hfile => ?_⟩
    simp only [DiskState.step, Function.update_apply] at hfile hentry
    split at hfile
    · next heq =>
      rw [hold, Option.getD_some] at hfile
      have hend : writeEnd offset data ≤ old.length := by
        rw [writeEnd]
        split <;> omega
      rw [← Option.some.inj hfile, length_pwrite, Nat.max_eq_left hend]
      exact h.sizes file_path' size hentry old (heq ▸ hold)
    · exact h.sizes file_path' size hentry file hfile
  | warmup file_path => exact h.getMmapEntry file_path
  | evict file_path =>
    refine ⟨h.mappable, fun file_path' size hentry => h.sizes file_path' size ?_⟩
    simp only [DiskState.step, Dict.get?_erase] at hentry
    split at hentry
    · exact absurd hentry (by simp)
    · exact hentry
  | permit file_path mappable =>
    refine ⟨fun file_path' => ?_, h.sizes⟩
    simp only [DiskState.step, Function.update_apply]
    split
    · exact hkeep
    · exact h.mappable file_path'

theorem Steady.served (h : s.Steady) (hmmap : config.use_mmap = true) (e : Event Path) :
    s.Served config e := by
  cases e with
  | read file_path offset length =>
    intro file hfile
    rw [Serves, mappedSize, if_pos hmmap]
    cases hentry : s.mmap_cache.get? file_path with
    | some size =>
      have hsize := h.sizes file_path size hentry file hfile
      exact .inr (.inr (hsize ▸ Nat.min_le_left _ _))
    | none =>
      rw [Option.none_or]
      by_cases hempty : file.length = 0
      · rw [if_neg fun h => h.1 hempty]
        exact .inl (by omega)
      · rw [if_pos ⟨hempty, h.mappable file_path⟩]
        exact .inr (.inr (Nat.min_le_left _ _))
  | write | warmup | evict | permit => exact trivial

/-- With mappings, as long as no file grows, all reads return exactly what they have been asked
for. -/
theorem reads_exact_of_keepsSizes (hmmap : config.use_mmap = true) (h : s.Steady)
    {history : List (Event Path)}
    (hkeep : StepsMeet (DiskState.step config) KeepsSizes s history) :
    StepsMeet (DiskState.step config) (fun s e => s.Exact config e) s history :=
  hkeep.imp_of_invariant (fun _ _ hs hkeep => hs.step hkeep)
    (fun _ e hs _ => (exact_iff e).mpr (hs.served hmmap e)) h

end Steady

end DiskState

end Ccbt.Storage
