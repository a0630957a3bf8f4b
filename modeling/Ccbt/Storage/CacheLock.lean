import Ccbt.Concurrency.EventLoop
import Ccbt.Storage.BlockReads

/-!
# The lock of the mmap cache

`read_block` of `ccbt/storage/disk_io.py` as a coroutine of an event loop, with the blocking locks
`cache_lock` and `_read_pattern_lock`. Where it finds or makes a mapping it awaits the executor
while it holds `cache_lock`. So calls that run concurrently all come to their end in every order of
turns if and only if none of them gets as far, or there is one only (`readsComplete_iff`).
-/

namespace Ccbt.Storage

open Python Concurrency Coroutine Transition

inductive LockName
  | cache_lock
  | _read_pattern_lock
  deriving DecidableEq

/-- What a read raises: an error of its own, or that of the wait for the executor. -/
inductive ReadException
  | read (error : ReadError)
  | interrupted
  deriving DecidableEq

variable {Path : Type} [DecidableEq Path]

/-- An operation on the disk manager; when a wait is over, its input tells whether it raises. -/
abbrev DiskCode (Path : Type) [DecidableEq Path] (α : Type) :=
  Coroutine LockName Point Bool (DiskState Path) ReadException α

def runInExecutor (f : DiskState Path → Except ReadError Bytes) : DiskCode Path Bytes :=
  atomic .awaits fun raises s =>
    (if raises then .error .interrupted else (f s).mapError .read, s)

/-- The update of the read pattern. -/
def updatePattern (file_path : Path) (offset : Nat) : DiskCode Path Unit :=
  withLock ._read_pattern_lock (atomic .runs fun _ s => (.ok (), s.track file_path offset))

/-- The part of `read_block` under `cache_lock`: the data, if there is a mapping. -/
def readCached (file_path : Path) (offset length : Nat) : DiskCode Path (Option Bytes) :=
  withLock .cache_lock do
    let cache_entry ← atomic .runs fun _ s =>
      (.ok (s.getMmapEntry file_path).1, (s.getMmapEntry file_path).2)
    match cache_entry with
    | some size => do
      let data ← runInExecutor fun s => .ok (s.readMapping file_path size offset length)
      pure (some data)
    | none => pure none

/-- The part of `read_block` that is done if mappings are used. -/
def readMmap (config : DiskConfig) (file_path : Path) (offset length : Nat) :
    DiskCode Path (Option Bytes) :=
  if config.use_mmap then readCached file_path offset length else pure none

/-- The fallback of `read_block`. -/
def readFallback (config : DiskConfig) (file_path : Path) (offset length : Nat) :
    DiskCode Path Bytes := do
  let read_ahead_size ← withLock ._read_pattern_lock (atomic .runs fun _ s =>
    (.ok (s.getReadAheadSize config file_path offset length), s))
  runInExecutor fun s => s.readBlockSync file_path offset (max length read_ahead_size)

/-- `read_block`. -/
def readBlockCode (config : DiskConfig) (file_path : Path) (offset length : Nat) :
    DiskCode Path Bytes := do
  updatePattern file_path offset
  let reply ← readMmap config file_path offset length
  match reply with
  | some data => pure data
  | none => readFallback config file_path offset length

structure ReadCall (Path : Type) where
  file_path : Path
  offset : Nat
  length : Nat

def ReadCall.task (config : DiskConfig) (call : ReadCall Path) : DiskCode Path Unit := do
  let _ ← readBlockCode config call.file_path call.offset call.length

/-- The calls, scheduled together as by `asyncio.gather`. -/
def gatherReads (config : DiskConfig) (s : DiskState Path) (calls : List (ReadCall Path)) :
    EventLoop LockName Bool (DiskState Path) ReadException :=
  EventLoop.start (calls.map (ReadCall.task config)) s

/-- In no order of turns the loop freezes, and calls that have had turns enough have ended. -/
def ReadsComplete (config : DiskConfig) (s : DiskState Path) (calls : List (ReadCall Path)) :
    Prop :=
  ∀ es, (run EventLoop.step (gatherReads config s calls) es).frozen = false ∧
    ((∀ n < calls.length, 3 ≤ (es.map Prod.fst).count n) →
      ∀ t ∈ (run EventLoop.step (gatherReads config s calls) es).tasks, t.code.IsDone)

/-- There is a mapping of the file, or the file can be mapped: it is there, not empty, and the
operating system allows it. -/
def DiskState.Mapped (s : DiskState Path) (file_path : Path) : Prop :=
  (∃ size, s.mmap_cache.get? file_path = some size) ∨
    ∃ file, s.files file_path = some file ∧ file ≠ [] ∧ s.mappable file_path = true

/-- These are the files that `_get_mmap_entry` gives a mapping for. -/
theorem DiskState.mapped_iff {s : DiskState Path} {file_path : Path} :
    s.Mapped file_path ↔ ∃ size, (s.getMmapEntry file_path).1 = some size := by
  rw [Mapped, getMmapEntry]
  cases s.mmap_cache.get? file_path with
  | some size => simp
  | none =>
    cases s.files file_path with
    | none => simp
    | some file =>
      by_cases hempty : file = []
      · simp [hempty]
      · by_cases hmap : s.mappable file_path = true <;> simp [hempty, hmap]

section Alone

theorem finish_readCached (s : DiskState Path) (file_path : Path) (offset length : Nat) :
    (readCached file_path offset length).finish false s =
      (.ok ((s.getMmapEntry file_path).1.map fun size =>
        (s.getMmapEntry file_path).2.readMapping file_path size offset length),
          (s.getMmapEntry file_path).2) := by
  rw [readCached, finish_withLock]
  show Coroutine.finish false (Coroutine.bind (done (.ok (s.getMmapEntry file_path).1)) _) _ = _
  cases (s.getMmapEntry file_path).1 with
  | some size => rfl
  | none => rfl

/-- By itself, with nothing raised by the executor, a call does what `readBlock` says. -/
theorem finish_readBlockCode (config : DiskConfig) (s : DiskState Path) (file_path : Path)
    (offset length : Nat) : (readBlockCode config file_path offset length).finish false s =
      ((s.readBlock config file_path offset length).1.mapError .read,
        (s.readBlock config file_path offset length).2) := by
  rw [readBlockCode, DiskState.readBlock]
  have htrack : (updatePattern file_path offset : DiskCode Path Unit).finish false s =
      (.ok (), s.track file_path offset) := rfl
  rw [finish_bind _ htrack, readMmap]
  by_cases hmmap : config.use_mmap = true
  · rw [if_pos hmmap, if_pos hmmap,
      finish_bind _ (finish_readCached (s.track file_path offset) file_path offset length)]
    cases (s.track file_path offset).getMmapEntry file_path with
    | mk cache_entry s' =>
      cases cache_entry with
      | some size => rfl
      | none => rfl
  · rw [if_neg hmmap, if_neg hmmap]
    rfl

end Alone

section Orderly

variable {hold : Prop} {Inv : DiskState Path → Prop} {held : List LockName} {config : DiskConfig}
  {file_path : Path} {offset length : Nat}

theorem orderly_runInExecutor (hheld : hold ∨ held = [])
    (f : DiskState Path → Except ReadError Bytes) :
    (runInExecutor f).Orderly hold Inv held held :=
  orderly_atomic (fun _ => hheld) fun _ _ hs => hs

theorem orderly_updatePattern (hheld : ._read_pattern_lock ∉ held)
    (htrack : ∀ s, Inv s → Inv (s.track file_path offset)) :
    (updatePattern file_path offset).Orderly hold Inv held held :=
  orderly_withLock hheld (orderly_atomic (fun h => absurd h (by decide)) fun _ s hs => htrack s hs)

/-- Where there is a mapping the executor is awaited under the lock. -/
theorem orderly_readCached (hentry : ∀ s, Inv s → Inv (s.getMmapEntry file_path).2)
    (hmiss : hold ∨ ∀ s, Inv s → ¬s.Mapped file_path) :
    (readCached file_path offset length).Orderly hold Inv [] [] := by
  refine orderly_withLock List.not_mem_nil (orderly_atomic_bind (fun h => absurd h (by decide))
    (fun _ s hs => hentry s hs) fun i s cache_entry hs hresult => ?_)
  cases cache_entry with
  | some size =>
    rcases hmiss with hhold | hmiss
    · exact orderly_bind (orderly_runInExecutor (.inl hhold) _) fun _ => rfl
    · have heq : (s.getMmapEntry file_path).1 = some size := Except.ok.inj hresult
      exact (hmiss s hs (DiskState.mapped_iff.mpr ⟨size, heq⟩)).elim
  | none => rfl

theorem orderly_readFallback : (readFallback config file_path offset length).Orderly hold Inv [] []
    :=
  orderly_bind (orderly_withLock List.not_mem_nil
    (orderly_atomic (fun h => absurd h (by decide)) fun _ _ hs => hs))
      fun _ => orderly_runInExecutor (.inr rfl) _

theorem orderly_task {call : ReadCall Path}
    (htrack : ∀ s, Inv s → Inv (s.track call.file_path call.offset))
    (hentry : ∀ s, Inv s → Inv (s.getMmapEntry call.file_path).2)
    (hmiss : config.use_mmap = false ∨ hold ∨ ∀ s, Inv s → ¬s.Mapped call.file_path) :
    (call.task config).Orderly hold Inv [] [] := by
  have hmmap : (readMmap config call.file_path call.offset call.length).Orderly hold Inv [] [] := by
    rw [readMmap]
    split
    · next hmmap =>
      refine orderly_readCached hentry (hmiss.resolve_left ?_)
      rw [hmmap]
      decide
    · rfl
  refine orderly_bind (orderly_bind (orderly_updatePattern List.not_mem_nil htrack) fun _ =>
    orderly_bind hmmap fun reply => ?_) fun _ => rfl
  cases reply with
  | some data => rfl
  | none => exact orderly_readFallback

theorem awaitsAtMost_runInExecutor (f : DiskState Path → Except ReadError Bytes) :
    (runInExecutor f).AwaitsAtMost 1 := ⟨Nat.one_pos, fun _ _ => trivial⟩

theorem awaitsAtMost_readCached :
    (readCached file_path offset length : DiskCode Path _).AwaitsAtMost 1 := by
  refine awaitsAtMost_withLock fun i s => ?_
  show (Coroutine.bind (done (.ok (s.getMmapEntry file_path).1)) _).AwaitsAtMost 1
  cases (s.getMmapEntry file_path).1 with
  | some size =>
    show ((runInExecutor fun s => .ok (s.readMapping file_path size offset length)) >>=
      fun data => pure (some data)).AwaitsAtMost 1
    exact awaitsAtMost_bind (n := 0) (awaitsAtMost_runInExecutor _) fun _ => trivial
  | none => trivial

theorem awaitsAtMost_task (call : ReadCall Path) : (call.task config).AwaitsAtMost 2 := by
  have hupdate : (updatePattern call.file_path call.offset : DiskCode Path Unit).AwaitsAtMost 0 :=
    fun _ _ => trivial
  have hmmap : (readMmap config call.file_path call.offset call.length).AwaitsAtMost 1 := by
    rw [readMmap]
    split
    · exact awaitsAtMost_readCached
    · trivial
  refine awaitsAtMost_bind (n := 0) (awaitsAtMost_bind hupdate fun _ =>
    awaitsAtMost_bind (n := 1) hmmap fun reply => ?_) fun _ => trivial
  cases reply with
  | some data => trivial
  | none =>
    refine awaitsAtMost_bind (m := 0) (awaitsAtMost_withLock ?_) fun _ =>
      awaitsAtMost_runInExecutor _
    exact fun _ _ => trivial

end Orderly

section Complete

variable {config : DiskConfig} {s : DiskState Path} {calls : List (ReadCall Path)}

/-- Where the tasks are orderly, all calls complete. -/
theorem readsComplete_of_orderly (hold : Prop) (Inv : DiskState Path → Prop) (hs : Inv s)
    (hsingle : hold → calls.length ≤ 1)
    (htrack : ∀ call ∈ calls, ∀ s, Inv s → Inv (s.track call.file_path call.offset))
    (hentry : ∀ call ∈ calls, ∀ s, Inv s → Inv (s.getMmapEntry call.file_path).2)
    (hmiss : ∀ call ∈ calls,
      config.use_mmap = false ∨ hold ∨ ∀ s, Inv s → ¬s.Mapped call.file_path) :
    ReadsComplete config s calls := by
  have hwell : (gatherReads config s calls).Well hold Inv := by
    refine EventLoop.Well.start hs (by rwa [List.length_map]) fun code hcode => ?_
    obtain ⟨call, hcall, rfl⟩ := List.mem_map.mp hcode
    exact orderly_task (htrack call hcall) (hentry call hcall) (hmiss call hcall)
  have hawaits : ∀ t ∈ (gatherReads config s calls).tasks, t.code.AwaitsAtMost 3 := by
    intro t ht
    rw [gatherReads, EventLoop.start, List.map_map] at ht
    obtain ⟨call, -, rfl⟩ := List.mem_map.mp ht
    exact ⟨by decide, fun _ _ => awaitsAtMost_task call⟩
  intro es
  refine ⟨(hwell.after es).running, fun hturns => hwell.isDone_run hawaits fun n hn => ?_⟩
  rw [EventLoop.length_tasks_run, gatherReads, EventLoop.start, List.length_map,
    List.length_map] at hn
  exact hturns n hn

/-- A file without a mapping changes nothing about the mappings. -/
theorem DiskState.getMmapEntry_snd_of_not_mapped {file_path : Path} (h : ¬s.Mapped file_path) :
    (s.getMmapEntry file_path).2 = s := by
  rw [Mapped, not_or] at h
  obtain ⟨hcache, hmap⟩ := h
  rw [getMmapEntry]
  cases hentry : s.mmap_cache.get? file_path with
  | some size => exact absurd ⟨size, hentry⟩ hcache
  | none =>
    cases hfile : s.files file_path with
    | none => rfl
    | some file =>
      dsimp only
      split
      · rfl
      · next hsome =>
        rw [if_neg fun h => hmap ⟨file, hfile, fun hnil => hsome (by rw [hnil]; rfl), h⟩]

@[simp] theorem DiskState.mapped_track {file_path file_path' : Path} {offset : Nat} :
    (s.track file_path offset).Mapped file_path' ↔ s.Mapped file_path' := Iff.rfl

theorem turn_updatePattern {taken : LockName → Bool} (h : taken ._read_pattern_lock = false)
    (i : Bool) (file_path : Path) (offset : Nat) :
    (updatePattern file_path offset : DiskCode Path Unit).turn taken i [] s =
      some (done (.ok ()), [], s.track file_path offset) := by
  rw [updatePattern, withLock, turn, if_neg (by simp [h])]
  rfl

/-- Where there is a mapping, the executor is awaited with the lock. -/
theorem turn_readMmap_of_mapped {taken : LockName → Bool} (h : taken .cache_lock = false) (i : Bool)
    (hmmap : config.use_mmap = true) {file_path : Path} (hmapped : s.Mapped file_path)
    (offset length : Nat) : ∃ effect next,
      (readMmap config file_path offset length).turn taken i [] s =
        some (step .awaits effect next, [.cache_lock], (s.getMmapEntry file_path).2) := by
  obtain ⟨size, hsize⟩ := DiskState.mapped_iff.mp hmapped
  rw [readMmap, if_pos hmmap, readCached, withLock, turn, if_neg (by simp [h])]
  show ∃ effect next, turn taken i (Coroutine.thenWith (Coroutine.bind
    (done (.ok (s.getMmapEntry file_path).1)) _) _) _ _ = _
  rw [hsize]
  exact ⟨_, _, rfl⟩

theorem turn_readMmap_of_taken {taken : LockName → Bool} (h : taken .cache_lock = true) (i : Bool)
    (hmmap : config.use_mmap = true) (file_path : Path) (offset length : Nat) :
    (readMmap config file_path offset length).turn taken i [] s = none := by
  rw [readMmap, if_pos hmmap, readCached, withLock, turn, if_pos (.inr h)]

/-- A call for a file with a mapping is suspended with the lock. -/
theorem turn_task_of_mapped {taken : LockName → Bool} (h : ∀ l, taken l = false) (i : Bool)
    (hmmap : config.use_mmap = true) {call : ReadCall Path} (hmapped : s.Mapped call.file_path) :
    ∃ code s', (call.task config).turn taken i [] s = some (code, [.cache_lock], s') := by
  have hupdate := turn_updatePattern (s := s) (h _) i call.file_path call.offset
  have hmapped' : (s.track call.file_path call.offset).Mapped call.file_path :=
    DiskState.mapped_track.mpr hmapped
  obtain ⟨effect, next, hcached⟩ :=
    turn_readMmap_of_mapped (h _) i hmmap hmapped' call.offset call.length
  have hblock := (turn_bind_ok (fun _ => readMmap config call.file_path call.offset call.length >>=
    fun reply => match reply with
      | some data => pure data
      | none => readFallback config call.file_path call.offset call.length) hupdate).trans
        (turn_bind_awaits _ hcached)
  exact ⟨_, _, turn_bind_awaits _ hblock⟩

/-- A call that finds the lock taken blocks the thread. -/
theorem turn_task_of_taken {taken : LockName → Bool} (h : taken .cache_lock = true)
    (hpattern : taken ._read_pattern_lock = false) (i : Bool) (hmmap : config.use_mmap = true)
    (call : ReadCall Path) : (call.task config).turn taken i [] s = none := by
  refine turn_bind_none _ ?_
  rw [readBlockCode, turn_bind_ok _ (turn_updatePattern hpattern i call.file_path call.offset)]
  exact turn_bind_none _ (turn_readMmap_of_taken h i hmmap _ _ _)

/-- Two calls of which one has a mapping freeze the loop. -/
theorem frozen_of_two {m n : Nat} (hmmap : config.use_mmap = true) (hn : n < calls.length)
    (hm : m < calls.length) (hne : n ≠ m) (hmapped : s.Mapped (calls[n]).file_path) :
    (run EventLoop.step (gatherReads config s calls) [(n, false), (m, false)]).frozen = true := by
  have htasks : ∀ k, (hk : k < calls.length) → (gatherReads config s calls).tasks[k]? =
      some ⟨((calls[k]).task config).scheduled, []⟩ := by
    intro k hk
    rw [gatherReads, EventLoop.start, List.map_map, List.getElem?_map,
      List.getElem?_eq_getElem hk]
    rfl
  have hfree : ∀ l, (gatherReads config s calls).taken n l = false := by
    intro l
    rw [EventLoop.taken, List.any_eq_false]
    intro t ht
    have hmem := List.mem_of_mem_eraseIdx ht
    rw [gatherReads, EventLoop.start, List.map_map] at hmem
    obtain ⟨call, -, rfl⟩ := List.mem_map.mp hmem
    simp
  obtain ⟨code, s', hturn⟩ := turn_task_of_mapped hfree false hmmap hmapped
  have hstep : (gatherReads config s calls).step (n, false) =
      ⟨(gatherReads config s calls).tasks.set n ⟨code, [.cache_lock]⟩, s', false⟩ :=
    EventLoop.step_of_resume rfl (htasks n hn) hturn
  rw [run_cons, run_cons, run_nil, hstep]
  refine EventLoop.frozen_step (t := ⟨((calls[m]).task config).scheduled, []⟩) ?_ ?_
  · rw [List.getElem?_set_ne hne]
    exact htasks m hm
  · refine turn_task_of_taken ?_ ?_ false hmmap calls[m]
    · -- the first call has the lock
      have hlength : n < (gatherReads config s calls).tasks.length :=
        (List.getElem?_eq_some_iff.mp (htasks n hn)).1
      rw [EventLoop.taken, List.any_eq_true]
      refine ⟨⟨code, [.cache_lock]⟩, List.mem_eraseIdx_iff_getElem?.mpr ⟨n, hne, ?_⟩, by simp⟩
      exact List.getElem?_set_self hlength
    · rw [EventLoop.taken, List.any_eq_false]
      intro t ht
      rcases List.mem_or_eq_of_mem_set (List.mem_of_mem_eraseIdx ht) with hmem | rfl
      · rw [gatherReads, EventLoop.start, List.map_map] at hmem
        obtain ⟨call, -, rfl⟩ := List.mem_map.mp hmem
        simp
      · simp

theorem complete_gatherReads_iff : ReadsComplete config s calls ↔
    config.use_mmap = false ∨ calls.length ≤ 1 ∨ ∀ call ∈ calls, ¬s.Mapped call.file_path := by
  constructor
  · intro h
    by_contra hcontra
    simp only [not_or, not_le, not_forall, not_not] at hcontra
    obtain ⟨hmmap, htwo, call, hcall, hmapped⟩ := hcontra
    obtain ⟨n, hn, rfl⟩ := List.getElem_of_mem hcall
    obtain ⟨m, hm, hne⟩ : ∃ m, m < calls.length ∧ n ≠ m := by
      by_cases hzero : n = 0
      · exact ⟨1, htwo, by omega⟩
      · exact ⟨0, by omega, hzero⟩
    have hrunning := (h [(n, false), (m, false)]).1
    rw [frozen_of_two (by simpa using hmmap) hn hm hne hmapped] at hrunning
    exact absurd hrunning (by decide)
  · rintro (hmmap | hsingle | hmiss)
    · exact readsComplete_of_orderly False (fun _ => True) trivial
        (fun h => h.elim) (fun _ _ _ _ => trivial) (fun _ _ _ _ => trivial)
        fun _ _ => .inl hmmap
    · exact readsComplete_of_orderly True (fun _ => True) trivial
        (fun _ => hsingle) (fun _ _ _ _ => trivial) (fun _ _ _ _ => trivial)
        fun _ _ => .inr (.inl trivial)
    · refine readsComplete_of_orderly False
        (fun s => ∀ call ∈ calls, ¬s.Mapped call.file_path) hmiss (fun h => h.elim) ?_ ?_
        fun call hcall => .inr (.inr fun _ hs => hs call hcall)
      · intro call _ s hs call' hcall'
        rw [DiskState.mapped_track]
        exact hs call' hcall'
      · intro call hcall s hs
        rw [DiskState.getMmapEntry_snd_of_not_mapped (hs call hcall)]
        exact hs

/-- Concurrent calls complete in every order of turns if and only if mappings are not used, or
there is at most one call, or none of the files has a mapping or gets one. -/
theorem readsComplete_iff (config : DiskConfig) (s : DiskState Path)
    (calls : List (ReadCall Path)) : ReadsComplete config s calls ↔
      config.use_mmap = false ∨ calls.length ≤ 1 ∨ ∀ call ∈ calls, ¬s.Mapped call.file_path :=
  complete_gatherReads_iff

/-- Two reads of a file of one octet, begun at the same time: the second one blocks the thread. -/
theorem twoReads_freeze :
    let s : DiskState Unit := ⟨fun _ => some [1], fun _ => true, Dict.empty, Dict.empty⟩
    (run EventLoop.step (gatherReads {} s [⟨(), 0, 1⟩, ⟨(), 0, 1⟩])
      [(0, false), (1, false)]).frozen = true := by
  decide

end Complete

end Ccbt.Storage
