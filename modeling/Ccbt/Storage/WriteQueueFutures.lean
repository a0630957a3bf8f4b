import Ccbt.Storage.FileAssembler
import Ccbt.Storage.WriteQueueSafety
import Ccbt.Transition.Run

/-!
# What becomes of the futures of the write queue

No event of the disk manager loses a future or changes one that is done, and a future gets a result
only when the request has been written (`follows_step`). Here nothing is asked of the run.
-/

namespace Ccbt.Storage

open Python

namespace WriteQueue

variable {Path : Type} [DecidableEq Path] {config : QueueConfig} {s s' : WriteQueue Path}

/-- What becomes of the futures in a step: none of them is lost, one that is done stays as it is,
and a result is that of a request which has been written. -/
structure Follows (s s' : WriteQueue Path) : Prop where
  created : s.created ≤ s'.created
  done : ∀ n < s.created, s.futures n ≠ .pending → s'.futures n = s.futures n
  written : ∀ n, s.OnDisk n → s'.OnDisk n
  result : ∀ n, s'.futures n = .result → s.futures n = .result ∨ s'.OnDisk n

namespace Follows

theorem same (hcreated : s'.created = s.created) (hfutures : s'.futures = s.futures)
    (hwritten : ∃ more, s'.written = s.written ++ more) : Follows s s' where
  created := hcreated.ge
  done n _ _ := congrFun hfutures n
  written n hdisk := by
    obtain ⟨more, hmore⟩ := hwritten
    rw [OnDisk, hmore, List.map_append]
    exact List.mem_append_left _ hdisk
  result n hresult := .inl (hfutures ▸ hresult)

theorem refl (s : WriteQueue Path) : Follows s s := same rfl rfl ⟨[], (List.append_nil _).symm⟩

/-- Futures that are done together, with a result only if their requests have been written. -/
theorem settle {numbers : List Nat} {outcome : FutureState} (hcreated : s'.created = s.created)
    (hfutures : s'.futures = (s.settle numbers outcome).futures)
    (hwritten : ∃ more, s'.written = s.written ++ more ∧
      (outcome = .result → ∀ n ∈ numbers, n ∈ more.map QueuedWrite.future)) : Follows s s' := by
  obtain ⟨more, hmore, hnumbers⟩ := hwritten
  have hdisk : ∀ n, s'.OnDisk n ↔ s.OnDisk n ∨ n ∈ more.map QueuedWrite.future := by
    intro n
    rw [OnDisk, hmore, List.map_append, List.mem_append]
    rfl
  have hold : ∀ n, s'.futures n =
      if s.futures n = .pending ∧ n ∈ numbers then outcome else s.futures n :=
    fun n => congrFun hfutures n
  refine ⟨hcreated.ge, fun n _ hdone => ?_, fun n hn => (hdisk n).mpr (.inl hn), fun n hres => ?_⟩
  · rw [hold, if_neg fun h => hdone h.1]
  · rw [hold] at hres
    split at hres
    · next hin => exact .inr ((hdisk n).mpr (.inr (hnumbers hres n hin.2)))
    · exact .inl hres

/-- A new future. -/
theorem issue {outcome : FutureState} (hcreated : s'.created = s.created + 1)
    (hfutures : s'.futures = Function.update s.futures s.created outcome)
    (houtcome : outcome ≠ .result) (hwritten : s'.written = s.written) : Follows s s' := by
  refine ⟨by omega, fun n hn _ => ?_, fun n hdisk => ?_, fun n hres => ?_⟩
  · rw [hfutures, Function.update_of_ne (Nat.ne_of_lt hn)]
  · rw [OnDisk, hwritten]
    exact hdisk
  · rw [hfutures] at hres
    by_cases hn : n = s.created
    · rw [hn, Function.update_self] at hres
      exact absurd hres houtcome
    · rw [Function.update_of_ne hn] at hres
      exact .inl hres

end Follows

theorem writeBlock_spec (config : QueueConfig) (s : WriteQueue Path) (file_path : Path)
    (offset : Nat) (data : Bytes) (priority : Int) (now : Time) :
    ∃ outcome, outcome ≠ .result ∧
      (s.writeBlock config file_path offset data priority now).created = s.created + 1 ∧
      (s.writeBlock config file_path offset data priority now).futures =
        Function.update s.futures s.created outcome ∧
      (s.writeBlock config file_path offset data priority now).written = s.written := by
  rw [writeBlock]
  split
  · exact ⟨.pending, by decide, rfl, rfl, rfl⟩
  · exact ⟨.exception .queue_full, by decide, rfl, rfl, rfl⟩

/-- What is flushed because of its age leaves the futures alone. -/
theorem flushStale_spec (stale : List Path) (s : WriteQueue Path) :
    (flushStale stale s).created = s.created ∧ (flushStale stale s).futures = s.futures ∧
      (flushStale stale s).written = s.written := by
  induction stale generalizing s with
  | nil => exact ⟨rfl, rfl, rfl⟩
  | cons file_path stale ih =>
    rw [flushStale]
    split
    · exact ih (s.popRequests file_path)
    · exact ⟨rfl, rfl, rfl⟩

theorem follows_batcherGet (now : Time) : Follows s (s.batcherGet config now) := by
  rw [batcherGet]
  split
  · dsimp only
    split <;> exact .same rfl rfl ⟨[], (List.append_nil _).symm⟩
  · exact .refl s

theorem follows_batcherTimeout (now : Time) : Follows s (s.batcherTimeout now) := by
  rw [batcherTimeout]
  split
  · obtain ⟨hcreated, hfutures, hwritten⟩ := flushStale_spec (s.staleFiles now) s
    exact .same hcreated hfutures ⟨[], hwritten.trans (List.append_nil _).symm⟩
  · exact .refl s

theorem follows_complete {batch : List (QueuedWrite Path)} (hcreated : s'.created = s.created)
    (hfutures : s'.futures = (s.complete batch).futures)
    (hwritten : s'.written = s.written ++ batch) : Follows s s' :=
  .settle hcreated hfutures ⟨batch, hwritten, fun _ _ hin => hin⟩

theorem follows_batcherResume (error : Bool) : Follows s (s.batcherResume error) := by
  rw [batcherResume]
  split
  · next file_path batch stale hbatcher =>
    split
    · split <;> exact .same rfl rfl ⟨[], (List.append_nil _).symm⟩
    · split
      · exact follows_complete rfl rfl rfl
      · next stale =>
        obtain ⟨hcreated, hfutures, hwritten⟩ := flushStale_spec stale (s.complete batch)
        exact follows_complete hcreated hfutures hwritten
  · exact .refl s

theorem follows_batcherCancel (done : Bool) : Follows s (s.batcherCancel done) := by
  rw [batcherCancel]
  split
  · exact .settle rfl rfl ⟨[], (List.append_nil _).symm, fun h => by cases h⟩
  · next file_path batch stale hstop hbatcher =>
    cases done with
    | true => exact .settle rfl rfl ⟨batch, rfl, fun h => by cases h⟩
    | false => exact .settle rfl rfl ⟨[], (List.append_nil _).symm, fun h => by cases h⟩
  · exact .same rfl rfl ⟨[], (List.append_nil _).symm⟩
  · exact .refl s

theorem follows_stopResume (i : Nat) (error : Bool) : Follows s (s.stopResume i error) := by
  rw [stopResume]
  split
  · split
    · exact .refl s
    · dsimp only
      split
      · exact .same rfl rfl ⟨[], (List.append_nil _).symm⟩
      · exact follows_complete rfl rfl rfl
  · split
    · exact .refl s
    · cases error with
      | true => exact .same rfl rfl ⟨[], (List.append_nil _).symm⟩
      | false => exact follows_complete rfl rfl rfl
  · exact .refl s

/-- Every event of the disk manager leaves the futures that are done as they are. -/
theorem follows_step (config : QueueConfig) (s : WriteQueue Path) (e : Event Path) :
    Follows s (s.step config e) := by
  cases e with
  | write_block file_path offset data priority now =>
    obtain ⟨outcome, houtcome, hcreated, hfutures, hwritten⟩ :=
      writeBlock_spec config s file_path offset data priority now
    exact .issue hcreated hfutures houtcome hwritten
  | batcherGet now => exact follows_batcherGet now
  | batcherTimeout now => exact follows_batcherTimeout now
  | batcherResume error => exact follows_batcherResume error
  | batcherWake =>
    rw [step, batcherWake]
    split
    · exact .same rfl rfl ⟨[], (List.append_nil _).symm⟩
    · exact .refl s
  | batcherCancel done => exact follows_batcherCancel done
  | stop =>
    rw [step, stop]
    split
    · exact .same rfl rfl ⟨[], (List.append_nil _).symm⟩
    · exact .refl s
  | stopFlush =>
    rw [step, stopFlush]
    split
    · exact .same rfl rfl ⟨[], (List.append_nil _).symm⟩
    · exact .refl s
  | stopResume i error => exact follows_stopResume i error
  | stopTimeout done =>
    rw [step, stopTimeout]
    split
    · exact .same rfl rfl ⟨_, rfl⟩
    · exact .refl s
  | stopDrain =>
    rw [step, stopDrain]
    split
    · exact .settle rfl rfl ⟨[], (List.append_nil _).symm, fun h => by cases h⟩
    · exact .refl s
  | stopFinish =>
    rw [step, stopFinish]
    split
    · exact .same rfl rfl ⟨[], (List.append_nil _).symm⟩
    · exact .refl s

end WriteQueue

/-!
## Which pieces are marked as written: `write_piece_to_file` beside the disk manager

`write_piece_to_file` gives the segments of a piece to the write queue, sleeps for ten milliseconds
and adds the piece to `written_pieces`, whatever has become of the futures. Calls for any pieces run
beside the batcher, the executor and `stop`. What they await before the first segment, the storing
of Xet chunks included, are events of the disk manager.
-/

open Transition

/-- A call of `write_piece_to_file` that has found its segments. -/
inductive PieceCall
  /-- The segments that are left to write; without any it sleeps. -/
  | running (piece_index : Nat) (piece_data : Bytes) (segments : List FileSegment)
  | ended

/-- The assembler and its disk manager, with the futures that have been got for segments. -/
structure Assembling where
  disk_io : WriteQueue PurePath := {}
  written_pieces : List Nat := []
  calls : List PieceCall := []
  /-- The piece and the number of the future, for each segment that has been given to the queue. -/
  writes : List (Nat × Nat) := []

/-- What can happen next. -/
inductive AssemblyEvent
  | disk (e : WriteQueue.Event PurePath)
  | write_piece_to_file (piece_index : Nat) (piece_data : Bytes)
  /-- A call writes its next segment; `error` if its directory cannot be made. -/
  | writeSegment (call : Nat) (error : Bool) (now : Time)
  /-- A call has slept. -/
  | wake (call : Nat)

namespace Assembling

variable (config : QueueConfig) (segments : Nat → List FileSegment)

def step (s : Assembling) : AssemblyEvent → Assembling
  | .disk e => { s with disk_io := s.disk_io.step config e }
  | .write_piece_to_file piece_index piece_data =>
    if piece_index ∈ s.written_pieces ∨ segments piece_index = [] then s
    else { s with calls := s.calls ++ [.running piece_index piece_data (segments piece_index)] }
  | .writeSegment call error now =>
    match s.calls[call]? with
    | some (.running piece_index piece_data (segment :: rest)) =>
      if error then { s with calls := s.calls.set call .ended }
      else { s with
        disk_io := s.disk_io.writeBlock config (purePath segment.file_path)
          segment.start_offset.toNat piece_data 0 now
        calls := s.calls.set call (.running piece_index piece_data rest)
        writes := s.writes ++ [(piece_index, s.disk_io.created)] }
    | _ => s
  | .wake call =>
    match s.calls[call]? with
    | some (.running piece_index _ []) => { s with
        written_pieces :=
          if piece_index ∈ s.written_pieces then s.written_pieces
          else piece_index :: s.written_pieces
        calls := s.calls.set call .ended }
    | _ => s

/-- Every future that has been got for a segment of a written piece is done without an
exception. -/
def Completed (s : Assembling) : Prop :=
  ∀ write ∈ s.writes, write.1 ∈ s.written_pieces → s.disk_io.futures write.2 = .result

/-- A call wakes up only when the futures for its piece are all done without an exception, and
gives nothing to the queue when its piece has been written. -/
def Awaited (s : Assembling) : AssemblyEvent → Prop
  | .writeSegment call error _ =>
    ∀ piece_index piece_data segment rest,
      s.calls[call]? = some (.running piece_index piece_data (segment :: rest)) →
        error = true ∨ piece_index ∉ s.written_pieces
  | .wake call =>
    ∀ piece_index piece_data, s.calls[call]? = some (.running piece_index piece_data []) →
      ∀ write ∈ s.writes, write.1 = piece_index → s.disk_io.futures write.2 = .result
  | _ => True

end Assembling

namespace Assembling

variable {config : QueueConfig} {segments : Nat → List FileSegment} {s : Assembling}
  {e : AssemblyEvent} {es : List AssemblyEvent}

/-- The futures have been created, and those with a result have their data on disk. -/
structure Sound (s : Assembling) : Prop where
  created : ∀ write ∈ s.writes, write.2 < s.disk_io.created
  on_disk : ∀ n, s.disk_io.futures n = .result → s.disk_io.OnDisk n

theorem Sound.new : Sound {} where
  created _ hin := absurd hin List.not_mem_nil
  on_disk _ h := by cases h

/-- The disk manager goes on, and the futures are those of before. -/
theorem Sound.follow (h : Sound s) {s' : Assembling} (hwrites : s'.writes = s.writes)
    (hfollows : s.disk_io.Follows s'.disk_io) : Sound s' where
  created write hin := by
    rw [hwrites] at hin
    exact (h.created write hin).trans_le hfollows.created
  on_disk n hresult := by
    rcases hfollows.result n hresult with hold | hnew
    · exact hfollows.written n (h.on_disk n hold)
    · exact hnew

/-- A segment is given to the queue. -/
theorem Sound.issue (h : Sound s) {disk_io : WriteQueue PurePath} {piece_index : Nat}
    {calls : List PieceCall} (hcreated : disk_io.created = s.disk_io.created + 1)
    (hfollows : s.disk_io.Follows disk_io) :
    Sound { s with
      disk_io := disk_io, calls := calls
      writes := s.writes ++ [(piece_index, s.disk_io.created)] } := by
  have hqueued : Sound { s with disk_io := disk_io } := h.follow rfl hfollows
  refine ⟨fun write hin => ?_, hqueued.on_disk⟩
  show write.2 < disk_io.created
  rw [hcreated]
  rcases List.mem_append.mp hin with hold | hnew
  · exact (h.created write hold).trans (Nat.lt_succ_self _)
  · rw [List.mem_singleton.mp hnew]
    exact Nat.lt_succ_self _

theorem Sound.step (h : Sound s) (e : AssemblyEvent) : Sound (s.step config segments e) := by
  cases e with
  | disk e => exact h.follow rfl (WriteQueue.follows_step config s.disk_io e)
  | write_piece_to_file piece_index piece_data =>
    rw [Assembling.step]
    split
    · exact h
    · exact h.follow rfl (.refl s.disk_io)
  | writeSegment call error now =>
    rw [Assembling.step]
    split
    · next piece_index piece_data segment rest hcall =>
      split
      · exact h.follow rfl (.refl s.disk_io)
      · obtain ⟨outcome, houtcome, hcreated, hfutures, hwritten⟩ := WriteQueue.writeBlock_spec config
          s.disk_io (purePath segment.file_path) segment.start_offset.toNat piece_data 0 now
        have hfollows := WriteQueue.Follows.issue hcreated hfutures houtcome hwritten
        exact h.issue hcreated hfollows
    · exact h
  | wake call =>
    rw [Assembling.step]
    split
    · exact h.follow rfl (.refl s.disk_io)
    · exact h

/-- Segments that are written stay so, whatever the disk manager does. -/
theorem Completed.follow (h : s.Completed) (hsound : Sound s) {s' : Assembling}
    (hwrites : s'.writes = s.writes) (hwritten : s'.written_pieces = s.written_pieces)
    (hfollows : s.disk_io.Follows s'.disk_io) : s'.Completed := by
  intro write hin hpiece
  rw [hwrites] at hin
  rw [hwritten] at hpiece
  have hresult := h write hin hpiece
  rw [hfollows.done write.2 (hsound.created write hin) (by rw [hresult]; decide), hresult]

/-- A segment that is given to the queue has not been written yet. -/
theorem completed_writeSegment_iff (hsound : Sound s) (h : s.Completed)
    {disk_io : WriteQueue PurePath} {piece_index : Nat} {calls : List PieceCall}
    {outcome : FutureState} (houtcome : outcome ≠ .result)
    (hcreated : disk_io.created = s.disk_io.created + 1)
    (hfutures : disk_io.futures = Function.update s.disk_io.futures s.disk_io.created outcome)
    (hwritten : disk_io.written = s.disk_io.written) :
    Completed { s with
        disk_io := disk_io, calls := calls
        writes := s.writes ++ [(piece_index, s.disk_io.created)] } ↔
      piece_index ∉ s.written_pieces := by
  have hnew : disk_io.futures s.disk_io.created = outcome := by
    rw [hfutures, Function.update_self]
  constructor
  · intro hafter hpiece
    have hresult := hafter (piece_index, s.disk_io.created)
      (List.mem_append_right _ (List.mem_singleton_self _)) hpiece
    exact houtcome (hnew.symm.trans hresult)
  · intro hpiece write hin hmem
    rcases List.mem_append.mp hin with hold | hlast
    · have hqueued : Completed { s with disk_io := disk_io } :=
        h.follow hsound rfl rfl (.issue hcreated hfutures houtcome hwritten)
      exact hqueued write hold hmem
    · rw [List.mem_singleton.mp hlast] at hmem
      exact absurd hmem hpiece

/-- One more piece is written. -/
theorem completed_wake_iff (h : s.Completed) {piece_index : Nat} {calls : List PieceCall} :
    Completed { s with
        written_pieces :=
          if piece_index ∈ s.written_pieces then s.written_pieces
          else piece_index :: s.written_pieces
        calls := calls } ↔
      ∀ write ∈ s.writes, write.1 = piece_index → s.disk_io.futures write.2 = .result := by
  have hmem : ∀ i, i ∈ (if piece_index ∈ s.written_pieces then s.written_pieces
      else piece_index :: s.written_pieces) ↔ i = piece_index ∨ i ∈ s.written_pieces := by
    intro i
    split
    · next hin => exact ⟨.inr, fun hi => hi.elim (fun heq => heq ▸ hin) id⟩
    · exact List.mem_cons
  constructor
  · intro hafter write hin heq
    exact hafter write hin ((hmem _).mpr (.inl heq))
  · intro hpiece write hin hwritten
    rcases (hmem _).mp hwritten with heq | hold
    · exact hpiece write hin heq
    · exact h write hin hold

theorem completed_step_iff (hsound : Sound s) (h : s.Completed) :
    (s.step config segments e).Completed ↔ s.Awaited e := by
  cases e with
  | disk e =>
    exact iff_of_true (h.follow hsound rfl rfl (WriteQueue.follows_step config s.disk_io e)) trivial
  | write_piece_to_file piece_index piece_data =>
    refine iff_of_true ?_ trivial
    rw [step]
    split
    · exact h
    · exact h.follow hsound rfl rfl (.refl s.disk_io)
  | writeSegment call error now =>
    rw [step, Awaited]
    split
    · next piece_index piece_data segment rest hcall =>
      have hone : (∀ i data seg more, s.calls[call]? = some (.running i data (seg :: more)) →
          error = true ∨ i ∉ s.written_pieces) ↔ error = true ∨ piece_index ∉ s.written_pieces := by
        constructor
        · exact fun hall => hall piece_index piece_data segment rest hcall
        · intro hthis i data seg more hget
          obtain ⟨rfl, -⟩ : piece_index = i ∧ piece_data = data ∧ segment = seg ∧ rest = more := by
            simpa using hcall.symm.trans hget
          exact hthis
      rw [hone]
      cases error with
      | true => exact iff_of_true (h.follow hsound rfl rfl (.refl s.disk_io)) (.inl rfl)
      | false =>
        obtain ⟨outcome, houtcome, hcreated, hfutures, hwritten⟩ := WriteQueue.writeBlock_spec config
          s.disk_io (purePath segment.file_path) segment.start_offset.toNat piece_data 0 now
        rw [if_neg Bool.false_ne_true, or_iff_right Bool.false_ne_true]
        exact completed_writeSegment_iff hsound h houtcome hcreated hfutures hwritten
    · next hnone =>
      exact iff_of_true h fun i data seg more hget => absurd hget (hnone i data seg more)
  | wake call =>
    rw [step, Awaited]
    split
    · next piece_index piece_data hcall =>
      rw [completed_wake_iff h]
      constructor
      · intro hpiece i data hget
        obtain ⟨rfl, -⟩ : piece_index = i ∧ piece_data = data := by
          simpa using hcall.symm.trans hget
        exact hpiece
      · exact fun hall => hall piece_index piece_data hcall
    · next hnone => exact iff_of_true h fun i data hget => absurd hget (hnone i data)

/-- However the calls, the batcher and the errors of the disk follow each other: the pieces that are
marked have completed in every state of a run, if and only if every call that wakes up finds the
futures of its piece done without an exception, and no segment of a marked piece is written. -/
theorem always_completed_iff (config : QueueConfig) (segments : Nat → List FileSegment)
    (es : List AssemblyEvent) : Always (step config segments) Completed {} es ↔
      StepsMeet (step config segments) Awaited {} es := by
  have hgood : ∀ s, Sound s ∧ Completed s → Completed s := fun _ h => h.2
  apply always_iff_stepsMeet_of hgood
  · exact fun _ _ h hcompleted => (completed_step_iff h.1 h.2).mp hcompleted
  · exact fun _ e h hawaited => ⟨h.1.step e, (completed_step_iff h.1 h.2).mpr hawaited⟩
  · exact ⟨Sound.new, fun _ hin => absurd hin List.not_mem_nil⟩

/-- In such a run the data of every marked piece are on disk. -/
theorem on_disk_of_awaited (h : StepsMeet (step config segments) Awaited {} es) :
    ∀ write ∈ (run (step config segments) {} es).writes,
      write.1 ∈ (run (step config segments) {} es).written_pieces →
        (run (step config segments) {} es).disk_io.OnDisk write.2 := by
  have hstep : ∀ s e, Sound s → Sound (step config segments s e) := fun _ e hs => hs.step e
  have hsound := always_iff_take.mp (always_of_invariant hstep Sound.new es) es.length
  have hcompleted := always_iff_take.mp ((always_completed_iff config segments es).mpr h) es.length
  rw [List.take_length] at hsound hcompleted
  exact fun write hin hpiece => hsound.on_disk write.2 (hcompleted write hin hpiece)

/-- A piece in one file, given to the queue and marked before the batcher has done anything. -/
def hastyRun : List AssemblyEvent :=
  [.write_piece_to_file 0 [1, 2, 3, 4], .writeSegment 0 false 0, .wake 0]

/-- The piece is marked, and its future is pending. -/
theorem not_completed_hastyRun :
    ¬Always (step {} (pieceSegments unalignedTorrent [])) Completed {} hastyRun := by
  intro h
  have hend := always_iff_take.mp h 3 (0, 0) (by decide +kernel) (by decide +kernel)
  have hpending : (run (step {} (pieceSegments unalignedTorrent [])) {}
      (hastyRun.take 3)).disk_io.futures 0 = .pending := by decide +kernel
  rw [hpending] at hend
  cases hend

end Assembling

end Ccbt.Storage
