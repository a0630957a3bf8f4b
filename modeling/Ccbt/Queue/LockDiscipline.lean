import Ccbt.Queue.Lock

/-!
# Who waits for the lock of the torrent queue

`_monitor_loop` calls `_enforce_queue_limits`, which takes the lock, while it holds the lock: only an
exception in `_sync_active_sets` keeps it from that. All other operations take the lock when they do
not hold it.
-/

namespace Ccbt.Queue

open Python Concurrency Transition

/-- What keeps a turn of `_monitor_loop` from asking for the lock again: there are active torrents,
and the session of the last one raises. -/
def Site.Meets : Site → Input → TorrentQueueManager → Prop
  | syncStart, _, s => 0 < (s.active_downloading.union s.active_seeding).size
  | syncTorrent rest, i, _ => rest = [] → i.reply = some none
  | elsewhere, _, _ => True

namespace Operation

open Coroutine LockName

variable {config : QueueConfig} {info_hash : Bytes} {α : Type} {held : List LockName}

/-- An operation that takes the lock only when it does not hold it and gives it back. -/
abbrev Disciplined (held : List LockName) (p : Code α) : Prop :=
  Coroutine.Disciplined Site.Meets (fun _ => 0) p held held

section Rules

theorem disciplined_locked {body : Code α} (h : Disciplined [_lock] body) :
    Disciplined [] (withLock _lock body) := disciplined_withLock (by simp) h

theorem disciplined_get (f : Input → TorrentQueueManager → α) : Disciplined held (get f) :=
  disciplined_atomic (fun _ _ => trivial) _

theorem disciplined_elsewhere (f : Input → TorrentQueueManager → Except QueueException α ×
    TorrentQueueManager) : Disciplined held (atomic .elsewhere f) :=
  disciplined_atomic (fun _ _ => trivial) _

theorem disciplined_update (f : Input → TorrentQueueManager → TorrentQueueManager) :
    Disciplined held (update f) := disciplined_atomic (fun _ _ => trivial) _

theorem disciplined_pauseSession : Disciplined held pauseSession := disciplined_elsewhere _

/-- A result that is not used. -/
theorem disciplined_ignore {p : Code α} (h : Disciplined held p) :
    Disciplined held (p >>= fun _ => pure ()) := disciplined_bind h fun _ => disciplined_pure ()

end Rules

section Calls

theorem disciplined_tryStartTorrent : Disciplined [] (tryStartTorrent config info_hash) := by
  apply disciplined_locked
  apply disciplined_bind (disciplined_get _)
  intro known
  cases known with
  | some result => exact disciplined_pure result
  | none =>
    apply disciplined_bind (disciplined_elsewhere _)
    intro status
    cases status with
    | none => exact disciplined_pure false
    | some status =>
      dsimp only
      split
      · exact disciplined_bind (disciplined_update _) fun _ => disciplined_pure true
      · exact disciplined_elsewhere _

theorem disciplined_tryStartNextTorrent : Disciplined [] (tryStartNextTorrent config) := by
  apply disciplined_bind (disciplined_locked (disciplined_get _))
  intro next
  cases next with
  | none => exact disciplined_pure ()
  | some info_hash => exact disciplined_ignore disciplined_tryStartTorrent

theorem disciplined_addTorrent (priority : Option TorrentPriority) (auto_start : Bool) :
    Disciplined [] (addTorrent config info_hash priority auto_start) := by
  apply disciplined_bind (disciplined_locked (disciplined_elsewhere _))
  intro added
  split
  · apply disciplined_bind disciplined_tryStartTorrent
    intro started
    split
    · apply disciplined_bind (disciplined_get _)
      intro session
      split
      · exact disciplined_locked (disciplined_pure ())
      · exact disciplined_pure ()
    · exact disciplined_pure ()
  · exact disciplined_pure ()

theorem disciplined_pauseTorrent : Disciplined [] (pauseTorrent config info_hash) := by
  apply disciplined_bind (disciplined_locked (disciplined_elsewhere _))
  intro found
  split
  · apply disciplined_bind disciplined_pauseSession
    intro _
    split
    · exact disciplined_tryStartNextTorrent
    · exact disciplined_pure ()
  · exact disciplined_pure ()

theorem disciplined_resumeTorrent : Disciplined [] (resumeTorrent config info_hash) := by
  apply disciplined_bind (disciplined_locked (disciplined_elsewhere _))
  intro found
  split
  · exact disciplined_ignore disciplined_tryStartTorrent
  · exact disciplined_pure ()

theorem disciplined_stopExcess (limit : Nat) (count : TorrentQueueManager → Nat)
    (active : TorrentQueueManager → PySet Bytes) : Disciplined held (stopExcess limit count active) := by
  apply disciplined_bind (disciplined_get _)
  intro excess
  apply disciplined_forM
  intro info_hash
  exact disciplined_bind (disciplined_update _) fun _ => disciplined_pauseSession

theorem disciplined_enforceQueueLimits : Disciplined [] (enforceQueueLimits config) := by
  apply disciplined_locked
  apply disciplined_bind (disciplined_stopExcess _ _ _)
  intro _
  apply disciplined_bind (disciplined_stopExcess _ _ _)
  intro _
  apply disciplined_bind (disciplined_stopExcess _ _ _)
  intro _
  exact disciplined_update _

end Calls

section Monitor

/-- `_enforce_queue_limits` called with the lock held waits for ever. -/
theorem awaits_enforceQueueLimits : (enforceQueueLimits config).Awaits [_lock] :=
  List.mem_singleton_self _

/-- The loop of `_sync_active_sets` before a request for the lock: it gets there unless a session
raises. -/
theorem disciplined_syncLoop_bind {g : Unit → Code Unit} (hg : (g ()).Awaits [_lock])
    {active : List Bytes} (hne : active ≠ []) : Disciplined [_lock] (syncLoop active >>= g) := by
  induction active with
  | nil => exact absurd rfl hne
  | cons info_hash rest ih =>
    intro i s
    -- What follows the step when it does not raise.
    have hgo (hrest : Site.Meets (.syncTorrent rest) i s → rest ≠ []) :
        (Site.Meets (.syncTorrent rest) i s → Disciplined [_lock] (syncLoop rest >>= g)) ∧
          (¬Site.Meets (.syncTorrent rest) i s → (syncLoop rest >>= g).Awaits [_lock]) := by
      refine ⟨fun hmet => ih (hrest hmet), fun hnot => ?_⟩
      obtain ⟨hnil, -⟩ := Classical.not_imp.mp hnot
      rw [hnil]
      exact hg
    rcases hreply : i.reply with _ | _ | status
    · simp only [hreply]
      exact hgo fun hmet hnil => by simpa [hreply] using hmet hnil
    · refine ⟨fun _ => ?_, fun hnot => absurd (fun _ => hreply) hnot⟩
      simp only [hreply]
      exact rfl
    · simp only [hreply]
      exact hgo fun hmet hnil => by simpa [hreply] using hmet hnil

theorem disciplined_monitorSection :
    Disciplined [_lock] (syncActiveSets >>= fun _ => enforceQueueLimits config) := by
  have hlength (i : Input) (s : TorrentQueueManager) :
      ((s.active_downloading.union s.active_seeding).iter i.order).length =
        (s.active_downloading.union s.active_seeding).size :=
    length_iterSet (s.active_downloading.union s.active_seeding).nodup
  apply disciplined_read_bind_bind
  · intro i s hmet
    refine disciplined_syncLoop_bind awaits_enforceQueueLimits fun hnil => ?_
    have hpos : 0 < (s.active_downloading.union s.active_seeding).size := hmet
    rw [← hlength i s, hnil] at hpos
    exact Nat.lt_irrefl 0 hpos
  · intro i s hnot
    have hzero : (s.active_downloading.union s.active_seeding).size = 0 :=
      Nat.eq_zero_of_not_pos hnot
    rw [← hlength i s] at hzero
    rw [List.length_eq_zero_iff.mp hzero]
    exact awaits_enforceQueueLimits

theorem disciplined_monitorTurn : Disciplined [] (monitorTurn config) := by
  refine disciplined_tryCatch ?_ fun _ => disciplined_pure ()
  apply disciplined_bind (disciplined_locked disciplined_monitorSection)
  intro _
  apply disciplined_bind disciplined_tryStartNextTorrent
  intro _
  exact disciplined_update _

theorem disciplined_monitorLoop (turns : Nat) : Disciplined [] (monitorLoop config turns) := by
  induction turns with
  | zero => exact disciplined_pure ()
  | succ n ih => exact disciplined_bind disciplined_monitorTurn fun _ => ih

end Monitor

theorem disciplined_code (operation : Operation) : Disciplined [] (operation.code config) := by
  cases operation with
  | add_torrent info_hash priority auto_start => exact disciplined_addTorrent priority auto_start
  | remove_torrent info_hash => exact disciplined_locked (disciplined_update _)
  | set_priority info_hash priority => exact disciplined_locked (disciplined_update _)
  | reorder_torrent info_hash new_position => exact disciplined_locked (disciplined_update _)
  | pause_torrent info_hash => exact disciplined_pauseTorrent
  | resume_torrent info_hash => exact disciplined_resumeTorrent
  | get_queue_state => exact disciplined_locked (disciplined_pure ())
  | _try_start_torrent info_hash => exact disciplined_ignore disciplined_tryStartTorrent
  | _try_start_next_torrent => exact disciplined_tryStartNextTorrent
  | _enforce_queue_limits => exact disciplined_enforceQueueLimits
  | _monitor_loop turns => exact disciplined_monitorLoop turns

end Operation

/-- In every run of operations that start with the lock free, no task waits for the lock while it
holds it and tasks rest only when all have ended and the lock is free, exactly when each step meets
its condition; and no run can go on for ever. -/
theorem queueLockSound_iff (config : QueueConfig) (operations : List Operation)
    (s : TorrentQueueManager) (es : List (Nat × Input)) :
    (Always System.step System.Sound (startOperations config operations s) es ↔
      StepsMeet System.step (System.Meets Site.Meets) (startOperations config operations s) es) ∧
    WellFounded (@System.Moved LockName Site Input TorrentQueueManager QueueException _) := by
  have : Nonempty Input := ⟨{}⟩
  have hstart : (startOperations config operations s).Disciplined Site.Meets fun _ => 0 := by
    apply System.disciplined_start
    intro code hcode
    obtain ⟨operation, -, rfl⟩ := List.mem_map.mp hcode
    exact Operation.disciplined_code operation
  exact ⟨hstart.always_sound_iff es, System.wellFounded_moved⟩

/-- A turn of `_monitor_loop` over an empty queue waits for the lock it holds. -/
theorem not_queueLockSound_monitorLoop :
    ¬∀ (config : QueueConfig) (operations : List Operation) (s : TorrentQueueManager)
      (es : List (Nat × Input)),
      Always System.step System.Sound (startOperations config operations s) es := by
  intro h
  have hrun := h {} [._monitor_loop 1] {} [(0, {}), (0, {})]
  exact hrun.2.2.1 (by decide)

end Ccbt.Queue
