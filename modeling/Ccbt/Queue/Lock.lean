import Ccbt.Concurrency.Discipline
import Ccbt.Queue.Manager

/-!
# The lock of the torrent queue

The operations of `TorrentQueueManager` as coroutines that share the manager and its lock. What the
sessions answer and how their calls end is an input of the step behind the await.
-/

namespace Ccbt.Queue

open Python Concurrency Transition

inductive LockName
  | _lock
deriving DecidableEq

/-- Raised by a call of a session. -/
inductive QueueException
  | session
deriving DecidableEq

/-- What a step learns from outside. -/
structure Input where
  now : Time := 0
  /-- The session that the step looks up, with what its `get_status` returns. -/
  reply : SessionReply := none
  outcome : StartOutcome := .done
  /-- Whether `session.pause` raises. -/
  raises : Bool := false
  /-- The order in which a set comes. -/
  order : List Bytes := []

/-- The places that decide whether `_monitor_loop` gets to `_enforce_queue_limits`. -/
inductive Site
  /-- `_sync_active_sets` lists the active torrents. -/
  | syncStart
  /-- It has the status of a torrent, and these are still to come. -/
  | syncTorrent (rest : List Bytes)
  | elsewhere

abbrev Code (α : Type) := Coroutine LockName Site Input TorrentQueueManager QueueException α

namespace Operation

open Coroutine LockName

variable (config : QueueConfig) (info_hash : Bytes)

def get {α : Type} (f : Input → TorrentQueueManager → α) : Code α := read .elsewhere f

def update (f : Input → TorrentQueueManager → TorrentQueueManager) : Code Unit :=
  modify .elsewhere f

def pauseSession : Code Unit :=
  atomic .elsewhere fun i s => (if i.raises then .error .session else .ok (), s)

/-- What `_try_start_torrent` returns before it asks the session. -/
def knownResult (m : TorrentQueueManager) : Option Bool :=
  match m.queue.get? info_hash with
  | none => some false
  | some entry =>
    if entry.priority = .paused then some false
    else if info_hash ∈ m.active_downloading ∨ info_hash ∈ m.active_seeding then some true
    else none

/-- The part of `_try_start_torrent` between `get_status` and the start: the status of the torrent
if it is to be started. -/
def claimSlot (reply : SessionReply) (m : TorrentQueueManager) :
    Except QueueException (Option SessionStatus) × TorrentQueueManager :=
  match reply with
  | none => (.ok none, m)
  | some none => (.error .session, m)
  | some (some status) =>
    if TorrentQueueManager.canStart config m.stats status.isSeeding then
      (.ok (some status), (m.addActive info_hash status.isSeeding).setStatus info_hash .active)
    else (.ok none, (m.setStatus info_hash .queued).updateStatistics)

/-- The part of `_try_start_torrent` behind the start. -/
def finishStart (outcome : StartOutcome) (m : TorrentQueueManager) :
    Except QueueException Bool × TorrentQueueManager :=
  if outcome = .exception then (.ok false, (m.setStatus info_hash .queued).updateStatistics)
  else (.ok true, m.updateStatistics)

def tryStartTorrent : Code Bool :=
  withLock _lock do
    let known ← get fun _ s => knownResult info_hash s
    match known with
    | some result => pure result
    | none => do
      let status ← atomic .elsewhere fun i s => claimSlot config info_hash i.reply s
      match status with
      | none => pure false
      | some status =>
        if status.isRunning then do
          update fun _ s => s.updateStatistics
          pure true
        else atomic .elsewhere fun i s => finishStart info_hash i.outcome s

def tryStartNextTorrent : Code Unit := do
  let next ← withLock _lock (get fun _ s =>
    (s.queue.entries.find? fun item => item.2.status = .queued).map Prod.fst)
  match next with
  | none => pure ()
  | some info_hash => do
    let _ ← tryStartTorrent config info_hash

def addTorrent (priority : Option TorrentPriority) (auto_start : Bool) : Code Unit := do
  let added ← withLock _lock (atomic .elsewhere fun i s =>
    (.ok (!s.queue.contains info_hash), s.addTorrent config info_hash priority i.now))
  if added && auto_start && config.auto_manage_queue then do
    let started ← tryStartTorrent config info_hash
    if started then do
      let session ← get fun i _ => i.reply.isSome
      -- the position is only copied into the session's own record
      if session then withLock _lock (pure ())
      else pure ()
    else pure ()
  else pure ()

def removeTorrent : Code Unit := withLock _lock (update fun _ s => s.removeTorrent info_hash)

def setPriority (priority : TorrentPriority) : Code Unit :=
  withLock _lock (update fun _ s => s.setPriority info_hash priority)

def reorderTorrent (new_position : Int) : Code Unit :=
  withLock _lock (update fun _ s => s.reorderTorrent info_hash new_position)

def pauseTorrent : Code Unit := do
  let found ← withLock _lock (atomic .elsewhere fun _ s =>
    (.ok (s.queue.contains info_hash), s.pauseTorrent info_hash))
  if found then do
    pauseSession
    if config.auto_manage_queue then tryStartNextTorrent config else pure ()
  else pure ()

def resumeTorrent : Code Unit := do
  let found ← withLock _lock (atomic .elsewhere fun _ s =>
    (.ok (s.queue.contains info_hash), s.resumeTorrent info_hash))
  if found && config.auto_manage_queue then do
    let _ ← tryStartTorrent config info_hash
  else pure ()

/-- `get_queue_status` and `get_torrent_queue_state`, which only read. -/
def getQueueState : Code Unit := withLock _lock (pure ())

def pauseTorrentInternal : Code Unit := do
  update fun _ s => s.pauseTorrentInternal info_hash
  pauseSession

/-- The part of `_enforce_queue_limits` for one limit. -/
def stopExcess (limit : Nat) (count : TorrentQueueManager → Nat)
    (active : TorrentQueueManager → PySet Bytes) : Code Unit := do
  let excess ← get fun i s =>
    if 0 < limit ∧ limit < count s then
      (s.lowestFirst ((active s).iter i.order)).take (count s - limit)
    else []
  forM excess pauseTorrentInternal

def enforceQueueLimits : Code Unit :=
  withLock _lock do
    stopExcess config.max_active_downloading (·.active_downloading.size) (·.active_downloading)
    stopExcess config.max_active_seeding (·.active_seeding.size) (·.active_seeding)
    stopExcess config.max_active_torrents (fun s => s.active_downloading.size + s.active_seeding.size)
      fun s => s.active_downloading.union s.active_seeding
    update fun _ s => s.updateStatistics

def syncLoop : List Bytes → Code Unit
  | [] => pure ()
  | info_hash :: rest => do
    atomic (.syncTorrent rest) fun i s =>
      match i.reply with
      | none => (.ok (), s.syncTorrent info_hash none)
      | some none => (.error .session, s)
      | some (some status) => (.ok (), s.syncTorrent info_hash (some status))
    syncLoop rest

/-- `_sync_active_sets`, which is called with the lock held. -/
def syncActiveSets : Code Unit := do
  let active ← read .syncStart fun i s => (s.active_downloading.union s.active_seeding).iter i.order
  syncLoop active

/-- One turn of `_monitor_loop`, which logs every exception. -/
def monitorTurn : Code Unit :=
  tryCatch (do
    withLock _lock do
      syncActiveSets
      enforceQueueLimits config
    tryStartNextTorrent config
    update fun _ s => s.updateStatistics) fun _ => pure ()

/-- So many turns of `_monitor_loop`. -/
def monitorLoop : Nat → Code Unit
  | 0 => pure ()
  | n + 1 => do
    monitorTurn config
    monitorLoop n

section ByItself

variable {config : QueueConfig} {info_hash : Bytes} (i : Input) (s : TorrentQueueManager)

/-- What is returned, or the exception. -/
def outcomeOf {α : Type} (result : Option α) : Except QueueException α :=
  match result with
  | some a => .ok a
  | none => .error .session

/-- By itself `_try_start_torrent` does what the section of the manager says. -/
theorem finish_tryStartTorrent : (tryStartTorrent config info_hash).finish i s =
    (outcomeOf (s.tryStartTorrent config info_hash i.reply i.outcome).2,
      (s.tryStartTorrent config info_hash i.reply i.outcome).1) := by
  rw [tryStartTorrent, finish_withLock, get, finish_read_bind, knownResult,
    TorrentQueueManager.tryStartTorrent.eq_def]
  cases s.queue.get? info_hash with
  | none => rfl
  | some entry =>
    dsimp only
    split_ifs with hpriority hactive
    · rfl
    · rfl
    · show Coroutine.finish i (Coroutine.bind (done (claimSlot config info_hash i.reply s).1) _)
        (claimSlot config info_hash i.reply s).2 = _
      rw [claimSlot.eq_def]
      rcases i.reply with _ | _ | status
      · rfl
      · rfl
      · dsimp only
        split_ifs with hcan hfail
        · rw [Bool.and_eq_true, Bool.not_eq_true', decide_eq_true_eq] at hfail
          show Coroutine.finish i (if status.isRunning then _ else _) _ = _
          rw [hfail.1, if_neg Bool.false_ne_true]
          show finishStart info_hash i.outcome _ = _
          rw [finishStart, if_pos hfail.2]
          rfl
        · show Coroutine.finish i (if status.isRunning then _ else _) _ = _
          by_cases hrun : status.isRunning = true
          · rw [if_pos hrun]
            rfl
          · rw [if_neg hrun]
            show finishStart info_hash i.outcome _ = _
            rw [finishStart, if_neg fun hexception => hfail (by simp [hrun, hexception])]
            rfl
        · rfl

theorem finish_pauseTorrentInternal : (pauseTorrentInternal info_hash).finish i s =
    (if i.raises then .error .session else .ok (), s.pauseTorrentInternal info_hash) := rfl

theorem finish_pauseAll (hashes : List Bytes) :
    (forM hashes pauseTorrentInternal : Code Unit).finish i s =
      (if (s.pauseAll (fun _ => i.raises) hashes).2 then .ok () else .error .session,
        (s.pauseAll (fun _ => i.raises) hashes).1) := by
  induction hashes generalizing s with
  | nil => rfl
  | cons info_hash rest ih =>
    rw [List.forM_cons, TorrentQueueManager.pauseAll]
    cases hraises : i.raises with
    | true =>
      show Coroutine.finish i (Coroutine.bind (done (if i.raises then _ else _)) _) _ = _
      rw [hraises]
      rfl
    | false =>
      have hpause : (pauseTorrentInternal info_hash).finish i s =
          (.ok (), s.pauseTorrentInternal info_hash) := by
        rw [finish_pauseTorrentInternal, hraises]
        rfl
      rw [finish_bind _ hpause, ih, hraises]
      rfl

theorem finish_stopExcess (limit : Nat) (count : TorrentQueueManager → Nat)
    (active : TorrentQueueManager → PySet Bytes) : (stopExcess limit count active).finish i s =
      (if (s.stopExcess limit (count s) ((active s).iter i.order) fun _ => i.raises).2 then .ok ()
        else .error .session,
        (s.stopExcess limit (count s) ((active s).iter i.order) fun _ => i.raises).1) := by
  rw [stopExcess, get, finish_read_bind, finish_pauseAll, TorrentQueueManager.stopExcess]
  by_cases hexcess : 0 < limit ∧ limit < count s
  · rw [if_pos hexcess, if_pos hexcess]
  · rw [if_neg hexcess, if_neg hexcess]
    rfl

/-- By itself `_enforce_queue_limits` does what the section of the manager says. -/
theorem finish_enforceQueueLimits : ((enforceQueueLimits config).finish i s).2 =
    s.enforceQueueLimits config
      { downloading_order := i.order, seeding_order := i.order, active_order := i.order,
        raises := fun _ => i.raises } := by
  have hstop (s : TorrentQueueManager) (limit : Nat) (count : TorrentQueueManager → Nat)
      (active : TorrentQueueManager → PySet Bytes) (g : Unit → Code Unit) :
      ((stopExcess limit count active >>= g).finish i s).2 =
        if !(s.stopExcess limit (count s) ((active s).iter i.order) fun _ => i.raises).2 then
          (s.stopExcess limit (count s) ((active s).iter i.order) fun _ => i.raises).1
        else ((g ()).finish i
          (s.stopExcess limit (count s) ((active s).iter i.order) fun _ => i.raises).1).2 := by
    have hfinish := finish_stopExcess i s limit count active
    cases hok : (s.stopExcess limit (count s) ((active s).iter i.order) fun _ => i.raises).2 with
    | true =>
      rw [hok, if_pos rfl] at hfinish
      rw [finish_bind g hfinish]
      rfl
    | false =>
      rw [hok, if_neg Bool.false_ne_true] at hfinish
      rw [finish_bind_error g hfinish]
      rfl
  rw [enforceQueueLimits, finish_withLock, hstop, hstop, hstop]
  rfl

end ByItself

end Operation

/-- The operations that run as tasks, any number of each. -/
inductive Operation
  | add_torrent (info_hash : Bytes) (priority : Option TorrentPriority) (auto_start : Bool)
  | remove_torrent (info_hash : Bytes)
  | set_priority (info_hash : Bytes) (priority : TorrentPriority)
  | reorder_torrent (info_hash : Bytes) (new_position : Int)
  | pause_torrent (info_hash : Bytes)
  | resume_torrent (info_hash : Bytes)
  | get_queue_state
  | _try_start_torrent (info_hash : Bytes)
  | _try_start_next_torrent
  | _enforce_queue_limits
  | _monitor_loop (turns : Nat)

def Operation.code (config : QueueConfig) : Operation → Code Unit
  | add_torrent info_hash priority auto_start => addTorrent config info_hash priority auto_start
  | remove_torrent info_hash => removeTorrent info_hash
  | set_priority info_hash priority => setPriority info_hash priority
  | reorder_torrent info_hash new_position => reorderTorrent info_hash new_position
  | pause_torrent info_hash => pauseTorrent config info_hash
  | resume_torrent info_hash => resumeTorrent config info_hash
  | get_queue_state => getQueueState
  | _try_start_torrent info_hash => do
    let _ ← tryStartTorrent config info_hash
  | _try_start_next_torrent => tryStartNextTorrent config
  | _enforce_queue_limits => enforceQueueLimits config
  | _monitor_loop turns => monitorLoop config turns

def startOperations (config : QueueConfig) (operations : List Operation) (s : TorrentQueueManager) :
    System LockName Site Input TorrentQueueManager QueueException :=
  System.start (operations.map (Operation.code config)) s

end Ccbt.Queue
