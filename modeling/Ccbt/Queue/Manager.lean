import Mathlib.Data.Prod.Lex
import Mathlib.Data.Rat.Defs
import Mathlib.Algebra.Order.Ring.Rat
import Ccbt.Python.Bytes
import Ccbt.Python.Dict
import Ccbt.Python.SetOrder

/-!
# The torrent queue

`TorrentQueueManager` with its queue, its two sets of active torrents and its cached statistics.
Each function below is a section of the code that runs under the manager's lock, from taking it to
giving it back. `add_torrent`, `resume_torrent` and `pause_torrent` take the lock again at their end
for `_try_start_torrent`, which is a section of its own.

What the session of a torrent says and does is part of the event.
-/

namespace Ccbt

open Python

namespace Queue

abbrev Time := Rat

inductive TorrentPriority
  | paused
  | low
  | normal
  | high
  | maximum
deriving DecidableEq

inductive QueueStatus
  | queued
  | active
  | paused
deriving DecidableEq

structure QueueEntry where
  info_hash : Bytes
  priority : TorrentPriority
  queue_position : Nat
  added_time : Time
  status : QueueStatus := .queued

structure QueueConfig where
  max_active_torrents : Nat := 5
  max_active_downloading : Nat := 3
  max_active_seeding : Nat := 2
  default_priority : TorrentPriority := .normal
  auto_manage_queue : Bool := true

structure QueueStatistics where
  total_torrents : Nat := 0
  active_downloading : Nat := 0
  active_seeding : Nat := 0
  queued : Nat := 0
  paused : Nat := 0
  by_priority : TorrentPriority → Nat := fun _ => 0

structure TorrentQueueManager where
  queue : Dict Bytes QueueEntry := .empty
  active_downloading : PySet Bytes := .empty
  active_seeding : PySet Bytes := .empty
  stats : QueueStatistics := {}

/-- What the functions read of `session.get_status()`. -/
structure SessionStatus where
  status : String := "stopped"
  progress : Rat := 0

/-- How `session.start` or `session.resume` ends. -/
inductive StartOutcome
  | done
  | timeout
  | exception
deriving DecidableEq

/-- `session_manager.torrents.get(info_hash)` and its `get_status()`: there may be no session, and
the call may raise. -/
abbrev SessionReply := Option (Option SessionStatus)

def SessionStatus.isSeeding (s : SessionStatus) : Bool := 1 ≤ s.progress || s.status == "seeding"

def SessionStatus.isRunning (s : SessionStatus) : Bool :=
  s.status != "paused" && s.status != "stopped"

/-- The numbers of `priority_order`. -/
def priorityOrder : TorrentPriority → Int
  | .maximum => 5
  | .high => 4
  | .normal => 3
  | .low => 2
  | .paused => 1

/-- The key that the queue and the torrents to stop are sorted by. -/
def sortKey (entry : QueueEntry) : Int ×ₗ Time :=
  toLex (-priorityOrder entry.priority, entry.added_time)

section Reordering

variable {κ : Type}

/-- The entries with their positions counted from `n`. -/
def numberFrom (n : Nat) : List (κ × QueueEntry) → List (κ × QueueEntry)
  | [] => []
  | (info_hash, entry) :: items =>
    (info_hash, { entry with queue_position := n }) :: numberFrom (n + 1) items

theorem keys_numberFrom (n : Nat) (items : List (κ × QueueEntry)) :
    (numberFrom n items).map Prod.fst = items.map Prod.fst := by
  induction items generalizing n with
  | nil => rfl
  | cons item items ih => rw [numberFrom, List.map_cons, List.map_cons, ih]

def reorderQueue (queue : Dict Bytes QueueEntry) : Dict Bytes QueueEntry where
  entries := numberFrom 0 (sortOn (fun item => sortKey item.2) queue.entries)
  nodup_keys := by
    rw [keys_numberFrom]
    exact ((sortOn_perm _ _).map Prod.fst).nodup_iff.mpr queue.nodup_keys

/-- The entries behind the move of one of them in `reorder_torrent`, before they are sorted. -/
def moveEntry (queue : Dict Bytes QueueEntry) (info_hash : Bytes) (entry : QueueEntry)
    (new_position : Nat) : Dict Bytes QueueEntry :=
  let items := (queue.erase info_hash).entries
  if h : new_position ≤ items.length then
    { entries := items.insertIdx new_position (info_hash, entry)
      nodup_keys := by
        have hperm := (List.perm_insertIdx (info_hash, entry) items h).map Prod.fst
        rw [hperm.nodup_iff, List.map_cons, List.nodup_cons]
        refine ⟨?_, (queue.erase info_hash).nodup_keys⟩
        exact lookup_eq_none_iff.mp ((queue.get?_erase info_hash info_hash).trans (if_pos rfl)) }
  else queue

end Reordering

namespace TorrentQueueManager

variable (config : QueueConfig) (m : TorrentQueueManager) (info_hash : Bytes)

def updateStatistics : TorrentQueueManager :=
  { m with stats := {
      total_torrents := m.queue.size
      active_downloading := m.active_downloading.size
      active_seeding := m.active_seeding.size
      queued := m.queue.values.countP (·.status = .queued)
      paused := m.queue.values.countP (·.status = .paused)
      by_priority := fun priority => m.queue.values.countP (·.priority = priority) } }

/-- `entry.status = status`, for an entry of the queue. -/
def setStatus (status : QueueStatus) : TorrentQueueManager :=
  match m.queue.get? info_hash with
  | none => m
  | some entry => { m with queue := m.queue.set info_hash { entry with status := status } }

def discardActive : TorrentQueueManager :=
  { m with
    active_downloading := m.active_downloading.discard info_hash
    active_seeding := m.active_seeding.discard info_hash }

def addTorrent (priority : Option TorrentPriority) (now : Time) : TorrentQueueManager :=
  match m.queue.get? info_hash with
  | some _ => m
  | none =>
    let entry : QueueEntry := {
      info_hash := info_hash
      priority := priority.getD config.default_priority
      queue_position := m.queue.size
      added_time := now }
    updateStatistics { m with queue := reorderQueue (m.queue.set info_hash entry) }

def removeTorrent : TorrentQueueManager :=
  match m.queue.get? info_hash with
  | none => m
  | some _ =>
    updateStatistics (discardActive { m with queue := reorderQueue (m.queue.erase info_hash) }
      info_hash)

def setPriority (priority : TorrentPriority) : TorrentQueueManager :=
  match m.queue.get? info_hash with
  | none => m
  | some entry =>
    updateStatistics { m with
      queue := reorderQueue (m.queue.set info_hash { entry with priority := priority }) }

def reorderTorrent (new_position : Int) : TorrentQueueManager :=
  match m.queue.get? info_hash with
  | none => m
  | some entry =>
    if new_position < 0 ∨ m.queue.size ≤ new_position then m
    else { m with queue := reorderQueue (moveEntry m.queue info_hash entry new_position.toNat) }

def pauseTorrent : TorrentQueueManager :=
  match m.queue.get? info_hash with
  | none => m
  | some _ => updateStatistics (discardActive (setStatus m info_hash .paused) info_hash)

def resumeTorrent : TorrentQueueManager :=
  match m.queue.get? info_hash with
  | none => m
  | some entry => if entry.status = .paused then setStatus m info_hash .queued else m

/-- `can_start`: the limits are checked against the cached statistics. -/
def canStart (stats : QueueStatistics) (is_seeding : Bool) : Bool :=
  if is_seeding then
    config.max_active_seeding == 0 || stats.active_seeding < config.max_active_seeding
  else if config.max_active_downloading == 0 ||
      stats.active_downloading < config.max_active_downloading then
    config.max_active_torrents == 0 ||
      stats.active_downloading + stats.active_seeding < config.max_active_torrents
  else false

def addActive (is_seeding : Bool) : TorrentQueueManager :=
  if is_seeding then { m with active_seeding := m.active_seeding.add info_hash }
  else { m with active_downloading := m.active_downloading.add info_hash }

/-- `_try_start_torrent`, with what it returns, or `none` where it raises. -/
def tryStartTorrent (reply : SessionReply) (outcome : StartOutcome) :
    TorrentQueueManager × Option Bool :=
  match m.queue.get? info_hash with
  | none => (m, some false)
  | some entry =>
    if entry.priority = .paused then (m, some false)
    else if info_hash ∈ m.active_downloading ∨ info_hash ∈ m.active_seeding then (m, some true)
    else
      match reply with
      | none => (m, some false)
      | some none => (m, none)
      | some (some status) =>
        if canStart config m.stats status.isSeeding then
          let started := setStatus (addActive m info_hash status.isSeeding) info_hash .active
          -- A running session is neither resumed nor started.
          if !status.isRunning && outcome = .exception then
            (updateStatistics (setStatus started info_hash .queued), some false)
          else (updateStatistics started, some true)
        else (updateStatistics (setStatus m info_hash .queued), some false)

/-- `_pause_torrent_internal` as far as the manager goes. -/
def pauseTorrentInternal : TorrentQueueManager :=
  match m.queue.get? info_hash with
  | none => m
  | some _ => discardActive (setStatus m info_hash .queued) info_hash

/-- Pauses one torrent after the other until `session.pause` raises: the second component says that
it has not. -/
def pauseAll (raises : Bytes → Bool) (m : TorrentQueueManager) :
    List Bytes → TorrentQueueManager × Bool
  | [] => (m, true)
  | info_hash :: rest =>
    if raises info_hash then (pauseTorrentInternal m info_hash, false)
    else pauseAll raises (pauseTorrentInternal m info_hash) rest

/-- The torrents of a set that are in the queue, those of lowest priority first:
`sort(key=sortKey, reverse=True)` keeps torrents with one key in their order. -/
def lowestFirst (active : List Bytes) : List Bytes :=
  let entries := active.filterMap fun info_hash =>
    (m.queue.get? info_hash).map fun entry => (info_hash, entry)
  ((sortOn (fun item => sortKey item.2) entries.reverse).reverse).map Prod.fst

/-- Stops what exceeds one limit: `count` torrents are active, of which `active` is the list. -/
def stopExcess (limit count : Nat) (active : List Bytes) (raises : Bytes → Bool) :
    TorrentQueueManager × Bool :=
  if 0 < limit ∧ limit < count then
    pauseAll raises m ((lowestFirst m active).take (count - limit))
  else (m, true)

/-- The order in which the sets of active torrents come, and which sessions raise when they are
paused. -/
structure Enforcement where
  downloading_order : List Bytes := []
  seeding_order : List Bytes := []
  active_order : List Bytes := []
  raises : Bytes → Bool := fun _ => false

def enforceQueueLimits (e : Enforcement) : TorrentQueueManager :=
  let (m, ok) := stopExcess m config.max_active_downloading m.active_downloading.size
    (m.active_downloading.iter e.downloading_order) e.raises
  if !ok then m
  else
    let (m, ok) := stopExcess m config.max_active_seeding m.active_seeding.size
      (m.active_seeding.iter e.seeding_order) e.raises
    if !ok then m
    else
      let (m, ok) := stopExcess m config.max_active_torrents
        (m.active_downloading.size + m.active_seeding.size)
        ((m.active_downloading.union m.active_seeding).iter e.active_order) e.raises
      if !ok then m else updateStatistics m

/-- One pass of the loop in `_sync_active_sets`, unless `get_status` raises. -/
def syncTorrent (session : Option SessionStatus) : TorrentQueueManager :=
  match session with
  | none => discardActive m info_hash
  | some status =>
    if status.isRunning then
      addActive (discardActive m info_hash) info_hash status.isSeeding
    else discardActive m info_hash

/-- `_sync_active_sets` on the rest of the active torrents. -/
def syncRest (replies : Bytes → SessionReply) (m : TorrentQueueManager) :
    List Bytes → TorrentQueueManager
  | [] => m
  | info_hash :: rest =>
    match replies info_hash with
    | none => syncRest replies (syncTorrent m info_hash none) rest
    | some none => m
    | some (some status) => syncRest replies (syncTorrent m info_hash (some status)) rest

def syncActiveSets (order : List Bytes) (replies : Bytes → SessionReply) : TorrentQueueManager :=
  syncRest replies m ((m.active_downloading.union m.active_seeding).iter order)

end TorrentQueueManager

end Queue

end Ccbt
