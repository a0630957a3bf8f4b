import Ccbt.Queue.Manager
import Ccbt.Transition.Run

/-!
# The bookkeeping of the torrent queue

The status of the entries, the two sets of active torrents and the limits over runs of the queue
manager. A run is a list of the sections that hold the lock, in the order in which they take it.
-/

namespace Ccbt.Queue

open Python Transition

namespace TorrentQueueManager

variable {config : QueueConfig} {m m' : TorrentQueueManager} {h j : Bytes}

def statusOf (m : TorrentQueueManager) (info_hash : Bytes) : Option QueueStatus :=
  (m.queue.get? info_hash).map (·.status)

/-- The torrent is in one of the two sets. -/
def IsActive (m : TorrentQueueManager) (info_hash : Bytes) : Prop :=
  info_hash ∈ m.active_downloading ∨ info_hash ∈ m.active_seeding

/-- The sets and the queue tell the same. -/
structure Consistent (m : TorrentQueueManager) : Prop where
  active_iff : ∀ info_hash, m.IsActive info_hash ↔ m.statusOf info_hash = some .active
  disjoint : ∀ info_hash ∈ m.active_downloading, info_hash ∉ m.active_seeding

structure SameBut (h : Bytes) (m m' : TorrentQueueManager) : Prop where
  status : ∀ j, j ≠ h → m'.statusOf j = m.statusOf j
  downloading : ∀ j, j ≠ h → (j ∈ m'.active_downloading ↔ j ∈ m.active_downloading)
  seeding : ∀ j, j ≠ h → (j ∈ m'.active_seeding ↔ j ∈ m.active_seeding)

section Frames

theorem SameBut.trans {m'' : TorrentQueueManager} (hm : SameBut h m m') (hm' : SameBut h m' m'') :
    SameBut h m m'' where
  status j hj := (hm'.status j hj).trans (hm.status j hj)
  downloading j hj := (hm'.downloading j hj).trans (hm.downloading j hj)
  seeding j hj := (hm'.seeding j hj).trans (hm.seeding j hj)

/-- Where one torrent is different, its own record decides. -/
theorem SameBut.consistent_iff (hsame : SameBut h m m') (hm : Consistent m) :
    Consistent m' ↔ (m'.IsActive h ↔ m'.statusOf h = some .active) ∧
      ¬(h ∈ m'.active_downloading ∧ h ∈ m'.active_seeding) := by
  constructor
  · intro hm'
    exact ⟨hm'.active_iff h, fun hboth => hm'.disjoint h hboth.1 hboth.2⟩
  · rintro ⟨hactive, hnot⟩
    refine ⟨fun j => ?_, fun j hj hseeding => ?_⟩
    · by_cases hjh : j = h
      · rw [hjh]
        exact hactive
      · rw [hsame.status j hjh, ← hm.active_iff, IsActive, hsame.downloading j hjh,
          hsame.seeding j hjh, IsActive]
    · by_cases hjh : j = h
      · rw [hjh] at hj hseeding
        exact hnot ⟨hj, hseeding⟩
      · rw [hsame.downloading j hjh] at hj
        rw [hsame.seeding j hjh] at hseeding
        exact hm.disjoint j hj hseeding

theorem lookup_numberFrom {κ : Type} [DecidableEq κ] (k : κ) (n : Nat)
    (items : List (κ × QueueEntry)) :
    ((numberFrom n items).lookup k).map (·.status) = (items.lookup k).map (·.status) := by
  induction items generalizing n with
  | nil => rfl
  | cons item items ih =>
    obtain ⟨info_hash, entry⟩ := item
    rw [numberFrom, List.lookup_cons, List.lookup_cons]
    cases k == info_hash with
    | true => rfl
    | false => exact ih (n + 1)

/-- Reordering changes no status. -/
theorem status_reorderQueue (queue : Dict Bytes QueueEntry) (h : Bytes) :
    ((reorderQueue queue).get? h).map (·.status) = (queue.get? h).map (·.status) := by
  have hperm : (sortOn (fun item => sortKey item.2) queue.entries).Perm queue.entries :=
    sortOn_perm _ _
  have hnodup := (hperm.map Prod.fst).nodup_iff.mpr queue.nodup_keys
  refine (lookup_numberFrom h 0 _).trans ?_
  rw [lookup_perm hperm hnodup, Dict.get?]

@[simp] theorem statusOf_updateStatistics : (updateStatistics m).statusOf h = m.statusOf h := rfl

@[simp] theorem statusOf_discardActive : (discardActive m j).statusOf h = m.statusOf h := rfl

@[simp] theorem statusOf_addActive {is_seeding : Bool} :
    (addActive m j is_seeding).statusOf h = m.statusOf h := by
  rw [addActive]
  split_ifs
  · rfl
  · rfl

theorem statusOf_setStatus {status : QueueStatus} : (setStatus m h status).statusOf j =
    if j = h then (m.statusOf h).map fun _ => status else m.statusOf j := by
  rw [setStatus]
  cases hentry : m.queue.get? h with
  | none =>
    split_ifs with hjh
    · rw [hjh, statusOf, hentry, Option.map_none, Option.map_none]
    · rfl
  | some entry =>
    have hstatus : m.statusOf h = some entry.status := by rw [statusOf, hentry, Option.map_some]
    show ((m.queue.set h { entry with status := status }).get? j).map _ = _
    rw [Dict.get?_set, hstatus]
    split_ifs with hjh
    · rfl
    · rfl

@[simp] theorem setStatus_downloading {status : QueueStatus} :
    (setStatus m h status).active_downloading = m.active_downloading := by
  rw [setStatus]
  split
  · rfl
  · rfl

@[simp] theorem setStatus_seeding {status : QueueStatus} :
    (setStatus m h status).active_seeding = m.active_seeding := by
  rw [setStatus]
  split
  · rfl
  · rfl

theorem mem_downloading_addActive {is_seeding : Bool} :
    j ∈ (addActive m h is_seeding).active_downloading ↔
      is_seeding = false ∧ j = h ∨ j ∈ m.active_downloading := by
  cases is_seeding with
  | true => simp [addActive]
  | false => simp [addActive]

theorem mem_seeding_addActive {is_seeding : Bool} :
    j ∈ (addActive m h is_seeding).active_seeding ↔
      is_seeding = true ∧ j = h ∨ j ∈ m.active_seeding := by
  cases is_seeding with
  | true => simp [addActive]
  | false => simp [addActive]

theorem sameBut_setStatus (m : TorrentQueueManager) (h : Bytes) (status : QueueStatus) :
    SameBut h m (setStatus m h status) where
  status j hj := by rw [statusOf_setStatus, if_neg hj]
  downloading j _ := by rw [setStatus_downloading]
  seeding j _ := by rw [setStatus_seeding]

theorem sameBut_discardActive (m : TorrentQueueManager) (h : Bytes) :
    SameBut h m (discardActive m h) where
  status _ _ := rfl
  downloading j hj := by simp [discardActive, hj]
  seeding j hj := by simp [discardActive, hj]

theorem sameBut_addActive (m : TorrentQueueManager) (h : Bytes) (is_seeding : Bool) :
    SameBut h m (addActive m h is_seeding) where
  status _ _ := statusOf_addActive
  downloading j hj := by simp [mem_downloading_addActive, hj]
  seeding j hj := by simp [mem_seeding_addActive, hj]

/-- A change of the queue that touches one entry, with the reordering after it. -/
theorem sameBut_reorderQueue (m : TorrentQueueManager) {queue : Dict Bytes QueueEntry}
    (hqueue : ∀ j, j ≠ h → queue.get? j = m.queue.get? j) :
    SameBut h m { m with queue := reorderQueue queue } where
  status j hj := by rw [statusOf, status_reorderQueue, hqueue j hj, statusOf]
  downloading _ _ := Iff.rfl
  seeding _ _ := Iff.rfl

theorem consistent_updateStatistics : Consistent (updateStatistics m) ↔ Consistent m :=
  ⟨fun hm => ⟨hm.active_iff, hm.disjoint⟩, fun hm => ⟨hm.active_iff, hm.disjoint⟩⟩

end Frames

section Sections

theorem not_isActive_discardActive : ¬(discardActive m h).IsActive h := by
  simp [IsActive, discardActive]

/-- A torrent that is neither active nor marked as active agrees with the queue. -/
theorem SameBut.consistent_of_inactive (hsame : SameBut h m m') (hm : Consistent m)
    (hinactive : ¬m'.IsActive h) (hstatus : m'.statusOf h ≠ some .active) : Consistent m' :=
  (hsame.consistent_iff hm).mpr
    ⟨iff_of_false hinactive hstatus, fun hboth => hinactive (.inl hboth.1)⟩

theorem consistent_addTorrent (hm : Consistent m) (priority : Option TorrentPriority) (now : Time) :
    Consistent (addTorrent config m h priority now) := by
  rw [addTorrent]
  split
  · exact hm
  · next hnone =>
    rw [consistent_updateStatistics]
    have hstatus : m.statusOf h = none := by rw [statusOf, hnone, Option.map_none]
    refine SameBut.consistent_of_inactive
      (sameBut_reorderQueue m fun j hj => Dict.get?_set_ne _ hj _) hm ?_ ?_
    · show ¬m.IsActive h
      rw [hm.active_iff, hstatus]
      simp
    · rw [statusOf, status_reorderQueue, Dict.get?_set_self]
      simp

theorem consistent_removeTorrent (hm : Consistent m) : Consistent (removeTorrent m h) := by
  rw [removeTorrent]
  split
  · exact hm
  · rw [consistent_updateStatistics]
    have hreorder : SameBut h m { m with queue := reorderQueue (m.queue.erase h) } :=
      sameBut_reorderQueue m fun j hj => by rw [Dict.get?_erase, if_neg hj]
    refine SameBut.consistent_of_inactive (hreorder.trans (sameBut_discardActive _ h)) hm
      not_isActive_discardActive ?_
    rw [statusOf_discardActive, statusOf, status_reorderQueue, Dict.get?_erase, if_pos rfl]
    simp

theorem consistent_setPriority (hm : Consistent m) (priority : TorrentPriority) :
    Consistent (setPriority m h priority) := by
  rw [setPriority]
  split
  · exact hm
  · next entry hentry =>
    rw [consistent_updateStatistics]
    refine (SameBut.consistent_iff
      (sameBut_reorderQueue m fun j hj => Dict.get?_set_ne _ hj _) hm).mpr ⟨?_, ?_⟩
    · rw [statusOf, status_reorderQueue, Dict.get?_set_self]
      show m.IsActive h ↔ _
      rw [hm.active_iff, statusOf, hentry, Option.map_some, Option.map_some]
    · exact fun hboth => hm.disjoint h hboth.1 hboth.2

/-- Taking a torrent out of the sets fits any status but the active one. -/
theorem consistent_deactivate (hm : Consistent m) {status : QueueStatus} (hstatus : status ≠ .active) :
    Consistent (discardActive (setStatus m h status) h) := by
  refine SameBut.consistent_of_inactive
    ((sameBut_setStatus m h status).trans (sameBut_discardActive _ h)) hm
    not_isActive_discardActive ?_
  rw [statusOf_discardActive, statusOf_setStatus, if_pos rfl]
  cases m.statusOf h with
  | none => simp
  | some _ => simpa using hstatus

theorem consistent_pauseTorrent (hm : Consistent m) : Consistent (pauseTorrent m h) := by
  rw [pauseTorrent]
  split
  · exact hm
  · rw [consistent_updateStatistics]
    exact consistent_deactivate hm (by decide)

theorem consistent_pauseTorrentInternal (hm : Consistent m) :
    Consistent (pauseTorrentInternal m h) := by
  rw [pauseTorrentInternal]
  split
  · exact hm
  · exact consistent_deactivate hm (by decide)

/-- A torrent that is not active can be marked as queued. -/
theorem consistent_setQueued (hm : Consistent m) (hinactive : ¬m.IsActive h) :
    Consistent (setStatus m h .queued) := by
  refine (sameBut_setStatus m h .queued).consistent_of_inactive hm ?_ ?_
  · rwa [IsActive, setStatus_downloading, setStatus_seeding, ← IsActive]
  · rw [statusOf_setStatus, if_pos rfl]
    cases m.statusOf h with
    | none => simp
    | some _ => simp

theorem consistent_resumeTorrent (hm : Consistent m) : Consistent (resumeTorrent m h) := by
  rw [resumeTorrent]
  split
  · exact hm
  · next entry hentry =>
    split_ifs with hpaused
    · apply consistent_setQueued hm
      rw [hm.active_iff, statusOf, hentry, Option.map_some, hpaused]
      decide
    · exact hm

theorem consistent_pauseAll (hm : Consistent m) (raises : Bytes → Bool) (hashes : List Bytes) :
    Consistent (pauseAll raises m hashes).1 := by
  induction hashes generalizing m with
  | nil => exact hm
  | cons info_hash rest ih =>
    rw [pauseAll]
    split_ifs
    · exact consistent_pauseTorrentInternal hm
    · exact ih (consistent_pauseTorrentInternal hm)

theorem consistent_stopExcess (hm : Consistent m) (limit count : Nat) (active : List Bytes)
    (raises : Bytes → Bool) : Consistent (stopExcess m limit count active raises).1 := by
  rw [stopExcess]
  split_ifs
  · exact consistent_pauseAll hm raises _
  · exact hm

theorem consistent_enforceQueueLimits (hm : Consistent m) (e : Enforcement) :
    Consistent (enforceQueueLimits config m e) := by
  simp only [enforceQueueLimits]
  have h₁ := consistent_stopExcess hm config.max_active_downloading m.active_downloading.size
    (m.active_downloading.iter e.downloading_order) e.raises
  split_ifs
  · exact h₁
  · exact consistent_stopExcess h₁ _ _ _ _
  · exact consistent_stopExcess (consistent_stopExcess h₁ _ _ _ _) _ _ _ _
  · rw [consistent_updateStatistics]
    exact consistent_stopExcess (consistent_stopExcess h₁ _ _ _ _) _ _ _ _

end Sections

section Starting

variable {reply : SessionReply} {outcome : StartOutcome}

/-- What a section does when it comes to the point of starting a torrent: the torrent may be started,
it is not active, its session answers and the cached statistics leave room. -/
structure Starts (config : QueueConfig) (m : TorrentQueueManager) (info_hash : Bytes)
    (reply : SessionReply) (status : SessionStatus) : Prop where
  priority : ∃ entry, m.queue.get? info_hash = some entry ∧ entry.priority ≠ .paused
  inactive : ¬m.IsActive info_hash
  reply : reply = some (some status)
  canStart : canStart config m.stats status.isSeeding = true

def started (m : TorrentQueueManager) (info_hash : Bytes) (status : SessionStatus) :
    TorrentQueueManager :=
  setStatus (addActive m info_hash status.isSeeding) info_hash .active

/-- A torrent is started, or the section changes at most the status of one that is not active. -/
theorem tryStartTorrent_cases (config : QueueConfig) (m : TorrentQueueManager) (h : Bytes)
    (reply : SessionReply) (outcome : StartOutcome) :
    (∃ status, Starts config m h reply status ∧
      tryStartTorrent config m h reply outcome =
        if !status.isRunning && outcome = .exception then
          (updateStatistics (setStatus (started m h status) h .queued), some false)
        else (updateStatistics (started m h status), some true)) ∨
    ((∀ status, ¬Starts config m h reply status) ∧
      ((tryStartTorrent config m h reply outcome).1 = m ∧
          ((tryStartTorrent config m h reply outcome).2 = some true → m.IsActive h) ∨
        ¬m.IsActive h ∧ tryStartTorrent config m h reply outcome =
          (updateStatistics (setStatus m h .queued), some false))) := by
  unfold tryStartTorrent
  split
  · next hnone =>
    refine .inr ⟨fun status hstarts => ?_, .inl ⟨rfl, fun hret => by simp at hret⟩⟩
    obtain ⟨entry, hentry, -⟩ := hstarts.priority
    rw [hnone] at hentry
    cases hentry
  · next entry hentry =>
    split_ifs with hpriority hactive
    · refine .inr ⟨fun status hstarts => ?_, .inl ⟨rfl, fun hret => by simp at hret⟩⟩
      obtain ⟨entry', hentry', hne⟩ := hstarts.priority
      rw [hentry, Option.some.injEq] at hentry'
      exact hne (hentry' ▸ hpriority)
    · exact .inr ⟨fun status hstarts => hstarts.inactive hactive, .inl ⟨rfl, fun _ => hactive⟩⟩
    · split
      · refine .inr ⟨fun status hstarts => ?_, .inl ⟨rfl, fun hret => by simp at hret⟩⟩
        cases hstarts.reply
      · refine .inr ⟨fun status hstarts => ?_, .inl ⟨rfl, fun hret => by simp at hret⟩⟩
        cases hstarts.reply
      · next status =>
        by_cases hcan : canStart config m.stats status.isSeeding = true
        · rw [if_pos hcan]
          exact .inl ⟨status, ⟨⟨entry, hentry, hpriority⟩, hactive, rfl, hcan⟩, rfl⟩
        · rw [if_neg hcan]
          refine .inr ⟨fun status' hstarts => hcan ?_, .inr ⟨hactive, rfl⟩⟩
          cases hstarts.reply
          exact hstarts.canStart

theorem isActive_started {status : SessionStatus} : (started m h status).IsActive h := by
  rw [started, IsActive, setStatus_downloading, setStatus_seeding, mem_downloading_addActive,
    mem_seeding_addActive]
  cases status.isSeeding
  · exact .inl (.inl ⟨rfl, rfl⟩)
  · exact .inr (.inl ⟨rfl, rfl⟩)

theorem sameBut_started (m : TorrentQueueManager) (h : Bytes) (status : SessionStatus) :
    SameBut h m (started m h status) :=
  (sameBut_addActive m h status.isSeeding).trans (sameBut_setStatus _ h .active)

theorem statusOf_started {status : SessionStatus} (hstarts : Starts config m h reply status) :
    (started m h status).statusOf h = some .active := by
  obtain ⟨entry, hentry, -⟩ := hstarts.priority
  rw [started, statusOf_setStatus, if_pos rfl, statusOf_addActive, statusOf, hentry,
    Option.map_some, Option.map_some]

theorem consistent_started (hm : Consistent m) {status : SessionStatus}
    (hstarts : Starts config m h reply status) : Consistent (started m h status) := by
  refine ((sameBut_started m h status).consistent_iff hm).mpr
    ⟨iff_of_true isActive_started (statusOf_started hstarts), ?_⟩
  · rintro ⟨hdownloading, hseeding⟩
    rw [started, setStatus_downloading, mem_downloading_addActive] at hdownloading
    rw [started, setStatus_seeding, mem_seeding_addActive] at hseeding
    rcases hdownloading with ⟨hfalse, -⟩ | hin
    · rcases hseeding with ⟨htrue, -⟩ | hin
      · rw [hfalse] at htrue
        cases htrue
      · exact hstarts.inactive (.inr hin)
    · exact hstarts.inactive (.inl hin)

/-- A torrent that is marked as queued after its failed start stays in its set. -/
theorem not_consistent_failed {status : SessionStatus} :
    ¬Consistent (setStatus (started m h status) h .queued) := by
  intro hcons
  have hactive : (setStatus (started m h status) h .queued).IsActive h := by
    rw [IsActive, setStatus_downloading, setStatus_seeding]
    exact isActive_started
  have hstatus := (hcons.active_iff h).mp hactive
  rw [statusOf_setStatus, if_pos rfl, Option.map_eq_some_iff] at hstatus
  obtain ⟨-, -, hqueued⟩ := hstatus
  cases hqueued

/-- Each limit that is not 0 holds. -/
structure WithinLimits (config : QueueConfig) (m : TorrentQueueManager) : Prop where
  downloading : config.max_active_downloading ≠ 0 →
    m.active_downloading.size ≤ config.max_active_downloading
  seeding : config.max_active_seeding ≠ 0 → m.active_seeding.size ≤ config.max_active_seeding
  total : config.max_active_torrents ≠ 0 →
    m.active_downloading.size + m.active_seeding.size ≤ config.max_active_torrents

/-- The sets themselves, not the cached statistics, have room for one more torrent of the kind. -/
structure HasRoom (config : QueueConfig) (m : TorrentQueueManager) (is_seeding : Bool) : Prop where
  downloading : config.max_active_downloading ≠ 0 →
    m.active_downloading.size + (!is_seeding).toNat ≤ config.max_active_downloading
  seeding : config.max_active_seeding ≠ 0 →
    m.active_seeding.size + is_seeding.toNat ≤ config.max_active_seeding
  total : config.max_active_torrents ≠ 0 →
    m.active_downloading.size + m.active_seeding.size + 1 ≤ config.max_active_torrents

theorem withinLimits_started {status : SessionStatus} (hinactive : ¬m.IsActive h) :
    WithinLimits config (updateStatistics (started m h status)) ↔
      HasRoom config m status.isSeeding := by
  have hdownloading : (started m h status).active_downloading.size =
      m.active_downloading.size + (!status.isSeeding).toNat := by
    rw [started, setStatus_downloading, addActive]
    cases status.isSeeding
    · exact PySet.size_add fun hin => hinactive (.inl hin)
    · rfl
  have hseeding : (started m h status).active_seeding.size =
      m.active_seeding.size + status.isSeeding.toNat := by
    rw [started, setStatus_seeding, addActive]
    cases status.isSeeding
    · rfl
    · exact PySet.size_add fun hin => hinactive (.inr hin)
  have hone : (!status.isSeeding).toNat + status.isSeeding.toNat = 1 := by
    cases status.isSeeding
    · rfl
    · rfl
  have htotal : (started m h status).active_downloading.size +
      (started m h status).active_seeding.size =
        m.active_downloading.size + m.active_seeding.size + 1 := by
    rw [hdownloading, hseeding]
    omega
  constructor
  · rintro ⟨hd, hs, ht⟩
    exact ⟨hdownloading ▸ hd, hseeding ▸ hs, htotal ▸ ht⟩
  · rintro ⟨hd, hs, ht⟩
    exact ⟨hdownloading ▸ hd, hseeding ▸ hs, htotal ▸ ht⟩

end Starting

section Syncing

variable {replies : Bytes → SessionReply}

/-- The session of the torrent runs. -/
def Runs (replies : Bytes → SessionReply) (info_hash : Bytes) : Prop :=
  ∃ status : SessionStatus, replies info_hash = some (some status) ∧ status.isRunning = true

/-- The torrents that `_sync_active_sets` comes to: it ends where `get_status` raises. -/
def reached (replies : Bytes → SessionReply) (hashes : List Bytes) : List Bytes :=
  hashes.takeWhile fun info_hash => !(replies info_hash matches some none)

theorem isActive_syncTorrent {session : Option SessionStatus} : (syncTorrent m h session).IsActive h ↔
    ∃ status, session = some status ∧ status.isRunning = true := by
  cases session with
  | none => simp [syncTorrent, not_isActive_discardActive]
  | some status =>
    cases hrun : status.isRunning with
    | false => simp [syncTorrent, hrun, not_isActive_discardActive]
    | true =>
      simp only [syncTorrent, hrun, if_true, IsActive, mem_downloading_addActive,
        mem_seeding_addActive]
      cases status.isSeeding
      · simp [hrun]
      · simp [hrun]

theorem sameBut_syncTorrent (m : TorrentQueueManager) (h : Bytes) (session : Option SessionStatus) :
    SameBut h m (syncTorrent m h session) := by
  cases session with
  | none => exact sameBut_discardActive m h
  | some status =>
    rw [syncTorrent]
    split_ifs
    · exact (sameBut_discardActive m h).trans (sameBut_addActive _ h _)
    · exact sameBut_discardActive m h

@[simp] theorem statusOf_syncTorrent {session : Option SessionStatus} :
    (syncTorrent m h session).statusOf j = m.statusOf j := by
  cases session with
  | none => rfl
  | some status =>
    rw [syncTorrent]
    split_ifs
    · rw [statusOf_addActive, statusOf_discardActive]
    · rfl

theorem not_both_syncTorrent {session : Option SessionStatus} :
    ¬(h ∈ (syncTorrent m h session).active_downloading ∧
      h ∈ (syncTorrent m h session).active_seeding) := by
  cases session with
  | none => simp [syncTorrent, discardActive]
  | some status =>
    rw [syncTorrent]
    split_ifs
    · rw [mem_downloading_addActive, mem_seeding_addActive]
      cases status.isSeeding
      · simp [discardActive]
      · simp [discardActive]
    · simp [discardActive]

/-- One pass of the loop is right for a torrent that was active exactly when its session runs. -/
theorem consistent_syncTorrent_iff (hm : Consistent m) (hactive : m.IsActive h)
    {session : Option SessionStatus} : Consistent (syncTorrent m h session) ↔
      ∃ status, session = some status ∧ status.isRunning = true := by
  rw [(sameBut_syncTorrent m h session).consistent_iff hm, isActive_syncTorrent,
    statusOf_syncTorrent, (hm.active_iff h).mp hactive]
  exact ⟨fun hsync => hsync.1.mpr rfl, fun hruns => ⟨iff_of_true hruns rfl, not_both_syncTorrent⟩⟩

/-- What the loop has spoilt for one torrent it does not put right at another. -/
theorem not_consistent_syncRest (hashes : List Bytes) (hnotin : j ∉ hashes) (hinactive : ¬m.IsActive j)
    (hstatus : m.statusOf j = some .active) : ¬Consistent (syncRest replies m hashes) := by
  induction hashes generalizing m with
  | nil => exact fun hcons => hinactive ((hcons.active_iff j).mpr hstatus)
  | cons info_hash rest ih =>
    rw [List.mem_cons, not_or] at hnotin
    have hnext (session : Option SessionStatus) :
        ¬Consistent (syncRest replies (syncTorrent m info_hash session) rest) := by
      apply ih hnotin.2
      · have hsame := sameBut_syncTorrent m info_hash session
        rw [IsActive, hsame.downloading j hnotin.1, hsame.seeding j hnotin.1]
        exact hinactive
      · rw [statusOf_syncTorrent, hstatus]
    rw [syncRest]
    split
    · exact hnext none
    · exact fun hcons => hinactive ((hcons.active_iff j).mpr hstatus)
    · exact hnext _

theorem consistent_syncRest_iff (hm : Consistent m) {hashes : List Bytes} (hnodup : hashes.Nodup)
    (hactive : ∀ j ∈ hashes, m.IsActive j) : Consistent (syncRest replies m hashes) ↔
      ∀ j ∈ reached replies hashes, Runs replies j := by
  induction hashes generalizing m with
  | nil => exact iff_of_true hm fun j hj => absurd hj List.not_mem_nil
  | cons info_hash rest ih =>
    obtain ⟨hnotin, hnodup⟩ := List.nodup_cons.mp hnodup
    obtain ⟨hthis, hrest⟩ := List.forall_mem_cons.mp hactive
    have hkeep (session : Option SessionStatus) :
        ∀ j ∈ rest, (syncTorrent m info_hash session).IsActive j := by
      intro j hj
      have hne : j ≠ info_hash := fun heq => hnotin (heq ▸ hj)
      have hsame := sameBut_syncTorrent m info_hash session
      rw [IsActive, hsame.downloading j hne, hsame.seeding j hne]
      exact hrest j hj
    have hdrop {session : Option SessionStatus}
        (hstop : ¬∃ status, session = some status ∧ status.isRunning = true) :
        ¬Consistent (syncRest replies (syncTorrent m info_hash session) rest) := by
      apply not_consistent_syncRest rest hnotin
      · rwa [isActive_syncTorrent]
      · rw [statusOf_syncTorrent, (hm.active_iff info_hash).mp hthis]
    rw [syncRest, reached]
    cases hreply : replies info_hash with
    | none =>
      simp only [List.takeWhile_cons, hreply, Bool.not_false, if_true]
      refine iff_of_false (hdrop (by simp)) fun hall => ?_
      obtain ⟨status, hsome, -⟩ := hall info_hash List.mem_cons_self
      rw [hreply] at hsome
      cases hsome
    | some answer =>
      cases answer with
      | none =>
        simp only [List.takeWhile_cons, hreply, Bool.not_true, Bool.false_eq_true, if_false]
        exact iff_of_true hm fun j hj => absurd hj List.not_mem_nil
      | some status =>
        simp only [List.takeWhile_cons, hreply, Bool.not_false, if_true, List.forall_mem_cons]
        by_cases hrun : status.isRunning = true
        · have hstep := (consistent_syncTorrent_iff hm hthis).mpr ⟨status, rfl, hrun⟩
          rw [ih hstep hnodup (hkeep (some status)), reached]
          exact (and_iff_right ⟨status, hreply, hrun⟩).symm
        · refine iff_of_false (hdrop ?_) fun hall => hrun ?_
          · rintro ⟨_, heq, hrun'⟩
            cases heq
            exact hrun hrun'
          · obtain ⟨status', hsome, hrun'⟩ := hall.1
            rw [hreply] at hsome
            cases hsome
            exact hrun'

end Syncing

end TorrentQueueManager

section Runs

open TorrentQueueManager

/-- A section of the queue manager under its lock, with what it meets. -/
inductive Section
  | addTorrent (info_hash : Bytes) (priority : Option TorrentPriority) (now : Time)
  | removeTorrent (info_hash : Bytes)
  | setPriority (info_hash : Bytes) (priority : TorrentPriority)
  | pauseTorrent (info_hash : Bytes)
  | resumeTorrent (info_hash : Bytes)
  | tryStartTorrent (info_hash : Bytes) (reply : SessionReply) (outcome : StartOutcome)
  | enforceQueueLimits (e : Enforcement)
  | syncActiveSets (order : List Bytes) (replies : Bytes → SessionReply)

/-- The manager between two sections, and whether the last one has started a torrent. -/
structure QueueState where
  manager : TorrentQueueManager := {}
  has_started : Bool := false

def step (config : QueueConfig) (s : QueueState) : Section → QueueState
  | .addTorrent info_hash priority now => ⟨s.manager.addTorrent config info_hash priority now, false⟩
  | .removeTorrent info_hash => ⟨s.manager.removeTorrent info_hash, false⟩
  | .setPriority info_hash priority => ⟨s.manager.setPriority info_hash priority, false⟩
  | .pauseTorrent info_hash => ⟨s.manager.pauseTorrent info_hash, false⟩
  | .resumeTorrent info_hash => ⟨s.manager.resumeTorrent info_hash, false⟩
  | .tryStartTorrent info_hash reply outcome =>
    let result := s.manager.tryStartTorrent config info_hash reply outcome
    -- A torrent that is active already is not started.
    ⟨result.1, result.2 = some true ∧ info_hash ∉ s.manager.active_downloading ∧
      info_hash ∉ s.manager.active_seeding⟩
  | .enforceQueueLimits e => ⟨s.manager.enforceQueueLimits config e, false⟩
  | .syncActiveSets order replies => ⟨s.manager.syncActiveSets order replies, false⟩

/-- The sets agree with the queue, and a torrent that has just been started is within the limits. -/
structure Sound (config : QueueConfig) (s : QueueState) : Prop where
  consistent : Consistent s.manager
  limits : s.has_started = true → WithinLimits config s.manager

/-- When a section comes to start a torrent, the session raises no exception and the sets have room;
every active torrent that `_sync_active_sets` comes to has a session that runs. -/
def Meets (config : QueueConfig) (s : QueueState) : Section → Prop
  | .tryStartTorrent info_hash reply outcome => ∀ status, Starts config s.manager info_hash reply status →
      (outcome = .exception → status.isRunning = true) ∧ HasRoom config s.manager status.isSeeding
  | .syncActiveSets order replies => ∀ info_hash ∈
      reached replies ((s.manager.active_downloading.union s.manager.active_seeding).iter order),
      Runs replies info_hash
  | _ => True

variable {config : QueueConfig} {s : QueueState}

theorem sound_iff_of_not_started {m : TorrentQueueManager} :
    Sound config ⟨m, false⟩ ↔ Consistent m :=
  ⟨fun h => h.consistent, fun h => ⟨h, fun hstarted => by cases hstarted⟩⟩

theorem sound_tryStartTorrent_iff (hs : Sound config s) (info_hash : Bytes) (reply : SessionReply)
    (outcome : StartOutcome) : Sound config (step config s (.tryStartTorrent info_hash reply outcome)) ↔
      Meets config s (.tryStartTorrent info_hash reply outcome) := by
  have hcons := hs.consistent
  rw [step, Meets]
  rcases tryStartTorrent_cases config s.manager info_hash reply outcome with
    ⟨status, hstarts, hresult⟩ | ⟨hnone, ⟨hsame, hret⟩ | ⟨hinactive, hresult⟩⟩
  · have honly : (∀ status, Starts config s.manager info_hash reply status →
        (outcome = .exception → status.isRunning = true) ∧
          HasRoom config s.manager status.isSeeding) ↔
        (outcome = .exception → status.isRunning = true) ∧
          HasRoom config s.manager status.isSeeding := by
      refine ⟨fun h => h status hstarts, fun h status' hstarts' => ?_⟩
      have heq : status' = status := by
        simpa using hstarts'.reply.symm.trans hstarts.reply
      rw [heq]
      exact h
    rw [honly]
    by_cases hfail : (!status.isRunning && outcome = .exception) = true
    · rw [hresult, if_pos hfail]
      simp only [Bool.and_eq_true, Bool.not_eq_true', decide_eq_true_eq] at hfail
      refine iff_of_false (fun h => ?_) fun h => ?_
      · exact not_consistent_failed (consistent_updateStatistics.mp h.consistent)
      · rw [h.1 hfail.2] at hfail
        cases hfail.1
    · rw [hresult, if_neg hfail]
      have hok : outcome = .exception → status.isRunning = true := by
        intro hexception
        simpa [hexception] using hfail
      have hinactive := hstarts.inactive
      rw [IsActive, not_or] at hinactive
      constructor
      · intro h
        refine ⟨hok, (withinLimits_started hstarts.inactive).mp (h.limits ?_)⟩
        simpa using hinactive
      · rintro ⟨-, hroom⟩
        exact ⟨consistent_updateStatistics.mpr (consistent_started hcons hstarts),
          fun _ => (withinLimits_started hstarts.inactive).mpr hroom⟩
  · refine iff_of_true ⟨?_, fun hstarted => ?_⟩ fun status hstarts => absurd hstarts (hnone status)
    · show Consistent (tryStartTorrent config s.manager info_hash reply outcome).1
      rwa [hsame]
    · obtain ⟨htrue, hd, hse⟩ := of_decide_eq_true hstarted
      exact absurd (hret htrue) (not_or.mpr ⟨hd, hse⟩)
  · refine iff_of_true ⟨?_, fun hstarted => ?_⟩ fun status hstarts => absurd hstarts (hnone status)
    · rw [hresult]
      exact consistent_updateStatistics.mpr (consistent_setQueued hcons hinactive)
    · rw [hresult] at hstarted
      simp at hstarted

/-- What one section leaves behind. -/
theorem sound_step_iff (s : QueueState) (e : Section) (hs : Sound config s) :
    Sound config (step config s e) ↔ Meets config s e := by
  have hcons := hs.consistent
  cases e with
  | addTorrent info_hash priority now =>
    exact iff_of_true (sound_iff_of_not_started.mpr (consistent_addTorrent hcons priority now)) trivial
  | removeTorrent info_hash =>
    exact iff_of_true (sound_iff_of_not_started.mpr (consistent_removeTorrent hcons)) trivial
  | setPriority info_hash priority =>
    exact iff_of_true (sound_iff_of_not_started.mpr (consistent_setPriority hcons priority)) trivial
  | pauseTorrent info_hash =>
    exact iff_of_true (sound_iff_of_not_started.mpr (consistent_pauseTorrent hcons)) trivial
  | resumeTorrent info_hash =>
    exact iff_of_true (sound_iff_of_not_started.mpr (consistent_resumeTorrent hcons)) trivial
  | tryStartTorrent info_hash reply outcome => exact sound_tryStartTorrent_iff hs _ _ _
  | enforceQueueLimits e =>
    exact iff_of_true (sound_iff_of_not_started.mpr (consistent_enforceQueueLimits hcons e)) trivial
  | syncActiveSets order replies =>
    rw [step, sound_iff_of_not_started, Meets, syncActiveSets]
    exact consistent_syncRest_iff hcons PySet.nodup_iter fun j hj => PySet.mem_union.mp (PySet.mem_iter.mp hj)

theorem sound_empty (config : QueueConfig) : Sound config {} where
  consistent := ⟨fun _ => iff_of_false (by simp [IsActive]) (by simp [statusOf]), by simp⟩
  limits h := by cases h

/-- The bookkeeping is right at every point of a run exactly when every section meets its condition. -/
theorem always_sound_iff_meets (config : QueueConfig) (sections : List Section) :
    Always (step config) (Sound config) {} sections ↔
      StepsMeet (step config) (Meets config) {} sections :=
  always_iff_stepsMeet sound_step_iff (sound_empty config)

/-- A torrent is filed, and its session raises when it is started. -/
def failedStart : List Section :=
  [.addTorrent [1] none 0, .tryStartTorrent [1] (some (some {})) .exception]

/-- A torrent that could not be started counts as active although it is queued. -/
theorem not_always_sound_failedStart : ¬Always (step {}) (Sound {}) {} failedStart := by
  intro h
  have hcons := (h.2.2 : Sound {} _).consistent
  have hactive := (hcons.active_iff [1]).mp (.inl (by decide))
  revert hactive
  decide

end Runs

end Ccbt.Queue
