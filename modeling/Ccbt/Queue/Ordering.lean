import Ccbt.Queue.Bookkeeping
import Ccbt.Queue.Lock

/-!
# The order of the torrent queue

What `reorder_torrent` makes of the order of the queue, and which torrent `_try_start_next_torrent`
starts. The queue is sorted by priority and added time whenever it changes, so that a torrent stays
where it has been moved if and only if it belongs there. Only the first torrent that is queued is
ever tried.
-/

namespace Ccbt.Queue

open Python

section Sorting

variable {α κ : Type*} [LinearOrder κ] {key : α → κ}

/-- What is filtered out of a sorted list does not move the others. -/
theorem filter_orderedInsert (p : α → Bool) (a : α) {l : List α}
    (h : l.Pairwise fun x y => key x ≤ key y) :
    (l.orderedInsert (fun x y => key x ≤ key y) a).filter p =
      if p a then (l.filter p).orderedInsert (fun x y => key x ≤ key y) a else l.filter p := by
  induction l with
  | nil => rw [List.orderedInsert_nil, List.filter_cons, List.filter_nil, List.orderedInsert_nil]
  | cons b l ih =>
    obtain ⟨hfirst, hrest⟩ := List.pairwise_cons.mp h
    rw [List.orderedInsert_cons]
    split
    · next hle =>
      rw [List.filter_cons]
      split
      · -- the new element is not behind any of the list
        have hall : ∀ x ∈ (b :: l).filter p, key a ≤ key x := by
          intro x hx
          obtain rfl | hx := List.mem_cons.mp (List.mem_filter.mp hx).1
          · exact hle
          · exact hle.trans (hfirst x hx)
        cases hfilter : (b :: l).filter p with
        | nil => rfl
        | cons c rest =>
          rw [hfilter] at hall
          rw [List.orderedInsert_cons, if_pos (hall c List.mem_cons_self)]
      · rfl
    · next hlt =>
      rw [List.filter_cons, ih hrest, List.filter_cons]
      split
      · split
        · rw [List.orderedInsert_cons, if_neg hlt]
        · rfl
      · rfl

/-- Sorting is stable: the order of some elements does not depend on the others. -/
theorem filter_sortOn (key : α → κ) (p : α → Bool) (l : List α) :
    (sortOn key l).filter p = sortOn key (l.filter p) := by
  induction l with
  | nil => rfl
  | cons a l ih =>
    have hinsert := filter_orderedInsert p a (sortOn_pairwise key l)
    rw [ih] at hinsert
    refine hinsert.trans ?_
    rw [List.filter_cons]
    split
    · rfl
    · rfl

theorem insertIdx_eq_take_append (a : α) {n : Nat} {l : List α} (h : n ≤ l.length) :
    l.insertIdx n a = l.take n ++ a :: l.drop n := by
  induction l generalizing n with
  | nil =>
    obtain rfl : n = 0 := Nat.le_zero.mp h
    rfl
  | cons b l ih =>
    cases n with
    | zero => rfl
    | succ n =>
      rw [List.insertIdx_succ_cons, ih (Nat.le_of_succ_le_succ h)]
      rfl

/-- A list is told by the place of one element and by the others. -/
theorem eq_take_append_iff [DecidableEq α] {a : α} {n : Nat} {l others : List α} (hnodup : l.Nodup)
    (ha : a ∉ others) (hn : n ≤ others.length) :
    l = others.take n ++ a :: others.drop n ↔
      l[n]? = some a ∧ l.filter (fun b => b ≠ a) = others := by
  have hfilter {l : List α} (hl : a ∉ l) : l.filter (fun b => b ≠ a) = l :=
    List.filter_eq_self.mpr fun b hb => decide_eq_true fun hba => hl (hba ▸ hb)
  constructor
  · rintro rfl
    have htake : (others.take n).length = n := List.length_take_of_le hn
    refine ⟨by rw [List.getElem?_append_right htake.le, htake, Nat.sub_self]; rfl, ?_⟩
    rw [List.filter_append, List.filter_cons_of_neg (by simp),
      hfilter fun h => ha (List.mem_of_mem_take h), hfilter fun h => ha (List.mem_of_mem_drop h),
      List.take_append_drop]
  · rintro ⟨hget, rfl⟩
    obtain ⟨hlt, helem⟩ := List.getElem?_eq_some_iff.mp hget
    have hsplit : l = l.take n ++ a :: l.drop (n + 1) := by
      rw [← helem, ← List.drop_eq_getElem_cons hlt, List.take_append_drop]
    have hnodup' := hnodup
    rw [hsplit, List.nodup_middle, List.nodup_cons, List.mem_append, not_or] at hnodup'
    obtain ⟨⟨hbefore, hafter⟩, -⟩ := hnodup'
    have hothers : l.filter (fun b => b ≠ a) = l.take n ++ l.drop (n + 1) := by
      refine (congrArg (List.filter fun b => b ≠ a) hsplit).trans ?_
      rw [List.filter_append, List.filter_cons_of_neg (by simp), hfilter hbefore, hfilter hafter]
    have htake : (l.take n).length = n := List.length_take_of_le hlt.le
    rw [hothers, List.take_left' htake, List.drop_left' htake]
    exact hsplit

/-- Lists with the same elements are equal if these are told apart, and come in the same order, by
something. -/
theorem eq_of_perm_of_map_eq {β : Type*} {f : α → β} {l l' : List α} (hperm : l.Perm l')
    (hmap : l.map f = l'.map f) (hnodup : (l'.map f).Nodup) : l = l' := by
  refine List.ext_getElem hperm.length_eq fun i hi hi' => ?_
  refine List.inj_on_of_nodup_map hnodup (hperm.mem_iff.mp (List.getElem_mem hi))
    (List.getElem_mem hi') ?_
  have hget := congrArg (·[i]?) hmap
  simpa [List.getElem?_map, hi, hi'] using hget

end Sorting

section Order

/-- The queue is in the order of priority and added time. -/
def InOrder (queue : Dict Bytes QueueEntry) : Prop :=
  queue.entries.Pairwise fun x y => sortKey x.2 ≤ sortKey y.2

variable {queue : Dict Bytes QueueEntry} {h g : Bytes} {entry : QueueEntry}

theorem keys_erase (queue : Dict Bytes QueueEntry) (g : Bytes) :
    (queue.erase g).keys = queue.keys.filter fun k => k ≠ g := by
  rw [Dict.keys, Dict.keys, Dict.erase, List.filter_map]
  rfl

theorem keys_reorderQueue (queue : Dict Bytes QueueEntry) :
    (reorderQueue queue).keys = (sortOn (fun item => sortKey item.2) queue.entries).map Prod.fst :=
  keys_numberFrom 0 _

/-- Numbering changes no key that is sorted by. -/
theorem map_sortKey_numberFrom (n : Nat) (items : List (Bytes × QueueEntry)) :
    (numberFrom n items).map (fun item => sortKey item.2) =
      items.map fun item => sortKey item.2 := by
  induction items generalizing n with
  | nil => rfl
  | cons item items ih =>
    rw [numberFrom, List.map_cons, List.map_cons, ih]
    rfl

theorem inOrder_reorderQueue (queue : Dict Bytes QueueEntry) : InOrder (reorderQueue queue) := by
  have hsorted := sortOn_pairwise (fun item : Bytes × QueueEntry => sortKey item.2) queue.entries
  have hkeys := map_sortKey_numberFrom 0 (sortOn (fun item => sortKey item.2) queue.entries)
  rw [InOrder]
  rw [← List.pairwise_map (f := fun item : Bytes × QueueEntry => sortKey item.2)] at hsorted ⊢
  rwa [reorderQueue, hkeys]

theorem getElem?_numberFrom (n : Nat) (items : List (Bytes × QueueEntry)) (i : Nat) :
    (numberFrom n items)[i]? =
      items[i]?.map fun item => (item.1, { item.2 with queue_position := n + i }) := by
  induction items generalizing n i with
  | nil => rfl
  | cons item items ih =>
    cases i with
    | zero => rfl
    | succ i =>
      rw [numberFrom, List.getElem?_cons_succ, ih, List.getElem?_cons_succ,
        Nat.add_right_comm, Nat.add_assoc]

/-- Every entry has its position. -/
theorem position_reorderQueue (queue : Dict Bytes QueueEntry) {i : Nat} {item : Bytes × QueueEntry}
    (hitem : (reorderQueue queue).entries[i]? = some item) : item.2.queue_position = i := by
  have hnumber := (getElem?_numberFrom 0 _ i).symm.trans hitem
  obtain ⟨item', -, rfl⟩ := Option.map_eq_some_iff.mp hnumber
  exact Nat.zero_add i

theorem filter_setEntry (g : Bytes) (entry : QueueEntry) (items : List (Bytes × QueueEntry)) :
    (setEntry g entry items).filter (fun item => item.1 ≠ g) =
      items.filter fun item => item.1 ≠ g := by
  induction items with
  | nil => simp [setEntry]
  | cons item items ih =>
    rw [setEntry]
    split
    · next heq => simp [heq]
    · rw [List.filter_cons, ih, List.filter_cons]

/-- What is said about one torrent does not change the order of the others. -/
theorem order_of_others {queue' : Dict Bytes QueueEntry} (hqueue : InOrder queue)
    (hothers : queue'.entries.filter (fun item => item.1 ≠ g) =
      queue.entries.filter fun item => item.1 ≠ g) :
    ((reorderQueue queue').erase g).keys = (queue.erase g).keys := by
  rw [keys_erase, keys_reorderQueue, List.filter_map]
  show List.map Prod.fst ((sortOn _ queue'.entries).filter fun item => item.1 ≠ g) = _
  have hsorted : (queue.entries.filter fun item => item.1 ≠ g).Pairwise
      fun x y => sortKey x.2 ≤ sortKey y.2 := hqueue.filter _
  rw [filter_sortOn, hothers, sortOn_eq_self _ hsorted]
  rfl

end Order

section Moving

namespace TorrentQueueManager

variable (config : QueueConfig) (m : TorrentQueueManager) (info_hash : Bytes)

/-- `reorder_torrent`, with what it returns. -/
def reorderTorrentReturning (new_position : Int) : TorrentQueueManager × Bool :=
  (m.reorderTorrent info_hash new_position,
    m.queue.contains info_hash && decide (0 ≤ new_position ∧ new_position < m.queue.size))

end TorrentQueueManager

/-- The operations on another torrent behind which the queue is sorted again. -/
inductive Resorting
  | add_torrent (priority : Option TorrentPriority) (now : Time)
  | remove_torrent
  | set_priority (priority : TorrentPriority)

def Resorting.run (config : QueueConfig) (m : TorrentQueueManager) (info_hash : Bytes) :
    Resorting → TorrentQueueManager
  | add_torrent priority now => m.addTorrent config info_hash priority now
  | remove_torrent => m.removeTorrent info_hash
  | set_priority priority => m.setPriority info_hash priority

/-- What is reported by a move: the torrent is at the position and says so, as does every other, the
others keep their order, and the order stays as it is behind an operation on another torrent. -/
structure Moved (config : QueueConfig) (m : TorrentQueueManager) (h : Bytes) (p : Nat)
    (m' : TorrentQueueManager) : Prop where
  position : m'.queue.keys[p]? = some h
  others : (m'.queue.erase h).keys = (m.queue.erase h).keys
  numbered : ∀ (i : Nat) (item : Bytes × QueueEntry), m'.queue.entries[i]? = some item →
    item.2.queue_position = i
  survives : ∀ (g : Bytes) (op : Resorting), g ≠ h →
    ((op.run config m' g).queue.erase g).keys = (m'.queue.erase g).keys

/-- The torrent belongs at the position: the others are in order, and it is neither in front of one
that comes before it nor behind one that comes after it. -/
structure BelongsAt (queue : Dict Bytes QueueEntry) (h : Bytes) (entry : QueueEntry) (p : Nat) :
    Prop where
  others : InOrder (queue.erase h)
  ahead : ∀ item ∈ (queue.erase h).entries.take p, sortKey item.2 ≤ sortKey entry
  behind : ∀ item ∈ (queue.erase h).entries.drop p, sortKey entry ≤ sortKey item.2

variable {config : QueueConfig} {m : TorrentQueueManager} {h g : Bytes} {entry : QueueEntry}
  {p : Nat}

/-- Operations on one torrent keep the order of the others, when the queue is in order. -/
theorem resorting_others (hm : InOrder m.queue) (op : Resorting) :
    ((op.run config m g).queue.erase g).keys = (m.queue.erase g).keys := by
  cases op with
  | add_torrent priority now =>
    rw [Resorting.run, TorrentQueueManager.addTorrent]
    split
    · rfl
    · exact order_of_others hm (filter_setEntry g _ _)
  | remove_torrent =>
    rw [Resorting.run, TorrentQueueManager.removeTorrent]
    split
    · rfl
    · refine order_of_others hm ?_
      rw [Dict.erase, List.filter_filter]
      simp only [Bool.and_self]
  | set_priority priority =>
    rw [Resorting.run, TorrentQueueManager.setPriority]
    split
    · rfl
    · exact order_of_others hm (filter_setEntry g _ _)

theorem length_others (hentry : m.queue.get? h = some entry) (hp : p < m.queue.size) :
    p ≤ (m.queue.erase h).entries.length := by
  have hsize := m.queue.size_erase h
  rw [Dict.contains, hentry, Option.isSome_some, if_pos rfl, Dict.size] at hsize
  omega

/-- The entries behind the move, before they are sorted. -/
theorem entries_moveEntry (hentry : m.queue.get? h = some entry) (hp : p < m.queue.size) :
    (moveEntry m.queue h entry p).entries =
      (m.queue.erase h).entries.take p ++ (h, entry) :: (m.queue.erase h).entries.drop p := by
  have hlength := length_others hentry hp
  rw [moveEntry, dif_pos hlength]
  exact insertIdx_eq_take_append (h, entry) hlength

/-- The torrent is put in between the others. -/
theorem keys_moveEntry (hentry : m.queue.get? h = some entry) (hp : p < m.queue.size) :
    (moveEntry m.queue h entry p).keys =
      (m.queue.erase h).keys.take p ++ h :: (m.queue.erase h).keys.drop p := by
  rw [Dict.keys, entries_moveEntry hentry hp, List.map_append, List.map_cons, List.map_take,
    List.map_drop]
  rfl

theorem inOrder_moveEntry_iff (hentry : m.queue.get? h = some entry) (hp : p < m.queue.size) :
    InOrder (moveEntry m.queue h entry p) ↔ BelongsAt m.queue h entry p := by
  rw [InOrder, entries_moveEntry hentry hp, List.pairwise_append, List.pairwise_cons]
  constructor
  · rintro ⟨htake, ⟨hbehind, hdrop⟩, hcross⟩
    refine ⟨?_, fun item hitem => hcross item hitem _ List.mem_cons_self, hbehind⟩
    rw [InOrder, ← List.take_append_drop p (m.queue.erase h).entries, List.pairwise_append]
    exact ⟨htake, hdrop, fun x hx y hy => hcross x hx y (List.mem_cons_of_mem _ hy)⟩
  · rintro ⟨hothers, hahead, hbehind⟩
    rw [InOrder, ← List.take_append_drop p (m.queue.erase h).entries, List.pairwise_append]
      at hothers
    obtain ⟨htake, hdrop, hcross⟩ := hothers
    refine ⟨htake, ⟨hbehind, hdrop⟩, fun x hx y hy => ?_⟩
    obtain rfl | hy := List.mem_cons.mp hy
    · exact hahead x hx
    · exact hcross x hx y hy

/-- A move that is reported is made if and only if the torrent belongs at the position. -/
theorem moved_iff (hentry : m.queue.get? h = some entry)
    (hreturn : (m.reorderTorrentReturning h p).2 = true) :
    Moved config m h p (m.reorderTorrentReturning h p).1 ↔ BelongsAt m.queue h entry p := by
  have hp : p < m.queue.size := by
    rw [TorrentQueueManager.reorderTorrentReturning, Bool.and_eq_true, decide_eq_true_eq] at hreturn
    omega
  have hqueue : (m.reorderTorrentReturning h p).1.queue =
      reorderQueue (moveEntry m.queue h entry p) := by
    rw [TorrentQueueManager.reorderTorrentReturning, TorrentQueueManager.reorderTorrent, hentry]
    dsimp only
    rw [if_neg (by omega), Int.toNat_natCast]
  have hperm := sortOn_perm (fun item : Bytes × QueueEntry => sortKey item.2)
    (moveEntry m.queue h entry p).entries
  have hh : h ∉ (m.queue.erase h).keys := by
    rw [keys_erase, List.mem_filter]
    simp
  -- the torrent is there, and the others in order, if sorting has changed nothing
  have hunmoved : (reorderQueue (moveEntry m.queue h entry p)).keys =
      (moveEntry m.queue h entry p).keys ↔ InOrder (moveEntry m.queue h entry p) := by
    rw [keys_reorderQueue]
    constructor
    · intro hkeys
      rw [InOrder, ← eq_of_perm_of_map_eq hperm hkeys (moveEntry m.queue h entry p).nodup_keys]
      exact sortOn_pairwise _ _
    · intro horder
      rw [sortOn_eq_self _ horder]
      rfl
  have hlength : p ≤ (m.queue.erase h).keys.length := by
    rw [Dict.keys, List.length_map]
    exact length_others hentry hp
  have hnodup : (reorderQueue (moveEntry m.queue h entry p)).keys.Nodup :=
    (reorderQueue _).nodup_keys
  rw [← inOrder_moveEntry_iff hentry hp, ← hunmoved, keys_moveEntry hentry hp,
    eq_take_append_iff hnodup hh hlength, ← keys_erase, ← hqueue]
  refine ⟨fun hmoved => ⟨hmoved.position, hmoved.others⟩, fun hkeys =>
    ⟨hkeys.1, hkeys.2, fun i item hitem => ?_, fun g op _ => resorting_others ?_ op⟩⟩
  · rw [hqueue] at hitem
    exact position_reorderQueue _ hitem
  · rw [hqueue]
    exact inOrder_reorderQueue _

/-- Two torrents of one priority. -/
def twoTorrents : TorrentQueueManager where
  queue := {
    entries := [
      (List.replicate 20 1, ⟨List.replicate 20 1, .normal, 0, 1, .queued⟩),
      (List.replicate 20 2, ⟨List.replicate 20 2, .normal, 1, 2, .queued⟩)]
    nodup_keys := by decide }

theorem moved_to_its_place :
    Moved {} twoTorrents (List.replicate 20 2) 1
      (twoTorrents.reorderTorrentReturning (List.replicate 20 2) 1).1 := by
  refine (moved_iff (p := 1) rfl rfl).mpr ⟨List.pairwise_singleton _ _, ?_, ?_⟩
  · decide
  · decide

/-- The second torrent is not moved to the front, although it is reported. -/
theorem not_moved_to_front :
    (twoTorrents.reorderTorrentReturning (List.replicate 20 2) 0).2 = true ∧
      ¬Moved {} twoTorrents (List.replicate 20 2) 0
        (twoTorrents.reorderTorrentReturning (List.replicate 20 2) 0).1 := by
  refine ⟨rfl, fun hmoved => ?_⟩
  exact absurd hmoved.position (by decide)

end Moving

section Starting

namespace TorrentQueueManager

variable (config : QueueConfig) (m : TorrentQueueManager)

/-- The first torrent that is queued, in the order of the queue. -/
def firstQueued : Option Bytes :=
  (m.queue.entries.find? fun item => item.2.status = .queued).map Prod.fst

/-- `_try_start_next_torrent`, with what the sessions say and do. -/
def tryStartNextTorrent (replies : Bytes → SessionReply) (outcomes : Bytes → StartOutcome) :
    TorrentQueueManager :=
  match m.firstQueued with
  | none => m
  | some info_hash => (m.tryStartTorrent config info_hash (replies info_hash) (outcomes info_hash)).1

/-- `_try_start_torrent` would start the torrent. -/
def Startable (reply : SessionReply) (outcome : StartOutcome) (info_hash : Bytes) : Prop :=
  ¬m.IsActive info_hash ∧ (m.tryStartTorrent config info_hash reply outcome).2 = some true

/-- The torrent is active behind a step, and was not before. -/
structure StartsBy (m' : TorrentQueueManager) (info_hash : Bytes) : Prop where
  inactive : ¬m.IsActive info_hash
  active : m'.IsActive info_hash
  status : m'.statusOf info_hash = some .active

end TorrentQueueManager

open TorrentQueueManager Concurrency Coroutine

variable {config : QueueConfig} {m : TorrentQueueManager} {g h : Bytes}

/-- By itself the coroutine does what the section of the manager says. -/
theorem finish_tryStartNextTorrent (i : Input) : ((Operation.tryStartNextTorrent config).finish i m).2 =
    m.tryStartNextTorrent config (fun _ => i.reply) fun _ => i.outcome := by
  have hfirst : (withLock LockName._lock (Operation.get fun _ s => s.firstQueued) :
      Code (Option Bytes)).finish i m = (.ok m.firstQueued, m) := finish_withLock ..
  refine (congrArg Prod.snd (finish_bind _ hfirst)).trans ?_
  rw [tryStartNextTorrent]
  cases m.firstQueued with
  | none => rfl
  | some h =>
    have hstart : (Operation.tryStartTorrent config h).finish i m = _ :=
      Operation.finish_tryStartTorrent i m
    dsimp only
    cases hresult : (m.tryStartTorrent config h i.reply i.outcome).2 with
    | none =>
      rw [hresult] at hstart
      rw [finish_bind_error _ hstart]
    | some started =>
      rw [hresult] at hstart
      rw [finish_bind _ hstart]
      rfl

theorem not_startsBy_self : ¬m.StartsBy m g := fun hstarts => hstarts.inactive hstarts.active

/-- A step that concerns one torrent starts no other. -/
theorem eq_of_startsBy {m' : TorrentQueueManager} (hsame : SameBut h m m')
    (hstarts : m.StartsBy m' g) : g = h := by
  by_contra hne
  refine hstarts.inactive ?_
  rw [IsActive, ← hsame.downloading g hne, ← hsame.seeding g hne]
  exact hstarts.active

/-- `_try_start_torrent` starts its torrent if it says so and the torrent was not active before. -/
theorem startsBy_tryStartTorrent_iff {reply : SessionReply} {outcome : StartOutcome} :
    m.StartsBy (m.tryStartTorrent config h reply outcome).1 g ↔
      g = h ∧ m.Startable config reply outcome h := by
  rw [Startable]
  rcases tryStartTorrent_cases config m h reply outcome with
    ⟨status, hstarts, hresult⟩ | ⟨-, ⟨hsame, hreturn⟩ | ⟨hinactive, hresult⟩⟩
  · rw [hresult]
    split_ifs with hraises
    · -- the torrent is marked as queued when its session raises
      refine iff_of_false (fun hg => ?_) fun hg => by simpa using hg.2.2
      have hsame := (sameBut_started m h status).trans (sameBut_setStatus _ h .queued)
      have hstatus : (setStatus (started m h status) h .queued).statusOf g = some .active :=
        hg.status
      obtain rfl : g = h := eq_of_startsBy hsame ⟨hg.inactive, hg.active, hg.status⟩
      rw [statusOf_setStatus, if_pos rfl, statusOf_started hstarts] at hstatus
      cases hstatus
    · have hstarted : m.StartsBy (updateStatistics (started m h status)) h :=
        ⟨hstarts.inactive, isActive_started, statusOf_started hstarts⟩
      constructor
      · intro hg
        have hsame := sameBut_started m h status
        exact ⟨eq_of_startsBy hsame ⟨hg.inactive, hg.active, hg.status⟩, hstarts.inactive, rfl⟩
      · rintro ⟨rfl, -⟩
        exact hstarted
  · rw [hsame]
    exact iff_of_false not_startsBy_self fun hg => hg.2.1 (hreturn hg.2.2)
  · rw [hresult]
    refine iff_of_false (fun hg => hg.inactive ?_) fun hg => by simpa using hg.2.2
    have hactive : (setStatus m h .queued).IsActive g := hg.active
    rwa [IsActive, setStatus_downloading, setStatus_seeding] at hactive

/-- Only the first torrent that is queued is tried: it is started if it can be, and no other is. -/
theorem startsBy_tryStartNextTorrent_iff (config : QueueConfig) (m : TorrentQueueManager)
    (replies : Bytes → SessionReply) (outcomes : Bytes → StartOutcome) (g : Bytes) :
    m.StartsBy (m.tryStartNextTorrent config replies outcomes) g ↔
      m.firstQueued = some g ∧ m.Startable config (replies g) (outcomes g) g := by
  rw [tryStartNextTorrent]
  cases hfirst : m.firstQueued with
  | none => exact iff_of_false not_startsBy_self fun h => nomatch h.1
  | some h =>
    dsimp only
    rw [startsBy_tryStartTorrent_iff, Option.some.injEq]
    constructor
    · rintro ⟨rfl, hstartable⟩
      exact ⟨rfl, hstartable⟩
    · rintro ⟨rfl, hstartable⟩
      exact ⟨rfl, hstartable⟩

/-- The first torrent has no session, and the second one is not tried. -/
theorem second_waits : ∃ entry, twoTorrents.queue.get? (List.replicate 20 2) = some entry ∧
    entry.status = .queued ∧
    twoTorrents.Startable {} (some (some {})) .done (List.replicate 20 2) ∧
    ∀ g, ¬twoTorrents.StartsBy
      (twoTorrents.tryStartNextTorrent {}
        (fun info_hash => if info_hash = List.replicate 20 2 then some (some {}) else none)
        fun _ => .done) g := by
  refine ⟨_, rfl, rfl, ⟨fun hactive => ?_, rfl⟩, fun g => not_startsBy_self⟩
  rcases hactive with hin | hin
  · exact absurd hin (by decide)
  · exact absurd hin (by decide)

end Starting

end Ccbt.Queue
