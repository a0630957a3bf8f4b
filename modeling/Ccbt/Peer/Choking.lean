import Ccbt.Peer.Locks

/-!
# Choking rounds of `AsyncPeerConnectionManager` (`peer/async_peer_connection.py`)

`_update_choking` taken to its end, with the CHOKE and UNCHOKE messages it sends. It is the
coroutine of the same name when nobody else moves, no lock makes it wait and no message is
refused.
-/

namespace Ccbt

open Python Concurrency

namespace Peer

namespace ConnectionManager

/-- The same connections, choked as told. -/
def withChoking (s : ConnectionManager) (am_choking : ConnectionRef → Bool) : ConnectionManager :=
  { s with object := fun r => { s.object r with am_choking := am_choking r } }

section WithChoking

variable (s : ConnectionManager) (f g : ConnectionRef → Bool)

@[simp] theorem withChoking_withChoking : (s.withChoking f).withChoking g = s.withChoking g := rfl

@[simp] theorem am_choking_withChoking (r : ConnectionRef) :
    ((s.withChoking f).object r).am_choking = f r := rfl

@[simp] theorem upload_slots_withChoking : (s.withChoking f).upload_slots = s.upload_slots := rfl

theorem setChoking_eq_withChoking (r : ConnectionRef) (b : Bool) : s.setChoking r b =
    s.withChoking fun r' => if r = r' then b else (s.object r').am_choking := by
  rw [setChoking, setObject, withChoking]
  congr 1
  funext r'
  by_cases h : r' = r
  · rw [if_pos h, if_pos h.symm, h]
  · rw [if_neg h, if_neg (Ne.symm h)]

end WithChoking

end ConnectionManager

/-- The manager with the CHOKE and UNCHOKE messages sent so far, each with its connection. -/
structure LoggedManager where
  manager : ConnectionManager
  sent : List (ConnectionRef × PeerMessage) := []

namespace LoggedManager

/-- The last CHOKE or UNCHOKE message sent to a connection. -/
def lastSent (u : LoggedManager) (r : ConnectionRef) : Option PeerMessage :=
  (u.sent.filter fun e => e.1 = r).getLast?.map Prod.snd

def tell (am_choking : Bool) (u : LoggedManager) (r : ConnectionRef) : LoggedManager where
  manager := u.manager.setChoking r am_choking
  sent := u.sent ++ [(r, if am_choking then .ChokeMessage else .UnchokeMessage)]

def tellNews (am_choking : Bool) (u : LoggedManager) (r : ConnectionRef) : LoggedManager :=
  if (u.manager.object r).am_choking = am_choking then u else u.tell am_choking r

abbrev chokePeer : LoggedManager → ConnectionRef → LoggedManager := tellNews true

abbrev unchokePeer : LoggedManager → ConnectionRef → LoggedManager := tellNews false

abbrev sendUnchoke : LoggedManager → ConnectionRef → LoggedManager := tell false

/-- The part of `_update_optimistic_unchoke` that selects a new peer. -/
def selectOptimistic (current_time : Time) (choice : Nat) (u : LoggedManager) : LoggedManager :=
  match u.manager.availablePeers[choice % u.manager.availablePeers.length]? with
  | none => u
  | some r =>
    let chosen := unchokePeer { u with manager.optimistic_unchoke := some r } r
    { chosen with manager.optimistic_unchoke_time := current_time }

def updateOptimisticUnchoke (config : NetworkConfig) (current_time : Time) (choice : Nat)
    (u : LoggedManager) : LoggedManager :=
  if u.manager.optimisticDue config.optimistic_unchoke_interval current_time then
    match u.manager.outgoingOptimistic with
    | none => u.selectOptimistic current_time choice
    | some outgoing => (u.chokePeer outgoing).selectOptimistic current_time choice
  else u

def updateChoking (config : NetworkConfig) (current_time : Time) (choice : Nat)
    (u : LoggedManager) : LoggedManager :=
  let new_upload_slots := u.manager.topUploaders config.max_upload_slots
  if u.manager.activePeers = [] then u
  else
    let choked := (u.manager.upload_slots.filter fun r => r ∉ new_upload_slots).foldl chokePeer u
    let unchoked :=
      (new_upload_slots.filter fun r => r ∉ u.manager.upload_slots).foldl unchokePeer choked
    updateOptimisticUnchoke config current_time choice
      { unchoked with manager.upload_slots := new_upload_slots }

variable (b : Bool) (u : LoggedManager)

theorem manager_tellNews (r : ConnectionRef) : (u.tellNews b r).manager =
    u.manager.withChoking fun r' => if r = r' then b else (u.manager.object r').am_choking := by
  rw [tellNews]
  split
  · next h =>
    have hsame : (fun r' => if r = r' then b else (u.manager.object r').am_choking) =
        fun r' => (u.manager.object r').am_choking := by
      funext r'
      split
      · next hr => rw [← hr, h]
      · rfl
    rw [hsame]
    rfl
  · exact ConnectionManager.setChoking_eq_withChoking u.manager r b

theorem manager_foldl_tellNews (l : List ConnectionRef) : (l.foldl (tellNews b) u).manager =
    u.manager.withChoking fun r => if r ∈ l then b else (u.manager.object r).am_choking := by
  induction l generalizing u with
  | nil => simp [ConnectionManager.withChoking]
  | cons r l ih =>
    rw [List.foldl_cons, ih, manager_tellNews, ConnectionManager.withChoking_withChoking]
    congr
    funext r'
    by_cases hl : r' ∈ l
    · simp [hl]
    · simp [hl, ConnectionManager.withChoking, @eq_comm _ r']

end LoggedManager

-- The rounds and the coroutine

/-- A loop over the positions of a list that passes some elements over. -/
theorem foldl_range_filter {α β : Type} (l : List α) (p : α → Bool) (f : β → α → β) (b : β) :
    (List.range l.length).foldl (fun b k => ((l[k]?.filter p).map (f b)).getD b) b =
      (l.filter p).foldl f b := by
  induction l generalizing b with
  | nil => rfl
  | cons a l ih =>
    rw [List.length_cons, List.range_succ_eq_map, List.foldl_cons, List.foldl_map]
    simp only [List.getElem?_cons_succ, List.getElem?_cons_zero, ih]
    cases hp : p a with
    | true => rw [List.filter_cons_of_pos hp, List.foldl_cons, Option.filter_some_pos hp]; rfl
    | false =>
      rw [List.filter_cons_of_neg (by simp [hp]), Option.filter_some_neg (by simp [hp])]; rfl

namespace Operation

open Coroutine

theorem finish_get_bind {α β : Type} (i : Input) (s : ConnectionManager)
    (f : Input → ConnectionManager → α) (g : α → Code β) :
    (get f >>= g).finish i s = (g (f i s)).finish i s := rfl

theorem finish_update_bind {α : Type} (i : Input) (s : ConnectionManager)
    (f : Input → ConnectionManager → ConnectionManager) (g : Unit → Code α) :
    (update f >>= g).finish i s = (g ()).finish i (f i s) := rfl

variable {i : Input} (hraises : i.raises = false)
include hraises

theorem finish_await (site : Site) (e : PyException) (f : ConnectionManager → ConnectionManager)
    (s : ConnectionManager) : (await site e f).finish i s = (.ok (), f s) := by
  simp [await, atomic, finish, hraises]

theorem finish_chokePeer (test sent : Site) (u : LoggedManager) (r : ConnectionRef) :
    (chokePeer test sent r).finish i u.manager = (.ok (), (u.chokePeer r).manager) := by
  rw [chokePeer, finish_read_bind, LoggedManager.chokePeer, LoggedManager.tellNews]
  split
  · rfl
  · exact finish_await hraises _ _ _ _

theorem finish_unchokePeer (u : LoggedManager) (r : ConnectionRef) :
    (unchokePeer r).finish i u.manager = (.ok (), (u.unchokePeer r).manager) := by
  rw [unchokePeer, finish_get_bind, LoggedManager.unchokePeer, LoggedManager.tellNews]
  cases (u.manager.object r).am_choking with
  | true => exact finish_await hraises _ _ _ _
  | false => rfl

theorem finish_selectOptimistic (current_time : Time) (u : LoggedManager) :
    (selectOptimistic current_time).finish i u.manager =
      (.ok (), (u.selectOptimistic current_time i.choice).manager) := by
  have hchosen : (withLock .connection_lock (get fun i s =>
      s.availablePeers[i.choice % s.availablePeers.length]?)).finish i u.manager =
      (.ok u.manager.availablePeers[i.choice % u.manager.availablePeers.length]?, u.manager) := rfl
  rw [selectOptimistic, finish_bind _ hchosen, LoggedManager.selectOptimistic]
  cases u.manager.availablePeers[i.choice % u.manager.availablePeers.length]? with
  | none => rfl
  | some r =>
    let noted : LoggedManager := { u with manager.optimistic_unchoke := some r }
    exact (finish_update_bind ..).trans (finish_bind _ (finish_unchokePeer hraises noted r))

theorem finish_updateOptimisticUnchoke (config : NetworkConfig) (u : LoggedManager) :
    (updateOptimisticUnchoke config).finish i u.manager =
      (.ok (), (u.updateOptimisticUnchoke config i.now i.choice).manager) := by
  rw [updateOptimisticUnchoke, finish_read_bind, LoggedManager.updateOptimisticUnchoke]
  by_cases hdue : u.manager.optimisticDue config.optimistic_unchoke_interval i.now = true
  · rw [if_pos hdue, if_pos hdue]
    cases u.manager.outgoingOptimistic with
    | none => exact finish_selectOptimistic hraises i.now u
    | some outgoing =>
      dsimp only
      rw [finish_bind _ (finish_chokePeer hraises _ _ u outgoing)]
      exact finish_selectOptimistic hraises i.now _
  · rw [if_neg hdue, if_neg hdue]
    rfl

/-- The loop that chokes walks over the positions of the upload slots. -/
theorem finish_chokeLoop (new_upload_slots : List ConnectionRef) (u : LoggedManager) :
    (forM (List.range u.manager.upload_slots.length) fun k => do
      let peer ← get fun _ s => s.upload_slots[k]?.filter fun r => r ∉ new_upload_slots
      match peer with
      | some connection => chokePeer .elsewhere .elsewhere connection
      | none => pure ()).finish i u.manager =
    (.ok (), ((u.manager.upload_slots.filter fun r => r ∉ new_upload_slots).foldl
      LoggedManager.chokePeer u).manager) := by
  rw [← foldl_range_filter]
  refine finish_forM LoggedManager.manager
    (P := fun v => v.manager.upload_slots = u.manager.upload_slots) ?_ ?_ rfl
  · intro k _ v hv
    cases (u.manager.upload_slots[k]?).filter fun r => r ∉ new_upload_slots with
    | none => exact hv
    | some r => exact (congrArg _ (LoggedManager.manager_tellNews true v r)).trans hv
  · intro k _ v hv
    rw [finish_get_bind, hv]
    cases (u.manager.upload_slots[k]?).filter fun r => r ∉ new_upload_slots with
    | none => rfl
    | some r => exact finish_chokePeer hraises _ _ v r

theorem finish_unchokeLoop (slots new_upload_slots : List ConnectionRef) {u : LoggedManager}
    (hu : u.manager.upload_slots = slots) :
    (forM new_upload_slots fun connection => do
      let unchoked ← get fun _ s => decide (connection ∈ s.upload_slots)
      if unchoked then pure () else unchokePeer connection).finish i u.manager =
    (.ok (), ((new_upload_slots.filter fun r => r ∉ slots).foldl
      LoggedManager.unchokePeer u).manager) := by
  rw [List.foldl_filter]
  refine finish_forM LoggedManager.manager (P := fun v => v.manager.upload_slots = slots)
    ?_ ?_ hu
  · intro r _ v hv
    split
    · exact (congrArg _ (LoggedManager.manager_tellNews false v r)).trans hv
    · exact hv
  · intro r _ v hv
    rw [finish_get_bind, hv]
    by_cases hr : r ∈ slots
    · simp [hr]
      rfl
    · simp [hr]
      exact finish_unchokePeer hraises v r

/-- A round is the coroutine when nothing holds it up. -/
theorem finish_updateChoking (config : NetworkConfig) (u : LoggedManager) :
    (updateChoking config).finish i u.manager =
      (.ok (), (u.updateChoking config i.now i.choice).manager) := by
  rw [updateChoking, finish_withLock, finish_get_bind, LoggedManager.updateChoking]
  dsimp only
  by_cases hactive : u.manager.activePeers = []
  · rw [if_pos hactive, if_pos hactive]
    rfl
  · rw [if_neg hactive, if_neg hactive]
    let new_upload_slots := u.manager.topUploaders config.max_upload_slots
    let choked := (u.manager.upload_slots.filter fun r => r ∉ new_upload_slots).foldl
      LoggedManager.chokePeer u
    have hslots : choked.manager.upload_slots = u.manager.upload_slots := by
      rw [LoggedManager.manager_foldl_tellNews, ConnectionManager.upload_slots_withChoking]
    refine (finish_bind _ (finish_chokeLoop hraises new_upload_slots u)).trans ?_
    refine (finish_bind _ (finish_unchokeLoop hraises _ new_upload_slots hslots)).trans ?_
    rw [finish_update_bind]
    exact finish_updateOptimisticUnchoke hraises config
      { (new_upload_slots.filter fun r => r ∉ u.manager.upload_slots).foldl
          LoggedManager.unchokePeer choked with manager.upload_slots := new_upload_slots }

end Operation

end Peer

end Ccbt
