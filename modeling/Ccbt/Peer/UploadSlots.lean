import Ccbt.Peer.Choking
import Mathlib.Data.List.Perm.Basic

/-!
# Upload slots over histories of connections

Connections come, with an UNCHOKE message in their set-up, go and change between choking
rounds. A round chokes those that lose their slot and the optimistic unchoke that it replaces,
so the peers unchoked at once are as few as they should be only as long as no others are.
-/

namespace Ccbt

open Python Transition

namespace Peer

/-- What happens to the connections of a manager. -/
inductive ConnectionEvent
  /-- A connection is set up; `state` is what the exchange of handshake and bitfield left. -/
  | connect (peer_info : PeerInfo) (state : ConnectionState)
  | disconnect (peer_info : PeerInfo)
  /-- What the messages of the peer and the statistics change. -/
  | observe (r : ConnectionRef) (state : ConnectionState) (peer_choking peer_interested : Bool)
      (upload_rate : Rat)
  /-- `_update_choking` taken to its end, with the number behind `random.choice`. -/
  | round (current_time : Time) (choice : Nat)

def ConnectionEvent.isRound : ConnectionEvent → Bool
  | round _ _ => true
  | _ => false

namespace ConnectionManager

/-- A new connection to the peer, registered and set up as far as its state. -/
def opened (s : ConnectionManager) (peer_info : PeerInfo) (state : ConnectionState) :
    ConnectionManager :=
  let created := (s.create peer_info).2
  let set_up := created.setObject s.created { created.object s.created with state := state }
  { set_up with connections := s.connections.set peer_info.str s.created }

def observe (s : ConnectionManager) (r : ConnectionRef) (state : ConnectionState)
    (peer_choking peer_interested : Bool) (upload_rate : Rat) : ConnectionManager :=
  s.setObject r { s.object r with
    state := state
    peer_choking := peer_choking
    peer_interested := peer_interested
    upload_rate := upload_rate }

def assigned (s : ConnectionManager) (config : NetworkConfig) : ConnectionManager :=
  { s with upload_slots := s.topUploaders config.max_upload_slots }

/-- The optimistic unchoke that is replaced now. -/
def replacedOptimistic (s : ConnectionManager) (config : NetworkConfig) (current_time : Time) :
    Option ConnectionRef :=
  if s.optimisticDue config.optimistic_unchoke_interval current_time then s.outgoingOptimistic
  else none

/-- The optimistic unchoke that is chosen now. -/
def chosenOptimistic (s : ConnectionManager) (config : NetworkConfig) (current_time : Time)
    (choice : Nat) : Option ConnectionRef :=
  if s.optimisticDue config.optimistic_unchoke_interval current_time then
    s.availablePeers[choice % s.availablePeers.length]?
  else none

/-- The active peers that are unchoked without a slot and that a round does not choke. -/
def leftAlone (s : ConnectionManager) (config : NetworkConfig) (current_time : Time) :
    List ConnectionRef :=
  s.activePeers.filter fun r => decide (r ∉ (s.assigned config).upload_slots) &&
    decide (r ∉ s.upload_slots) && !(s.object r).am_choking &&
    decide ((s.assigned config).replacedOptimistic config current_time ≠ some r)

/-- Those, and the optimistic unchoke that is chosen. -/
def besideSlots (s : ConnectionManager) (config : NetworkConfig) (current_time : Time)
    (choice : Nat) : List ConnectionRef :=
  let chosen := (s.assigned config).chosenOptimistic config current_time choice
  chosen.toList ++ (s.leftAlone config current_time).filter fun r => chosen ≠ some r

def unchokedPeers (s : ConnectionManager) : List ConnectionRef :=
  s.activePeers.filter fun r => !(s.object r).am_choking

/-- An object that is replaced by one of the same peer that is as choked. -/
theorem setObject_keeps {s : ConnectionManager} {r : ConnectionRef} {c : PeerConnection}
    (hchoking : c.am_choking = (s.object r).am_choking)
    (hinfo : c.peer_info = (s.object r).peer_info) (r' : ConnectionRef) :
    ((s.setObject r c).object r').am_choking = (s.object r').am_choking ∧
      ((s.setObject r c).object r').peer_info = (s.object r').peer_info := by
  by_cases hr : r' = r
  · simp [setObject, hr, hchoking, hinfo]
  · simp [setObject, hr]

section Assigned

variable {s : ConnectionManager} {config : NetworkConfig} {current_time : Time} {choice : Nat}
  {r : ConnectionRef}

theorem mem_values_of_active (h : r ∈ s.activePeers) : r ∈ s.connections.values :=
  List.mem_of_mem_filter h

theorem active_of_assigned (h : r ∈ (s.assigned config).upload_slots) : r ∈ s.activePeers :=
  List.mem_mergeSort.mp (List.mem_of_mem_take h)

theorem nodup_assigned (h : s.activePeers.Nodup) : (s.assigned config).upload_slots.Nodup :=
  List.Sublist.nodup (List.take_sublist _ _) ((List.mergeSort_perm _ _).nodup_iff.mpr h)

theorem length_assigned : (s.assigned config).upload_slots.length =
    min config.max_upload_slots s.activePeers.length := by
  rw [assigned, topUploaders, List.length_take, List.length_mergeSort]

/-- There are slots for all active peers, or all slots are taken. -/
theorem assigned_all_or_full (s : ConnectionManager) (config : NetworkConfig) :
    (∀ r ∈ s.activePeers, r ∈ (s.assigned config).upload_slots) ∨
      (s.assigned config).upload_slots.length = config.max_upload_slots := by
  rcases Nat.le_total s.activePeers.length config.max_upload_slots with hle | hle
  · left
    intro r hr
    rw [assigned, topUploaders, List.take_of_length_le (by rwa [List.length_mergeSort])]
    exact List.mem_mergeSort.mpr hr
  · right
    rw [length_assigned, Nat.min_eq_left hle]

theorem mem_of_chosenOptimistic (h : s.chosenOptimistic config current_time choice = some r) :
    r ∈ s.activePeers ∧ r ∉ s.upload_slots := by
  rw [chosenOptimistic] at h
  split at h
  · have hmem : r ∈ s.availablePeers := List.mem_of_getElem? h
    rw [availablePeers, List.mem_filter] at hmem
    simp only [Bool.and_eq_true, decide_eq_true_eq] at hmem
    exact ⟨List.mem_filter.mpr ⟨hmem.1, hmem.2.1.1⟩, hmem.2.1.2⟩
  · cases h

theorem notMem_of_replacedOptimistic (h : s.replacedOptimistic config current_time = some r) :
    r ∉ s.upload_slots := by
  rw [replacedOptimistic] at h
  split at h
  · exact of_decide_eq_true (Option.filter_eq_some_iff.mp h).2
  · cases h

theorem mem_leftAlone : r ∈ s.leftAlone config current_time ↔
    r ∈ s.activePeers ∧ r ∉ (s.assigned config).upload_slots ∧ r ∉ s.upload_slots ∧
      (s.object r).am_choking = false ∧
      (s.assigned config).replacedOptimistic config current_time ≠ some r := by
  simp only [leftAlone, List.mem_filter, Bool.and_eq_true, decide_eq_true_eq, Bool.not_eq_true',
    and_assoc]

theorem mem_besideSlots : r ∈ s.besideSlots config current_time choice ↔
    (s.assigned config).chosenOptimistic config current_time choice = some r ∨
      r ∈ s.leftAlone config current_time ∧
        (s.assigned config).chosenOptimistic config current_time choice ≠ some r := by
  simp only [besideSlots, List.mem_append, Option.mem_toList, List.mem_filter,
    decide_eq_true_eq]

theorem nodup_besideSlots (h : s.activePeers.Nodup) :
    (s.besideSlots config current_time choice).Nodup := by
  refine List.nodup_append.mpr ⟨?_, (h.filter _).filter _, ?_⟩
  · cases (s.assigned config).chosenOptimistic config current_time choice with
    | none => exact List.nodup_nil
    | some chosen => exact List.nodup_singleton chosen
  · rintro r hr _ hmem rfl
    exact of_decide_eq_true (List.mem_filter.mp hmem).2 (Option.mem_toList.mp hr)

/-- Those beside the slots are active, and have none. -/
theorem active_of_beside (h : r ∈ s.besideSlots config current_time choice) :
    r ∈ s.activePeers ∧ r ∉ (s.assigned config).upload_slots := by
  rcases mem_besideSlots.mp h with hchosen | ⟨hleft, -⟩
  · exact mem_of_chosenOptimistic hchosen
  · obtain ⟨hactive, hslot, -⟩ := mem_leftAlone.mp hleft
    exact ⟨hactive, hslot⟩

end Assigned

end ConnectionManager

namespace LoggedManager

def connect (u : LoggedManager) (peer_info : PeerInfo) (state : ConnectionState) :
    LoggedManager :=
  if u.manager.connections.contains peer_info.str then u
  else { u with manager := u.manager.opened peer_info state }.sendUnchoke u.manager.created

def disconnect (u : LoggedManager) (peer_info : PeerInfo) : LoggedManager :=
  match u.manager.connections.get? peer_info.str with
  | some r => { u with manager := (u.manager.dropConnection r).dropSlots r }
  | none => u

def step (config : NetworkConfig) (u : LoggedManager) : ConnectionEvent → LoggedManager
  | .connect peer_info state => u.connect peer_info state
  | .disconnect peer_info => u.disconnect peer_info
  | .observe r state peer_choking peer_interested upload_rate =>
    { u with manager := u.manager.observe r state peer_choking peer_interested upload_rate }
  | .round current_time choice => u.updateChoking config current_time choice

def start : LoggedManager where
  manager := { object := fun _ => { peer_info := default } }

/-- `am_choking` is what the connection was told last. -/
def Told (u : LoggedManager) (r : ConnectionRef) : Prop :=
  u.lastSent r =
    some (if (u.manager.object r).am_choking then .ChokeMessage else .UnchokeMessage)

/-- The upload slots are respected. -/
structure Respects (config : NetworkConfig) (u : LoggedManager) : Prop where
  few : u.manager.unchokedPeers.length ≤ config.max_upload_slots + 1
  slots : ∀ r ∈ u.manager.upload_slots,
    (u.manager.object r).am_choking = false ∧ r ∈ u.manager.connections.values

def Keeps (config : NetworkConfig) (u : LoggedManager) (e : ConnectionEvent) : Prop :=
  (∀ r < (u.step config e).manager.created, (u.step config e).Told r) ∧
    (e.isRound → (u.step config e).Respects config)

/-- A round leaves at most one peer unchoked that has no slot. -/
def LeavesRoom (config : NetworkConfig) (u : LoggedManager) : ConnectionEvent → Prop
  | .round current_time choice => (u.manager.besideSlots config current_time choice).length ≤ 1
  | _ => True

-- What a round does to the manager

variable {config : NetworkConfig} {u : LoggedManager}

theorem manager_selectOptimistic (u : LoggedManager) (current_time : Time) (choice : Nat) :
    ∃ o t, (u.selectOptimistic current_time choice).manager =
      { u.manager.withChoking (fun r =>
          if u.manager.availablePeers[choice % u.manager.availablePeers.length]? = some r then
            false
          else (u.manager.object r).am_choking) with
        optimistic_unchoke := o, optimistic_unchoke_time := t } := by
  rw [selectOptimistic]
  cases u.manager.availablePeers[choice % u.manager.availablePeers.length]? with
  | none => exact ⟨_, _, rfl⟩
  | some chosen =>
    refine ⟨some chosen, current_time, ?_⟩
    dsimp only
    rw [manager_tellNews]
    simp only [Option.some.injEq]
    rfl

theorem manager_updateOptimisticUnchoke (config : NetworkConfig) (u : LoggedManager)
    (current_time : Time) (choice : Nat) :
    ∃ o t, (u.updateOptimisticUnchoke config current_time choice).manager =
      { u.manager.withChoking (fun r =>
          if u.manager.chosenOptimistic config current_time choice = some r then false
          else if u.manager.replacedOptimistic config current_time = some r then true
          else (u.manager.object r).am_choking) with
        optimistic_unchoke := o, optimistic_unchoke_time := t } := by
  rw [updateOptimisticUnchoke, ConnectionManager.chosenOptimistic,
    ConnectionManager.replacedOptimistic]
  split
  · cases u.manager.outgoingOptimistic with
    | none => exact manager_selectOptimistic u current_time choice
    | some outgoing =>
      obtain ⟨o, t, h⟩ := manager_selectOptimistic (u.chokePeer outgoing) current_time choice
      refine ⟨o, t, h.trans ?_⟩
      rw [manager_tellNews]
      simp only [Option.some.injEq]
      rfl
  · exact ⟨_, _, rfl⟩

/-- Who is choked after a round that finds active peers. -/
def chokingAfter (config : NetworkConfig) (s : ConnectionManager) (current_time : Time)
    (choice : Nat) (r : ConnectionRef) : Bool :=
  if (s.assigned config).chosenOptimistic config current_time choice = some r then false
  else if (s.assigned config).replacedOptimistic config current_time = some r then true
  else if r ∈ (s.assigned config).upload_slots ∧ r ∉ s.upload_slots then false
  else if r ∈ s.upload_slots ∧ r ∉ (s.assigned config).upload_slots then true
  else (s.object r).am_choking

theorem manager_updateChoking (config : NetworkConfig) (u : LoggedManager)
    (hactive : u.manager.activePeers ≠ []) (current_time : Time) (choice : Nat) :
    ∃ o t, (u.updateChoking config current_time choice).manager =
      { (u.manager.assigned config).withChoking
          (chokingAfter config u.manager current_time choice) with
        optimistic_unchoke := o, optimistic_unchoke_time := t } := by
  rw [updateChoking]
  dsimp only
  rw [if_neg hactive]
  let s := u.manager.assigned config
  let kept := (u.manager.upload_slots.filter fun r => r ∉ s.upload_slots).foldl chokePeer u
  let given := (s.upload_slots.filter fun r => r ∉ u.manager.upload_slots).foldl unchokePeer kept
  have hgiven : given.manager = u.manager.withChoking fun r =>
      if r ∈ s.upload_slots ∧ r ∉ u.manager.upload_slots then false
      else if r ∈ u.manager.upload_slots ∧ r ∉ s.upload_slots then true
      else (u.manager.object r).am_choking := by
    simp only [given, kept, manager_foldl_tellNews, List.mem_filter, decide_eq_true_eq]
    rfl
  obtain ⟨o, t, h⟩ := manager_updateOptimisticUnchoke config
    { given with manager.upload_slots := s.upload_slots } current_time choice
  refine ⟨o, t, h.trans ?_⟩
  rw [hgiven]
  rfl

-- What the connections are told

theorem lastSent_tell (b : Bool) (u : LoggedManager) (r r' : ConnectionRef) :
    (u.tell b r).lastSent r' =
      if r = r' then some (if b then .ChokeMessage else .UnchokeMessage) else u.lastSent r' := by
  rw [lastSent, tell, List.filter_append, lastSent]
  by_cases h : r = r'
  · simp [h]
  · simp [h]

theorem told_tell (b : Bool) (u : LoggedManager) (r : ConnectionRef) : (u.tell b r).Told r := by
  rw [Told, lastSent_tell, if_pos rfl, tell, ConnectionManager.setChoking_eq_withChoking,
    ConnectionManager.am_choking_withChoking, if_pos rfl]

theorem Told.tell {r' : ConnectionRef} (h : u.Told r') (b : Bool) (r : ConnectionRef) :
    (u.tell b r).Told r' := by
  by_cases hr : r = r'
  · exact hr ▸ told_tell b u r
  · rw [Told, lastSent_tell, if_neg hr, LoggedManager.tell,
      ConnectionManager.setChoking_eq_withChoking, ConnectionManager.am_choking_withChoking,
      if_neg hr]
    exact h

theorem Told.tellNews {r' : ConnectionRef} (h : u.Told r') (b : Bool) (r : ConnectionRef) :
    (u.tellNews b r).Told r' := by
  rw [LoggedManager.tellNews]
  split
  · exact h
  · exact h.tell b r

theorem Told.foldl_tellNews {r : ConnectionRef} (h : u.Told r) (b : Bool)
    (l : List ConnectionRef) : (l.foldl (LoggedManager.tellNews b) u).Told r := by
  induction l generalizing u with
  | nil => exact h
  | cons r' l ih => exact ih (h.tellNews b r')

theorem Told.selectOptimistic {r : ConnectionRef} (h : u.Told r) (current_time : Time)
    (choice : Nat) : (u.selectOptimistic current_time choice).Told r := by
  rw [LoggedManager.selectOptimistic]
  split
  · exact h
  · next chosen _ =>
    have hnoted : Told { u with manager.optimistic_unchoke := some chosen } r := h
    exact hnoted.tellNews false chosen

theorem Told.updateOptimisticUnchoke {r : ConnectionRef} (h : u.Told r) (current_time : Time)
    (choice : Nat) : (u.updateOptimisticUnchoke config current_time choice).Told r := by
  rw [LoggedManager.updateOptimisticUnchoke]
  split
  · split
    · exact h.selectOptimistic current_time choice
    · next outgoing _ => exact (h.tellNews true outgoing).selectOptimistic current_time choice
  · exact h

theorem Told.updateChoking {r : ConnectionRef} (h : u.Told r) (current_time : Time)
    (choice : Nat) : (u.updateChoking config current_time choice).Told r := by
  rw [LoggedManager.updateChoking]
  dsimp only
  split
  · exact h
  · apply Told.updateOptimisticUnchoke
    exact (h.foldl_tellNews true _).foldl_tellNews false _

-- The invariant

/-- Every connection stands under its peer, and the slots are held by different connections
that are registered and unchoked. -/
structure Coherent (u : LoggedManager) : Prop where
  named : ∀ k r, u.manager.connections.get? k = some r →
    (u.manager.object r).peer_info.str = k ∧ r < u.manager.created
  slots : ∀ r ∈ u.manager.upload_slots,
    (u.manager.object r).am_choking = false ∧ r ∈ u.manager.connections.values
  nodup_slots : u.manager.upload_slots.Nodup
  told : ∀ r < u.manager.created, u.Told r

theorem coherent_start : start.Coherent where
  named := nofun
  slots := nofun
  nodup_slots := List.nodup_nil
  told := nofun

namespace Coherent

variable (h : u.Coherent)
include h

theorem nodup_activePeers : u.manager.activePeers.Nodup := by
  refine List.Nodup.filter _ (u.manager.connections.nodup_values fun j k r hj hk => ?_)
  exact (h.named j r hj).1.symm.trans (h.named k r hk).1

theorem lt_created {r : ConnectionRef} (hr : r ∈ u.manager.connections.values) :
    r < u.manager.created := by
  obtain ⟨k, hk⟩ := (u.manager.connections.mem_values_iff).mp hr
  exact (h.named k r hk).2

/-- A round leaves nobody choked that has a slot. -/
theorem chokingAfter_of_assigned {current_time : Time} {choice : Nat} {r : ConnectionRef}
    (hslot : r ∈ (u.manager.assigned config).upload_slots) :
    chokingAfter config u.manager current_time choice r = false := by
  have hreplaced : (u.manager.assigned config).replacedOptimistic config current_time ≠ some r :=
    fun hr => ConnectionManager.notMem_of_replacedOptimistic hr hslot
  by_cases hold : r ∈ u.manager.upload_slots
  · simp [chokingAfter, hreplaced, hslot, hold, (h.slots r hold).1]
  · simp [chokingAfter, hreplaced, hslot, hold]

theorem round (current_time : Time) (choice : Nat) :
    (u.updateChoking config current_time choice).Coherent := by
  have htold : ∀ r < u.manager.created, (u.updateChoking config current_time choice).Told r :=
    fun r hr => (h.told r hr).updateChoking current_time choice
  by_cases hactive : u.manager.activePeers = []
  · rw [updateChoking, if_pos hactive]
    exact h
  obtain ⟨o, t, hround⟩ := manager_updateChoking config u hactive current_time choice
  refine ⟨?_, ?_, ?_, ?_⟩
  · rw [hround]
    exact h.named
  · rw [hround]
    intro r hr
    have hslot : r ∈ (u.manager.assigned config).upload_slots := hr
    exact ⟨h.chokingAfter_of_assigned hslot,
      u.manager.mem_values_of_active (ConnectionManager.active_of_assigned hslot)⟩
  · rw [hround]
    exact ConnectionManager.nodup_assigned h.nodup_activePeers
  · rw [hround]
    exact htold

/-- Objects may change in what is neither their choking nor their peer. -/
theorem setObjects {f : ConnectionRef → PeerConnection}
    (hf : ∀ r, (f r).am_choking = (u.manager.object r).am_choking ∧
      (f r).peer_info = (u.manager.object r).peer_info) :
    Coherent { u with manager.object := f } := by
  refine ⟨fun k r hk => ?_, fun r hr => ?_, h.nodup_slots, fun r hr => ?_⟩
  · dsimp only
    rw [(hf r).2]
    exact h.named k r hk
  · dsimp only
    rw [(hf r).1]
    exact h.slots r hr
  · rw [Told]
    dsimp only
    rw [(hf r).1]
    exact h.told r hr

theorem observe (r : ConnectionRef) (state : ConnectionState) (peer_choking peer_interested : Bool)
    (upload_rate : Rat) : Coherent { u with
      manager := u.manager.observe r state peer_choking peer_interested upload_rate } :=
  h.setObjects (ConnectionManager.setObject_keeps rfl rfl)

theorem connect (peer_info : PeerInfo) (state : ConnectionState) :
    (u.connect peer_info state).Coherent := by
  rw [LoggedManager.connect]
  split
  · exact h
  next hnew =>
  let s := u.manager.opened peer_info state
  have hfree : u.manager.connections.get? peer_info.str = none := by
    rwa [Dict.contains, Bool.not_eq_true, Option.isSome_eq_false_iff, Option.isNone_iff_eq_none]
      at hnew
  have hobject {r : ConnectionRef} (hr : r < u.manager.created) :
      s.object r = u.manager.object r := by
    simp [s, ConnectionManager.opened, ConnectionManager.create, ConnectionManager.setObject,
      Nat.ne_of_lt hr]
  have hobject_new : (s.object u.manager.created).peer_info = peer_info := by
    simp [s, ConnectionManager.opened, ConnectionManager.create, ConnectionManager.setObject]
  have hsent : (LoggedManager.sendUnchoke { u with manager := s } u.manager.created).manager =
      s.withChoking fun r => if u.manager.created = r then false else (s.object r).am_choking :=
    ConnectionManager.setChoking_eq_withChoking _ _ _
  refine ⟨?_, ?_, ?_, fun r hr => ?_⟩
  · rw [hsent]
    intro k r hk
    have hk' : (u.manager.connections.set peer_info.str u.manager.created).get? k = some r := hk
    change (s.object r).peer_info.str = k ∧ r < u.manager.created + 1
    rw [Dict.get?_set] at hk'
    split at hk'
    · next hkey =>
      cases hk'
      exact ⟨by rw [hobject_new, hkey], Nat.lt_succ_self _⟩
    · obtain ⟨hname, hlt⟩ := h.named k r hk'
      exact ⟨by rw [hobject hlt, hname], Nat.lt_succ_of_lt hlt⟩
  · rw [hsent]
    intro r hr
    obtain ⟨hunchoked, hvalue⟩ := h.slots r hr
    have hlt := h.lt_created hvalue
    refine ⟨?_, ?_⟩
    · rw [ConnectionManager.am_choking_withChoking, if_neg (Nat.ne_of_gt hlt), hobject hlt]
      exact hunchoked
    · obtain ⟨k, hk⟩ := (u.manager.connections.mem_values_iff).mp hvalue
      refine (Dict.mem_values_iff _).mpr ⟨k, (Dict.get?_set_ne _ ?_ _).trans hk⟩
      rintro rfl
      cases hfree.symm.trans hk
  · rw [hsent]
    exact h.nodup_slots
  · rw [hsent] at hr
    rcases Nat.lt_succ_iff_lt_or_eq.mp hr with hlt | rfl
    · refine Told.tell (u := { u with manager := s }) ?_ false _
      change u.lastSent r = some (if (s.object r).am_choking then _ else _)
      rw [hobject hlt]
      exact h.told r hlt
    · exact told_tell false _ _

theorem disconnect (peer_info : PeerInfo) : (u.disconnect peer_info).Coherent := by
  rw [LoggedManager.disconnect]
  split
  · next r hr =>
    have hname : (u.manager.object r).peer_info.str = peer_info.str := (h.named _ _ hr).1
    have hobject : ∀ r',
        ((u.manager.dropConnection r).object r').am_choking = (u.manager.object r').am_choking ∧
        ((u.manager.dropConnection r).object r').peer_info = (u.manager.object r').peer_info :=
      ConnectionManager.setObject_keeps rfl rfl
    have hget (k : String) : (u.manager.dropConnection r).connections.get? k =
        if k = peer_info.str then none else u.manager.connections.get? k := by
      rw [← hname]
      exact u.manager.connections.get?_erase _ k
    refine ⟨fun k r' hk => ?_, fun r' hr' => ?_, h.nodup_slots.erase r, fun r' hr' => ?_⟩
    · change (u.manager.dropConnection r).connections.get? k = some r' at hk
      rw [hget] at hk
      split at hk
      · cases hk
      · change ((u.manager.dropConnection r).object r').peer_info.str = k ∧ _
        rw [(hobject r').2]
        exact h.named k r' hk
    · obtain ⟨hne, hslot⟩ := (List.Nodup.mem_erase_iff h.nodup_slots).mp hr'
      obtain ⟨hunchoked, hvalue⟩ := h.slots r' hslot
      refine ⟨(hobject r').1.trans hunchoked, ?_⟩
      obtain ⟨k, hk⟩ := (u.manager.connections.mem_values_iff).mp hvalue
      refine (Dict.mem_values_iff _).mpr ⟨k, (hget k).trans ?_⟩
      rw [if_neg, hk]
      rintro rfl
      exact hne (Option.some.inj (hk.symm.trans hr))
    · change u.lastSent r' = some (if ((u.manager.dropConnection r).object r').am_choking then
        .ChokeMessage else .UnchokeMessage)
      rw [(hobject r').1]
      exact h.told r' hr'
  · exact h

theorem step (config : NetworkConfig) (e : ConnectionEvent) : (u.step config e).Coherent := by
  cases e with
  | connect peer_info state => exact h.connect peer_info state
  | disconnect peer_info => exact h.disconnect peer_info
  | observe r state peer_choking peer_interested upload_rate =>
    exact h.observe r state peer_choking peer_interested upload_rate
  | round current_time choice => exact h.round current_time choice

/-- Behind a round the unchoked peers are those with a slot and those beside them. -/
theorem unchokedPeers_round (hactive : u.manager.activePeers ≠ []) (current_time : Time)
    (choice : Nat) : (u.updateChoking config current_time choice).manager.unchokedPeers.Perm
      ((u.manager.assigned config).upload_slots ++
        u.manager.besideSlots config current_time choice) := by
  obtain ⟨o, t, hround⟩ := manager_updateChoking config u hactive current_time choice
  have hunchoked (r : ConnectionRef) :
      r ∈ (u.updateChoking config current_time choice).manager.unchokedPeers ↔
        r ∈ u.manager.activePeers ∧
          chokingAfter config u.manager current_time choice r = false := by
    rw [hround]
    exact List.mem_filter.trans (and_congr_right fun _ => by simp)
  have hnodup := h.nodup_activePeers
  refine (List.perm_ext_iff_of_nodup ?_ ?_).mpr fun r => ?_
  · rw [hround]
    exact hnodup.filter _
  · refine List.nodup_append.mpr ⟨ConnectionManager.nodup_assigned hnodup,
      ConnectionManager.nodup_besideSlots hnodup, ?_⟩
    rintro r hslot _ hbeside rfl
    exact (ConnectionManager.active_of_beside hbeside).2 hslot
  rw [hunchoked, List.mem_append]
  constructor
  · rintro ⟨hr, hchoking⟩
    by_cases hslot : r ∈ (u.manager.assigned config).upload_slots
    · exact Or.inl hslot
    refine Or.inr (ConnectionManager.mem_besideSlots.mpr ?_)
    by_cases hchosen :
        (u.manager.assigned config).chosenOptimistic config current_time choice = some r
    · exact Or.inl hchosen
    -- the round has not choked it, and it was not choked before
    simp only [chokingAfter, hchosen, hslot, if_false, false_and, not_false_eq_true,
      and_true] at hchoking
    split at hchoking
    · cases hchoking
    · next hreplaced =>
      split at hchoking
      · cases hchoking
      · next hold =>
        exact Or.inr ⟨ConnectionManager.mem_leftAlone.mpr
          ⟨hr, hslot, hold, hchoking, hreplaced⟩, hchosen⟩
  · rintro (hslot | hbeside)
    · exact ⟨ConnectionManager.active_of_assigned hslot, h.chokingAfter_of_assigned hslot⟩
    · obtain ⟨hr, hslot⟩ := ConnectionManager.active_of_beside hbeside
      refine ⟨hr, ?_⟩
      rcases ConnectionManager.mem_besideSlots.mp hbeside with hchosen | ⟨hleft, hchosen⟩
      · rw [chokingAfter, if_pos hchosen]
      · obtain ⟨-, -, hold, hunchoked, hreplaced⟩ := ConnectionManager.mem_leftAlone.mp hleft
        simp [chokingAfter, hchosen, hreplaced, hslot, hold, hunchoked]

/-- A round leaves few peers unchoked exactly if it leaves at most one beside the slots. -/
theorem few_round_iff (current_time : Time) (choice : Nat) :
    (u.updateChoking config current_time choice).manager.unchokedPeers.length ≤
        config.max_upload_slots + 1 ↔
      (u.manager.besideSlots config current_time choice).length ≤ 1 := by
  have hnobody (hall : ∀ r ∈ u.manager.activePeers,
      r ∈ (u.manager.assigned config).upload_slots) :
      u.manager.besideSlots config current_time choice = [] := by
    refine List.eq_nil_iff_forall_not_mem.mpr fun r hr => ?_
    obtain ⟨hactive, hslot⟩ := ConnectionManager.active_of_beside hr
    exact hslot (hall r hactive)
  by_cases hactive : u.manager.activePeers = []
  · have hround : u.updateChoking config current_time choice = u := by
      rw [updateChoking, if_pos hactive]
    rw [hround, ConnectionManager.unchokedPeers, hactive, hnobody (by simp [hactive])]
    simp
  · rw [(h.unchokedPeers_round hactive current_time choice).length_eq, List.length_append]
    rcases u.manager.assigned_all_or_full config with hall | hfull
    · rw [hnobody hall, ConnectionManager.length_assigned, List.length_nil]
      omega
    · rw [hfull]
      omega

/-- Behind a round the upload slots are respected exactly if it leaves room. -/
theorem keeps_iff (config : NetworkConfig) (e : ConnectionEvent) :
    u.Keeps config e ↔ u.LeavesRoom config e := by
  have hnext := h.step config e
  cases e with
  | round current_time choice =>
    exact ⟨fun hkeeps => (h.few_round_iff current_time choice).mp (hkeeps.2 rfl).few,
      fun hroom => ⟨hnext.told, fun _ =>
        ⟨(h.few_round_iff current_time choice).mpr hroom, hnext.slots⟩⟩⟩
  | connect | disconnect | observe =>
    exact iff_of_true ⟨hnext.told, nofun⟩ trivial

end Coherent

theorem coherent_run (config : NetworkConfig) (es : List ConnectionEvent) :
    (run (step config) start es).Coherent := by
  have hstep : ∀ u e, Coherent u → (step config u e).Coherent := fun _ e h => h.step config e
  have halways := always_iff_take.mp (always_of_invariant hstep coherent_start es) es.length
  rwa [List.take_length] at halways

/-- In every history, what was sent and the upload slots are kept to by all events exactly if
every round leaves room. -/
theorem keeps_iff_leavesRoom (config : NetworkConfig) (es : List ConnectionEvent) :
    StepsMeet (step config) (Keeps config) start es ↔
      StepsMeet (step config) (LeavesRoom config) start es :=
  stepsMeet_iff_of_invariant (fun _ e h => Coherent.step h config e)
    (fun _ e h => Coherent.keeps_iff h config e) coherent_start

/-- Three peers are connected and become active. -/
def threePeers : List ConnectionEvent :=
  [.connect ⟨"10.0.0.1", 6881, by decide, by decide, by decide⟩ .BITFIELD_SENT,
    .connect ⟨"10.0.0.2", 6881, by decide, by decide, by decide⟩ .BITFIELD_SENT,
    .connect ⟨"10.0.0.3", 6881, by decide, by decide, by decide⟩ .BITFIELD_SENT,
    .observe 0 .ACTIVE false false 0, .observe 1 .ACTIVE false false 0,
    .observe 2 .ACTIVE false false 0]

/-- With one upload slot, the first round leaves all three of them unchoked. -/
theorem not_keeps_threePeers : ¬StepsMeet (step { max_upload_slots := 1 })
    (Keeps { max_upload_slots := 1 }) start (threePeers ++ [.round 40 0]) := by
  rintro ⟨-, -, -, -, -, -, hkeeps, -⟩
  let config : NetworkConfig := { max_upload_slots := 1 }
  let u : LoggedManager := run (step config) start threePeers
  have hactive : u.manager.activePeers = [0, 1, 2] := by decide +kernel
  have hassigned : u.manager.assigned config = { u.manager with upload_slots := [0] } := by
    rw [ConnectionManager.assigned, ConnectionManager.topUploaders, hactive,
      List.mergeSort_of_pairwise (by decide +kernel)]
    rfl
  have hbeside : u.manager.besideSlots config 40 0 = [1, 2] := by
    rw [ConnectionManager.besideSlots, ConnectionManager.leftAlone, hactive, hassigned]
    decide +kernel
  have hfew := ((coherent_run config threePeers).few_round_iff 40 0).mp (hkeeps.2 rfl).few
  rw [hbeside] at hfew
  exact absurd hfew (by decide)

end LoggedManager

end Peer

end Ccbt
