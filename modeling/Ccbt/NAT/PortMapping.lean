import Ccbt.Python.Dict
import Ccbt.Python.Text
import Ccbt.Transition.Run
import Mathlib.Algebra.Order.Ring.Rat
import Mathlib.Logic.ExistsUnique

/-!
# Port mappings and their renewal

`PortMappingManager` of `nat/port_mapping.py`. Nothing is awaited while the lock is held, and so the
lock is always free: a coroutine is suspended only in a sleep or in the callback, and what it does
in between is one step. A task that has been cancelled does nothing more, save that a task which
cancels itself runs on to its end.
-/

namespace Ccbt

open Python Transition

namespace PortMapping

abbrev Time := Rat

/-- `PortMapping`. The task is the number of a renewal task. -/
structure Mapping where
  internal_port : Nat
  external_port : Nat
  protocol : Str
  protocol_source : Str
  expires_at : Option Time := none
  renewal_task : Option Nat := none
  /-- Whether the last renewal has succeeded, once there has been one. The manager does not keep
  this. -/
  renewed : Option Bool := none

/-- Where a renewal task is suspended. Mappings are objects and known by their numbers. -/
inductive Phase
  /-- In front of the first attempt. -/
  | sleeping
  /-- In the callback for a mapping. -/
  | calling (attempt current : Nat)
  /-- Between two attempts. -/
  | pausing (attempt current : Nat)
  | ended
deriving DecidableEq

structure Task where
  mapping : Nat
  phase : Phase := .sleeping
deriving DecidableEq

structure PortMappingManager where
  /-- Whether there is a `renewal_callback`. -/
  renewal_callback : Bool
  mappings : Dict Str Nat := .empty
  /-- All mappings that have been made. -/
  objects : List Mapping := []
  /-- All renewal tasks that have been created. -/
  tasks : List Task := []

/-- What the callback does. -/
inductive Renewal
  | returns (success : Bool) (new_lifetime : Option Int)
  | raises

def makeKey (protocol : Str) (external_port : Nat) : Str :=
  protocol ++ ':' :: strInt external_port

def Mapping.key (mapping : Mapping) : Str := makeKey mapping.protocol mapping.external_port

namespace PortMappingManager

variable (m : PortMappingManager)

def cancel : Option Nat → PortMappingManager
  | none => m
  | some task => { m with tasks := m.tasks.modify task fun t => { t with phase := .ended } }

def suspend (task : Nat) (phase : Phase) : PortMappingManager :=
  { m with tasks := m.tasks.modify task fun t => { t with phase } }

def update (object : Nat) (f : Mapping → Mapping) : PortMappingManager :=
  { m with objects := m.objects.modify object f }

/-- `mapping.renewal_task = asyncio.create_task(self._renew_mapping(mapping, ...))` -/
def schedule (object : Nat) : PortMappingManager :=
  { m with
    objects := m.objects.modify object fun mapping =>
      { mapping with renewal_task := some m.tasks.length }
    tasks := m.tasks ++ [{ mapping := object }] }

def addMapping (internal_port external_port : Nat) (protocol protocol_source : Str)
    (lifetime : Option Int) (now : Time) : PortMappingManager :=
  let finite := lifetime.filter fun n => decide (0 < n)
  let mapping : Mapping := {
    internal_port
    external_port
    protocol
    protocol_source
    expires_at := finite.map fun n : Int => now + n }
  let stored := { m with
    mappings := m.mappings.set (makeKey protocol external_port) m.objects.length
    objects := m.objects ++ [mapping] }
  if finite.isSome then stored.schedule m.objects.length else stored

/-- `del self.mappings[key]`, with the task of the mapping cancelled. -/
def discard (key : Str) : PortMappingManager :=
  match m.mappings.get? key with
  | none => m
  | some object =>
    { m.cancel (m.objects[object]?.bind Mapping.renewal_task) with mappings := m.mappings.erase key }

def removeMapping (protocol : Str) (external_port : Nat) : PortMappingManager :=
  m.discard (makeKey protocol external_port)

/-- `mapping.expires_at and mapping.expires_at < now` -/
def isExpired (now : Time) (object : Nat) : Bool :=
  match m.objects[object]?.bind Mapping.expires_at with
  | none => false
  | some expires_at => decide (expires_at ≠ 0 ∧ expires_at < now)

def cleanupExpired (now : Time) : PortMappingManager :=
  ((m.mappings.entries.filter fun e => m.isExpired now e.2).map Prod.fst).foldl discard m

/-- The key of the mapping that a task has been created for. -/
def keyOf (object : Nat) : Str := ((m.objects[object]?).map Mapping.key).getD []

/-- A sleep of a task is over. -/
def wake (task : Nat) : PortMappingManager :=
  match m.tasks[task]? with
  | some ⟨mapping, .sleeping⟩ =>
    match m.mappings.get? (m.keyOf mapping) with
    | none => m.suspend task .ended
    | some current =>
      if m.renewal_callback then m.suspend task (.calling 0 current)
      else (m.update current fun mapping => { mapping with renewed := some false }).suspend task .ended
  | some ⟨_, .pausing attempt current⟩ => m.suspend task (.calling (attempt + 1) current)
  | _ => m

/-- An attempt has failed. There are three of them. -/
def retry (task attempt current : Nat) : PortMappingManager :=
  if attempt < 2 then m.suspend task (.pausing attempt current)
  else (m.update current fun mapping => { mapping with renewed := some false }).suspend task .ended

/-- The stored mapping of a task gets its new lifetime and its next task. -/
def prolong (key : Str) (new_lifetime : Int) (now : Time) : PortMappingManager :=
  match m.mappings.get? key with
  | none => m
  | some object =>
    let cancelled := (m.update object fun mapping => { mapping with
      expires_at := if 0 < new_lifetime then some (now + new_lifetime) else none
      renewed := some true }).cancel (m.objects[object]?.bind Mapping.renewal_task)
    if 0 < new_lifetime then cancelled.schedule object
    else cancelled.update object fun mapping => { mapping with renewal_task := none }

/-- The callback of a task is over. -/
def resume (task : Nat) (renewal : Renewal) (now : Time) : PortMappingManager :=
  match m.tasks[task]? with
  | some ⟨mapping, .calling attempt current⟩ =>
    match renewal with
    | .returns true (some new_lifetime) =>
      (m.prolong (m.keyOf mapping) new_lifetime now).suspend task .ended
    | .returns true none =>
      (m.update current fun mapping => { mapping with renewed := some true }).suspend task .ended
    | .returns false _ | .raises => m.retry task attempt current
  | _ => m

end PortMappingManager

inductive Event
  | add (internal_port external_port : Nat) (protocol protocol_source : Str)
      (lifetime : Option Int) (now : Time)
  | remove (protocol : Str) (external_port : Nat)
  | cleanup (now : Time)
  | wake (task : Nat)
  | resume (task : Nat) (renewal : Renewal) (now : Time)

def step (m : PortMappingManager) : Event → PortMappingManager
  | .add internal_port external_port protocol protocol_source lifetime now =>
    m.addMapping internal_port external_port protocol protocol_source lifetime now
  | .remove protocol external_port => m.removeMapping protocol external_port
  | .cleanup now => m.cleanupExpired now
  | .wake task => m.wake task
  | .resume task renewal now => m.resume task renewal now

def Renews (m : PortMappingManager) (task object : Nat) : Prop :=
  ∃ t, m.tasks[task]? = some t ∧ t.phase ≠ .ended ∧ t.mapping = object

def Stored (m : PortMappingManager) (object : Nat) : Prop :=
  ∃ key, m.mappings.get? key = some object

/-- Live tasks are for stored mappings, and a stored mapping that expires has one live task, unless
its last renewal has failed. -/
structure OneTaskEach (m : PortMappingManager) : Prop where
  stored : ∀ task object, Renews m task object → Stored m object
  one : ∀ object mapping, Stored m object → m.objects[object]? = some mapping →
    mapping.expires_at ≠ none → mapping.renewed ≠ some false → ∃! task, Renews m task object

/-- A mapping is only replaced when no live task renews it, and no callback reports a success without
a lifetime. -/
def Meets (m : PortMappingManager) : Event → Prop
  | .add _ external_port protocol _ _ _ =>
    ∀ object, m.mappings.get? (makeKey protocol external_port) = some object →
      ∀ task, ¬Renews m task object
  | .resume task (.returns true none) _ =>
    ∀ mapping attempt current, m.tasks[task]? ≠ some ⟨mapping, .calling attempt current⟩
  | _ => True

structure Linked (m : PortMappingManager) : Prop where
  key : ∀ key object, m.mappings.get? key = some object →
    ∃ mapping, m.objects[object]? = some mapping ∧ mapping.key = key
  own_task : ∀ (object : Nat) (mapping : Mapping) (task : Nat), m.objects[object]? = some mapping →
    mapping.renewal_task = some task → ∃ t : Task, m.tasks[task]? = some t ∧ t.mapping = object
  live : ∀ task object, Renews m task object → m.mappings.get? (m.keyOf object) = some object ∧
    ∃ mapping, m.objects[object]? = some mapping ∧ mapping.renewal_task = some task ∧
      mapping.expires_at ≠ none
  current : ∀ (task : Nat) (t : Task) (attempt current : Nat), m.tasks[task]? = some t →
    t.phase = .calling attempt current ∨ t.phase = .pausing attempt current → current = t.mapping

structure WellKept (m : PortMappingManager) : Prop extends Linked m where
  due : ∀ object mapping, Stored m object → m.objects[object]? = some mapping →
    mapping.expires_at ≠ none → mapping.renewed ≠ some false → ∃ task, Renews m task object

section Primitives

open PortMappingManager

variable {m : PortMappingManager} {task object i : Nat} {f : Mapping → Mapping}

theorem WellKept.oneTaskEach (h : WellKept m) : OneTaskEach m where
  stored task object hrenews := ⟨_, (h.live task object hrenews).1⟩
  one object mapping hstored hget hfinite hok := by
    obtain ⟨task, hrenews⟩ := h.due object mapping hstored hget hfinite hok
    refine ⟨task, hrenews, fun task' hrenews' => ?_⟩
    obtain ⟨-, mapping₁, hget₁, htask₁, -⟩ := h.live task object hrenews
    obtain ⟨-, mapping₂, hget₂, htask₂, -⟩ := h.live task' object hrenews'
    cases hget₁.symm.trans hget₂
    exact Option.some.inj (htask₂.symm.trans htask₁)

theorem getElem?_modify_ite {α : Type} (l : List α) (change : α → α) (i j : Nat) :
    (l.modify i change)[j]? = if j = i then l[j]?.map change else l[j]? := by
  rw [List.getElem?_modify]
  by_cases h : j = i
  · subst h
    simp
  · simp [h, Ne.symm h]

theorem getElem?_concat_eq_some {α : Type} {l : List α} {x y : α} {i : Nat} :
    (l ++ [x])[i]? = some y ↔ l[i]? = some y ∨ i = l.length ∧ x = y := by
  rcases Nat.lt_trichotomy i l.length with hlt | rfl | hgt
  · rw [List.getElem?_append_left hlt]
    exact (or_iff_left fun h => hlt.ne h.1).symm
  · rw [List.getElem?_concat_length, List.getElem?_eq_none le_rfl]
    simp
  · rw [List.getElem?_eq_none hgt.le,
      List.getElem?_eq_none (by rw [List.length_append]; exact hgt)]
    simp [hgt.ne']

theorem getElem?_update (m : PortMappingManager) (object : Nat) (f : Mapping → Mapping) (i : Nat) :
    (m.update object f).objects[i]? = if i = object then m.objects[i]?.map f else m.objects[i]? :=
  getElem?_modify_ite m.objects f object i

theorem keyOf_update (hf : ∀ mapping, (f mapping).key = mapping.key) (object i : Nat) :
    (m.update object f).keyOf i = m.keyOf i := by
  rw [keyOf, keyOf, getElem?_update]
  split
  · rw [Option.map_map]
    congr 2
    funext mapping
    exact hf mapping
  · rfl

theorem getElem?_suspend (m : PortMappingManager) (task : Nat) (phase : Phase) (i : Nat) :
    (m.suspend task phase).tasks[i]? =
      if i = task then m.tasks[i]?.map fun t => { t with phase } else m.tasks[i]? :=
  getElem?_modify_ite m.tasks _ task i

theorem renews_end (m : PortMappingManager) (task i object : Nat) :
    Renews (m.suspend task .ended) i object ↔ i ≠ task ∧ Renews m i object := by
  rw [Renews, getElem?_suspend]
  split
  · refine iff_of_false ?_ fun h => h.1 ‹_›
    rintro ⟨t, ht, hlive, -⟩
    obtain ⟨t', -, rfl⟩ := Option.map_eq_some_iff.mp ht
    exact hlive rfl
  · exact (and_iff_right ‹_›).symm

theorem renews_suspend {t : Task} {phase : Phase} (ht : m.tasks[task]? = some t)
    (hlive : t.phase ≠ .ended) (hphase : phase ≠ .ended) (i object : Nat) :
    Renews (m.suspend task phase) i object ↔ Renews m i object := by
  rw [Renews, Renews, getElem?_suspend]
  split
  · subst i
    rw [ht]
    constructor
    · rintro ⟨t', ht', -, hmapping⟩
      cases ht'
      exact ⟨t, rfl, hlive, hmapping⟩
    · rintro ⟨t', ht', -, hmapping⟩
      cases ht'
      exact ⟨_, rfl, hphase, hmapping⟩
  · rfl

theorem renews_cancel (m : PortMappingManager) (task : Option Nat) (i object : Nat) :
    Renews (m.cancel task) i object ↔ task ≠ some i ∧ Renews m i object := by
  cases task with
  | none => exact (and_iff_right (by simp)).symm
  | some task =>
    refine (renews_end m task i object).trans (and_congr_left' ?_)
    rw [Ne, Ne, Option.some_inj, eq_comm]

theorem renews_schedule (m : PortMappingManager) (object i j : Nat) :
    Renews (m.schedule object) i j ↔ Renews m i j ∨ i = m.tasks.length ∧ j = object := by
  constructor
  · rintro ⟨t, ht, hlive, rfl⟩
    rcases getElem?_concat_eq_some.mp ht with ht | ⟨hi, rfl⟩
    · exact .inl ⟨t, ht, hlive, rfl⟩
    · exact .inr ⟨hi, rfl⟩
  · rintro (⟨t, ht, hlive, hmapping⟩ | ⟨hi, rfl⟩)
    · exact ⟨t, getElem?_concat_eq_some.mpr (.inl ht), hlive, hmapping⟩
    · exact ⟨_, getElem?_concat_eq_some.mpr (.inr ⟨hi, rfl⟩), nofun, rfl⟩

/-- A change of the phase keeps what a task has been created for. -/
theorem mapping_suspend {t : Task} (task : Nat) (phase : Phase) (ht : m.tasks[i]? = some t) :
    ∃ t', (m.suspend task phase).tasks[i]? = some t' ∧ t'.mapping = t.mapping := by
  rw [getElem?_suspend, ht]
  split
  · exact ⟨_, rfl, rfl⟩
  · exact ⟨t, rfl, rfl⟩

/-- To cancel a task changes the tasks only. -/
theorem cancel_eq (own : Option Nat) : m.cancel own = { m with tasks := (m.cancel own).tasks } := by
  cases own with
  | none => rfl
  | some task => rfl

theorem mapping_cancel (own : Option Nat) {t : Task} (ht : m.tasks[i]? = some t) :
    ∃ t', (m.cancel own).tasks[i]? = some t' ∧ t'.mapping = t.mapping := by
  cases own with
  | none => exact ⟨t, ht, rfl⟩
  | some task => exact mapping_suspend task .ended ht

theorem Linked.renewal_task (h : Linked m) (hrenews : Renews m task object) :
    m.objects[object]?.bind Mapping.renewal_task = some task := by
  obtain ⟨-, mapping, hget, htask, -⟩ := h.live task object hrenews
  rw [hget]
  exact htask

theorem Linked.unique (h : Linked m) {task' : Nat} (hrenews : Renews m task object)
    (hrenews' : Renews m task' object) : task' = task :=
  Option.some.inj ((h.renewal_task hrenews').symm.trans (h.renewal_task hrenews))

theorem Linked.renews (h : Linked m) {t : Task} (ht : m.tasks[task]? = some t)
    (hlive : t.phase ≠ .ended) :
    Renews m task t.mapping ∧ m.mappings.get? (m.keyOf t.mapping) = some t.mapping := by
  have hrenews : Renews m task t.mapping := ⟨t, ht, hlive, rfl⟩
  exact ⟨hrenews, (h.live task t.mapping hrenews).1⟩

/-- The keys stay where the mappings are when a mapping is changed. -/
theorem Linked.key_update (h : Linked m) (hkey : ∀ mapping, (f mapping).key = mapping.key)
    (object : Nat) {key : Str} (hstored : m.mappings.get? key = some i) :
    ∃ mapping, (m.update object f).objects[i]? = some mapping ∧ mapping.key = key := by
  obtain ⟨mapping, hget, hkey'⟩ := h.key key i hstored
  rw [getElem?_update, hget]
  split
  · exact ⟨f mapping, rfl, (hkey mapping).trans hkey'⟩
  · exact ⟨mapping, rfl, hkey'⟩

theorem wellKept_suspend (h : WellKept m) {t : Task} {phase : Phase}
    (ht : m.tasks[task]? = some t) (hlive : t.phase ≠ .ended) (hphase : phase ≠ .ended)
    (hcurrent : ∀ attempt current, phase = .calling attempt current ∨
      phase = .pausing attempt current → current = t.mapping) :
    WellKept (m.suspend task phase) where
  key := h.key
  own_task object mapping i hget htask := by
    obtain ⟨t', ht', hmapping⟩ := h.own_task object mapping i hget htask
    obtain ⟨t'', ht'', hmapping'⟩ := mapping_suspend task phase ht'
    exact ⟨t'', ht'', hmapping'.trans hmapping⟩
  live i object hrenews := h.live i object ((renews_suspend ht hlive hphase i object).mp hrenews)
  current i t' attempt current ht' hphase' := by
    rw [getElem?_suspend] at ht'
    split at ht'
    · subst i
      rw [ht] at ht'
      cases ht'
      exact hcurrent attempt current hphase'
    · exact h.current i t' attempt current ht' hphase'
  due object mapping hstored hget hfinite hok := by
    obtain ⟨i, hrenews⟩ := h.due object mapping hstored hget hfinite hok
    exact ⟨i, (renews_suspend ht hlive hphase i object).mpr hrenews⟩

/-- When a task ends, its mapping is still accounted for if it does not expire or the renewal has
failed. -/
theorem wellKept_end (h : WellKept m) (hrenews : Renews m task object)
    (hkey : ∀ mapping, (f mapping).key = mapping.key)
    (htask : ∀ mapping, (f mapping).renewal_task = none ∨
      (f mapping).renewal_task = mapping.renewal_task)
    (hdue : ∀ mapping, (f mapping).expires_at ≠ none → (f mapping).renewed = some false) :
    WellKept ((m.update object f).suspend task .ended) where
  key key i hstored := h.key_update hkey object hstored
  own_task i mapping j hget hj := by
    replace hget : (m.update object f).objects[i]? = some mapping := hget
    have hown : ∃ t : Task, m.tasks[j]? = some t ∧ t.mapping = i := by
      rw [getElem?_update] at hget
      split at hget
      · obtain ⟨mapping', hget', rfl⟩ := Option.map_eq_some_iff.mp hget
        rcases htask mapping' with hnone | hsame
        · rw [hnone] at hj
          cases hj
        · exact h.own_task i mapping' j hget' (hsame ▸ hj)
      · exact h.own_task i mapping j hget hj
    obtain ⟨t, ht, hmapping⟩ := hown
    have ht' : (m.update object f).tasks[j]? = some t := ht
    obtain ⟨t', ht', hmapping'⟩ := mapping_suspend task .ended ht'
    exact ⟨t', ht', hmapping'.trans hmapping⟩
  live i j hlive := by
    obtain ⟨hne, hlive⟩ := (renews_end (m.update object f) task i j).mp hlive
    replace hlive : Renews m i j := hlive
    obtain ⟨hstored, hmapping⟩ := h.live i j hlive
    have hj : j ≠ object := fun heq => hne (h.unique hrenews (heq ▸ hlive))
    refine ⟨?_, ?_⟩
    · show m.mappings.get? ((m.update object f).keyOf j) = some j
      rw [keyOf_update hkey, hstored]
    · show ∃ mapping, (m.update object f).objects[j]? = some mapping ∧ _
      rw [getElem?_update, if_neg hj]
      exact hmapping
  current i t attempt current ht hphase := by
    rw [getElem?_suspend] at ht
    split at ht
    · obtain ⟨t', -, rfl⟩ := Option.map_eq_some_iff.mp ht
      rcases hphase with hphase | hphase <;> cases hphase
    · exact h.current i t attempt current ht hphase
  due i mapping hstored hget hfinite hok := by
    replace hget : (m.update object f).objects[i]? = some mapping := hget
    rw [getElem?_update] at hget
    split at hget
    · obtain ⟨mapping', hget', rfl⟩ := Option.map_eq_some_iff.mp hget
      exact absurd (hdue mapping' hfinite) hok
    · obtain ⟨j, hlive⟩ := h.due i mapping hstored hget hfinite hok
      refine ⟨j, (renews_end (m.update object f) task j i).mpr ⟨?_, hlive⟩⟩
      rintro rfl
      obtain ⟨t, ht, -, rfl⟩ := hlive
      obtain ⟨t', ht', -, hmapping⟩ := hrenews
      cases ht.symm.trans ht'
      exact ‹¬_› hmapping

/-- A stored mapping that expires and that no live task renews gets a task. -/
theorem wellKept_schedule (h : Linked m) {mapping : Mapping}
    (hstored : m.mappings.get? (m.keyOf object) = some object)
    (hmapping : m.objects[object]? = some mapping) (hfinite : mapping.expires_at ≠ none)
    (hidle : ∀ i, ¬Renews m i object)
    (hdue : ∀ i mapping, i ≠ object → Stored m i → m.objects[i]? = some mapping →
      mapping.expires_at ≠ none → mapping.renewed ≠ some false → ∃ task, Renews m task i) :
    WellKept (m.schedule object) := by
  have hkey (mapping : Mapping) :
      Mapping.key { mapping with renewal_task := some m.tasks.length } = mapping.key := rfl
  have hobjects (i : Nat) : (m.schedule object).objects[i]? = if i = object then
      m.objects[i]?.map fun mapping => { mapping with renewal_task := some m.tasks.length }
      else m.objects[i]? := getElem?_update m object _ i
  have hkeyOf (i : Nat) : (m.schedule object).keyOf i = m.keyOf i := keyOf_update hkey object i
  refine {
    key := fun key i hi => ?_
    own_task := fun i mapping' task hget htask => ?_
    live := fun i j hrenews => ?_
    current := fun i t attempt current ht hphase => ?_
    due := fun i mapping' hi hget hfinite' hok => ?_ }
  · exact h.key_update hkey object hi
  · rw [hobjects] at hget
    split at hget
    · obtain ⟨mapping'', -, rfl⟩ := Option.map_eq_some_iff.mp hget
      cases htask
      exact ⟨_, getElem?_concat_eq_some.mpr (.inr ⟨rfl, rfl⟩), Eq.symm ‹_›⟩
    · obtain ⟨t, ht, hmapping'⟩ := h.own_task i mapping' task hget htask
      exact ⟨t, getElem?_concat_eq_some.mpr (.inl ht), hmapping'⟩
  · rw [hkeyOf, hobjects]
    rcases (renews_schedule m object i j).mp hrenews with hrenews | ⟨rfl, rfl⟩
    · have hj : j ≠ object := fun heq => hidle i (heq ▸ hrenews)
      rw [if_neg hj]
      exact h.live i j hrenews
    · rw [if_pos rfl, hmapping]
      exact ⟨hstored, _, rfl, rfl, hfinite⟩
  · rcases getElem?_concat_eq_some.mp ht with ht | ⟨-, rfl⟩
    · exact h.current i t attempt current ht hphase
    · rcases hphase with hphase | hphase <;> cases hphase
  · by_cases hi' : i = object
    · exact ⟨_, (renews_schedule m object _ i).mpr (.inr ⟨rfl, hi'⟩)⟩
    · rw [hobjects, if_neg hi'] at hget
      obtain ⟨task, hrenews⟩ := hdue i mapping' hi' hi hget hfinite' hok
      exact ⟨task, (renews_schedule m object task i).mpr (.inl hrenews)⟩

/-- A mapping that no live task renews may be changed. -/
theorem linked_update (h : Linked m) (hidle : ∀ i, ¬Renews m i object)
    (hkey : ∀ mapping, (f mapping).key = mapping.key)
    (htask : ∀ mapping, (f mapping).renewal_task = mapping.renewal_task) :
    Linked (m.update object f) where
  key key i hstored := h.key_update hkey object hstored
  own_task i mapping j hget hj := by
    rw [getElem?_update] at hget
    split at hget
    · obtain ⟨mapping', hget', rfl⟩ := Option.map_eq_some_iff.mp hget
      exact h.own_task i mapping' j hget' (htask mapping' ▸ hj)
    · exact h.own_task i mapping j hget hj
  live i j hrenews := by
    have hj : j ≠ object := fun heq => hidle i (heq ▸ hrenews)
    rw [keyOf_update hkey, getElem?_update, if_neg hj]
    exact h.live i j hrenews
  current := h.current

theorem suspend_ended (h : ∀ t, m.tasks[task]? = some t → t.phase = .ended) :
    m.suspend task .ended = m := by
  have htasks : (m.suspend task .ended).tasks = m.tasks := by
    refine List.ext_getElem? fun i => ?_
    rw [getElem?_suspend]
    split
    · subst i
      cases ht : m.tasks[task]? with
      | none => rfl
      | some t => rw [Option.map_some, ← h t ht]
    · rfl
  show { m with tasks := (m.suspend task .ended).tasks } = m
  rw [htasks]

end Primitives

section Steps

open PortMappingManager

variable {m : PortMappingManager} {task object : Nat} {e : Event}

def setRenewed (renewed : Option Bool) (mapping : Mapping) : Mapping := { mapping with renewed }

theorem wellKept_fail (h : WellKept m) (hrenews : Renews m task object) :
    WellKept ((m.update object (setRenewed (some false))).suspend task .ended) :=
  wellKept_end h hrenews (fun _ => rfl) (fun _ => .inr rfl) fun _ _ => rfl

theorem wellKept_wake (h : WellKept m) (task : Nat) : WellKept (m.wake task) := by
  rw [wake]
  cases ht : m.tasks[task]? with
  | none => exact h
  | some t =>
    obtain ⟨mapping, phase⟩ := t
    cases phase with
    | sleeping =>
      obtain ⟨hrenews, hstored⟩ := h.renews ht nofun
      simp only [hstored]
      split
      · refine wellKept_suspend h ht nofun nofun fun attempt current hphase => ?_
        rcases hphase with hphase | hphase <;> cases hphase
        rfl
      · exact wellKept_fail h hrenews
    | calling attempt current => exact h
    | pausing attempt current =>
      refine wellKept_suspend h ht nofun nofun fun attempt' current' hphase => ?_
      rcases hphase with hphase | hphase <;> cases hphase
      exact h.current task _ attempt current ht (.inr rfl)
    | ended => exact h

theorem wellKept_retry (h : WellKept m) {mapping attempt current : Nat}
    (ht : m.tasks[task]? = some ⟨mapping, .calling attempt current⟩) :
    WellKept (m.retry task attempt current) := by
  have hcurrent : current = mapping := h.current task _ attempt current ht (.inl rfl)
  rw [retry]
  split
  · refine wellKept_suspend h ht nofun nofun fun attempt' current' hphase => ?_
    rcases hphase with hphase | hphase <;> cases hphase
    exact hcurrent
  · subst hcurrent
    exact wellKept_fail h (h.renews ht nofun).1

/-- The new lifetime of a mapping. -/
def setLifetime (new_lifetime : Int) (now : Time) (mapping : Mapping) : Mapping :=
  { mapping with
    expires_at := if 0 < new_lifetime then some (now + new_lifetime) else none
    renewed := some true }

/-- A task that renews its mapping hands over to the next task, if the mapping expires again. -/
theorem prolong_eq (h : Linked m) (hrenews : Renews m task object) (new_lifetime : Int)
    (now : Time) : (m.prolong (m.keyOf object) new_lifetime now).suspend task .ended =
      if 0 < new_lifetime then
        (((m.update object (setRenewed (some false))).suspend task .ended).update object
          (setLifetime new_lifetime now)).schedule object
      else (m.update object fun mapping =>
        { setLifetime new_lifetime now mapping with renewal_task := none }).suspend task .ended := by
  obtain ⟨hstored, -⟩ := h.live task object hrenews
  have htask := h.renewal_task hrenews
  obtain ⟨t, ht, -, -⟩ := hrenews
  have hprolong : m.prolong (m.keyOf object) new_lifetime now =
      if 0 < new_lifetime then
        ((m.update object (setLifetime new_lifetime now)).suspend task .ended).schedule object
      else ((m.update object (setLifetime new_lifetime now)).suspend task .ended).update object
        fun mapping => { mapping with renewal_task := none } := by
    rw [prolong, hstored]
    dsimp only
    rw [htask]
    rfl
  rw [hprolong]
  by_cases hfinite : 0 < new_lifetime
  · rw [if_pos hfinite, if_pos hfinite]
    have hupdate : (m.update object (setLifetime new_lifetime now)).suspend task .ended =
        ((m.update object (setRenewed (some false))).suspend task .ended).update object
          (setLifetime new_lifetime now) := by
      simp only [PortMappingManager.update, suspend, List.modify_modify_eq]
      rfl
    rw [← hupdate]
    -- The task is cancelled by itself, and its end comes later.
    refine suspend_ended fun t' ht' => ?_
    replace ht' : (((m.update object (setLifetime new_lifetime now)).suspend task .ended).tasks ++
      [{ mapping := object }])[task]? = some t' := ht'
    have hended : ((m.update object (setLifetime new_lifetime now)).suspend task .ended).tasks[task]?
        = some { t with phase := .ended } := by
      rw [getElem?_suspend, if_pos rfl]
      exact congrArg (Option.map _) ht
    rw [List.getElem?_append_left (List.getElem?_eq_some_iff.mp hended).1, hended] at ht'
    cases ht'
    rfl
  · rw [if_neg hfinite, if_neg hfinite]
    simp only [PortMappingManager.update, suspend, List.modify_modify_eq]
    rfl

theorem wellKept_prolong (h : WellKept m) (hrenews : Renews m task object) (new_lifetime : Int)
    (now : Time) :
    WellKept ((m.prolong (m.keyOf object) new_lifetime now).suspend task .ended) := by
  rw [prolong_eq h.toLinked hrenews]
  split
  · have hfailed := wellKept_fail h hrenews
    have hidle (i : Nat) :
        ¬Renews ((m.update object (setRenewed (some false))).suspend task .ended) i object := by
      rw [renews_end]
      exact fun hi => hi.1 (h.unique hrenews hi.2)
    obtain ⟨hstored, mapping, hget, -⟩ := h.live task object hrenews
    have hget' : ((m.update object (setRenewed (some false))).suspend task .ended).objects[object]? =
        some (setRenewed (some false) mapping) := by
      show (m.update object (setRenewed (some false))).objects[object]? = _
      rw [getElem?_update, if_pos rfl, hget]
      rfl
    have hset : (((m.update object (setRenewed (some false))).suspend task .ended).update object
        (setLifetime new_lifetime now)).objects[object]? =
          some (setLifetime new_lifetime now (setRenewed (some false) mapping)) := by
      rw [getElem?_update, if_pos rfl, hget']
      rfl
    refine wellKept_schedule (linked_update hfailed.toLinked hidle (fun _ => rfl) fun _ => rfl) ?_
      hset ?_ hidle ?_
    · have hkey (mapping : Mapping) : (setLifetime new_lifetime now mapping).key = mapping.key := rfl
      have hkey' (mapping : Mapping) : (setRenewed (some false) mapping).key = mapping.key := rfl
      rw [keyOf_update hkey]
      show m.mappings.get? ((m.update object (setRenewed (some false))).keyOf object) = some object
      rw [keyOf_update hkey', hstored]
    · show (if 0 < new_lifetime then some (now + new_lifetime) else none) ≠ none
      rw [if_pos ‹_›]
      nofun
    · intro i other hi hi_stored hi_get hi_finite hi_ok
      rw [getElem?_update, if_neg hi] at hi_get
      exact hfailed.due i other hi_stored hi_get hi_finite hi_ok
  · refine wellKept_end h hrenews (fun _ => rfl) (fun _ => .inl rfl) fun mapping hmapping => ?_
    exact absurd (if_neg ‹_›) hmapping

theorem wellKept_resume (h : WellKept m) (task : Nat) (renewal : Renewal) (now : Time)
    (hmeets : Meets m (.resume task renewal now)) : WellKept (m.resume task renewal now) := by
  rw [resume]
  cases ht : m.tasks[task]? with
  | none => exact h
  | some t =>
    obtain ⟨mapping, phase⟩ := t
    cases phase with
    | sleeping => exact h
    | pausing attempt current => exact h
    | ended => exact h
    | calling attempt current =>
      obtain ⟨hrenews, hstored⟩ := h.renews ht nofun
      cases renewal with
      | raises => exact wellKept_retry h ht
      | returns success new_lifetime =>
        cases success with
        | false => exact wellKept_retry h ht
        | true =>
          cases new_lifetime with
          | none => exact absurd ht (hmeets mapping attempt current)
          | some new_lifetime =>
            exact wellKept_prolong h hrenews new_lifetime now

/-- The task of a mapping that is no longer stored is cancelled. -/
theorem wellKept_discard (h : WellKept m) (key : Str) : WellKept (m.discard key) := by
  rw [PortMappingManager.discard]
  cases hget : m.mappings.get? key with
  | none => exact h
  | some object =>
    obtain ⟨mapping, hmapping, hkey⟩ := h.key key object hget
    have herase (k : Str) (i : Nat) (hi : (m.mappings.erase key).get? k = some i) :
        k ≠ key ∧ m.mappings.get? k = some i := by
      rw [Dict.get?_erase] at hi
      split at hi
      · cases hi
      · exact ⟨‹_›, hi⟩
    have htasks : ∀ (own : Option Nat) (i : Nat) (t : Task), (m.cancel own).tasks[i]? = some t →
        m.tasks[i]? = some t ∨ t.phase = .ended := by
      rintro (_ | own) i t ht
      · exact .inl ht
      · replace ht : (m.suspend own .ended).tasks[i]? = some t := ht
        rw [getElem?_suspend] at ht
        split at ht
        · obtain ⟨t', -, rfl⟩ := Option.map_eq_some_iff.mp ht
          exact .inr rfl
        · exact .inl ht
    show WellKept { m.cancel (m.objects[object]?.bind Mapping.renewal_task) with
      mappings := m.mappings.erase key }
    rw [cancel_eq]
    exact {
      key := fun k i hi => h.key k i (herase k i hi).2
      own_task := fun i mapping' task hi htask => by
        obtain ⟨t, ht, ht_mapping⟩ := h.own_task i mapping' task hi htask
        obtain ⟨t', ht', ht'_mapping⟩ :=
          mapping_cancel (m.objects[object]?.bind Mapping.renewal_task) ht
        exact ⟨t', ht', ht'_mapping.trans ht_mapping⟩
      live := fun i j hrenews => by
        obtain ⟨hother, hrenews⟩ := (renews_cancel m _ i j).mp hrenews
        obtain ⟨hstored, hj⟩ := h.live i j hrenews
        refine ⟨?_, hj⟩
        show (m.mappings.erase key).get? (m.keyOf j) = some j
        rw [Dict.get?_erase, if_neg, hstored]
        rintro hkeyOf
        rw [hkeyOf, hget] at hstored
        cases hstored
        exact hother (h.renewal_task hrenews)
      current := fun i t attempt current ht hphase => by
        rcases htasks _ i t ht with ht | hended
        · exact h.current i t attempt current ht hphase
        · rw [hended] at hphase
          rcases hphase with hphase | hphase <;> cases hphase
      due := fun i mapping' hstored hi hfinite hok => by
        obtain ⟨k, hk⟩ := hstored
        obtain ⟨hne, hk'⟩ := herase k i hk
        obtain ⟨task, hrenews⟩ := h.due i mapping' ⟨k, hk'⟩ hi hfinite hok
        refine ⟨task, (renews_cancel m _ task i).mpr ⟨?_, hrenews⟩⟩
        rw [hmapping]
        intro htask
        obtain ⟨t, ht, rfl⟩ := h.own_task object mapping task hmapping htask
        obtain ⟨t', ht', -, rfl⟩ := hrenews
        cases ht.symm.trans ht'
        obtain ⟨mapping'', hmapping'', hkey''⟩ := h.key k _ hk'
        cases hmapping.symm.trans hmapping''
        exact hne (hkey''.symm.trans hkey) }

theorem wellKept_cleanup (h : WellKept m) (now : Time) : WellKept (m.cleanupExpired now) := by
  have hstep (m : PortMappingManager) (key : Str) (h : WellKept m) : WellKept (m.discard key) :=
    wellKept_discard h key
  exact run_of_invariant hstep h _

theorem Linked.lt_length (h : Linked m) {key : Str} (hget : m.mappings.get? key = some object) :
    object < m.objects.length := by
  obtain ⟨mapping, hmapping, -⟩ := h.key key object hget
  exact (List.getElem?_eq_some_iff.mp hmapping).1

theorem Linked.key_unique (h : Linked m) {key key' : Str}
    (hget : m.mappings.get? key = some object) (hget' : m.mappings.get? key' = some object) :
    key' = key := by
  obtain ⟨mapping, hmapping, rfl⟩ := h.key key object hget
  obtain ⟨mapping', hmapping', rfl⟩ := h.key key' object hget'
  cases hmapping.symm.trans hmapping'
  rfl

/-- A mapping is stored under its key, and nothing has been scheduled yet. -/
def store (m : PortMappingManager) (mapping : Mapping) : PortMappingManager :=
  { m with
    mappings := m.mappings.set mapping.key m.objects.length
    objects := m.objects ++ [mapping] }

theorem getElem?_store (m : PortMappingManager) (mapping : Mapping) {i : Nat}
    {mapping' : Mapping} : (store m mapping).objects[i]? = some mapping' ↔
      m.objects[i]? = some mapping' ∨ i = m.objects.length ∧ mapping = mapping' :=
  getElem?_concat_eq_some

theorem stored_store {mapping : Mapping} {i : Nat}
    (hi : Stored (store m mapping) i) (hne : i ≠ m.objects.length) : Stored m i := by
  obtain ⟨k, hk⟩ := hi
  replace hk : (m.mappings.set mapping.key m.objects.length).get? k = some i := hk
  rw [Dict.get?_set] at hk
  split at hk
  · exact absurd (Option.some.inj hk).symm hne
  · exact ⟨k, hk⟩

theorem linked_store (h : Linked m) {mapping : Mapping} (htask : mapping.renewal_task = none)
    (hidle : ∀ object, m.mappings.get? mapping.key = some object → ∀ task, ¬Renews m task object) :
    Linked (store m mapping) where
  key k i hi := by
    replace hi : (m.mappings.set mapping.key m.objects.length).get? k = some i := hi
    rw [Dict.get?_set] at hi
    split at hi
    · exact ⟨mapping, (getElem?_store m mapping).mpr (.inr ⟨(Option.some.inj hi).symm, rfl⟩),
        Eq.symm ‹_›⟩
    · obtain ⟨mapping', hget, hkey⟩ := h.key k i hi
      exact ⟨mapping', (getElem?_store m mapping).mpr (.inl hget), hkey⟩
  own_task i mapping' task hi hown := by
    rcases (getElem?_store m mapping).mp hi with hi | ⟨-, rfl⟩
    · exact h.own_task i mapping' task hi hown
    · cases htask.symm.trans hown
  live i j hrenews := by
    obtain ⟨hstored, mapping', hget, hrest⟩ := h.live i j hrenews
    refine ⟨?_, mapping', (getElem?_store m mapping).mpr (.inl hget), hrest⟩
    have hkeyOf : (store m mapping).keyOf j = m.keyOf j := by
      rw [keyOf, keyOf, hget, (getElem?_store m mapping).mpr (.inl hget)]
    show (m.mappings.set mapping.key m.objects.length).get? ((store m mapping).keyOf j) = some j
    rw [hkeyOf, Dict.get?_set, if_neg, hstored]
    intro heq
    exact hidle j (heq ▸ hstored) i hrenews
  current := h.current

theorem wellKept_store (h : WellKept m) (mapping : Mapping) (htask : mapping.renewal_task = none)
    (hpermanent : mapping.expires_at = none)
    (hidle : ∀ object, m.mappings.get? mapping.key = some object → ∀ task, ¬Renews m task object) :
    WellKept (store m mapping) where
  toLinked := linked_store h.toLinked htask hidle
  due i mapping' hstored hget hfinite hok := by
    rcases (getElem?_store m mapping).mp hget with hget | ⟨-, rfl⟩
    · have hne : i ≠ m.objects.length := (List.getElem?_eq_some_iff.mp hget).1.ne
      exact h.due i mapping' (stored_store hstored hne) hget hfinite hok
    · exact absurd hpermanent hfinite

theorem wellKept_store_schedule (h : WellKept m) (mapping : Mapping)
    (htask : mapping.renewal_task = none) (hfinite : mapping.expires_at ≠ none)
    (hidle : ∀ object, m.mappings.get? mapping.key = some object → ∀ task, ¬Renews m task object) :
    WellKept ((store m mapping).schedule m.objects.length) := by
  have hget : (store m mapping).objects[m.objects.length]? = some mapping :=
    (getElem?_store m mapping).mpr (.inr ⟨rfl, rfl⟩)
  refine wellKept_schedule (linked_store h.toLinked htask hidle) ?_ hget hfinite ?_ ?_
  · rw [keyOf, hget]
    exact Dict.get?_set_self _ _ _
  · intro i hrenews
    obtain ⟨hstored, -⟩ := h.live i m.objects.length hrenews
    exact (h.lt_length hstored).ne rfl
  · intro i mapping' hi hstored hget hfinite' hok
    rcases (getElem?_store m mapping).mp hget with hget | ⟨rfl, -⟩
    · exact h.due i mapping' (stored_store hstored hi) hget hfinite' hok
    · exact absurd rfl hi

theorem wellKept_add (h : WellKept m) {internal_port external_port : Nat}
    {protocol protocol_source : Str} {lifetime : Option Int} {now : Time}
    (hmeets : Meets m (.add internal_port external_port protocol protocol_source lifetime now)) :
    WellKept (m.addMapping internal_port external_port protocol protocol_source lifetime now) := by
  rw [addMapping]
  cases lifetime.filter fun n => decide (0 < n) with
  | none =>
    exact wellKept_store h { internal_port, external_port, protocol, protocol_source } rfl rfl hmeets
  | some n =>
    let mapping : Mapping := {
      internal_port
      external_port
      protocol
      protocol_source
      expires_at := some (now + n) }
    exact wellKept_store_schedule h mapping rfl nofun hmeets

theorem wellKept_step (h : WellKept m) (e : Event) (hmeets : Meets m e) : WellKept (step m e) := by
  cases e with
  | add => exact wellKept_add h hmeets
  | remove protocol external_port => exact wellKept_discard h _
  | cleanup now => exact wellKept_cleanup h now
  | wake task => exact wellKept_wake h task
  | resume task renewal now => exact wellKept_resume h task renewal now hmeets

end Steps

section Runs

open PortMappingManager

variable {m : PortMappingManager} {e : Event}

/-- The task of a mapping that has been replaced goes on. -/
theorem meets_of_add (h : WellKept m) {internal_port external_port : Nat}
    {protocol protocol_source : Str} {lifetime : Option Int} {now : Time}
    (hone : OneTaskEach
      (m.addMapping internal_port external_port protocol protocol_source lifetime now)) :
    Meets m (.add internal_port external_port protocol protocol_source lifetime now) := by
  intro object hget task hrenews
  have hboth : Renews (m.addMapping internal_port external_port protocol protocol_source lifetime
        now) task object ∧
      (m.addMapping internal_port external_port protocol protocol_source lifetime now).mappings =
        m.mappings.set (makeKey protocol external_port) m.objects.length := by
    rw [addMapping]
    cases lifetime.filter fun n => decide (0 < n) with
    | none => exact ⟨hrenews, rfl⟩
    | some n => exact ⟨(renews_schedule _ _ task object).mpr (.inl hrenews), rfl⟩
  obtain ⟨key, hkey⟩ := hone.stored task object hboth.1
  rw [hboth.2, Dict.get?_set] at hkey
  split at hkey
  · exact (h.lt_length hget).ne' (Option.some.inj hkey)
  · exact ‹¬_› (h.key_unique hget hkey)

/-- A task that reports a success without a lifetime leaves its mapping without a task. -/
theorem meets_of_resume (h : WellKept m) {task : Nat} {now : Time}
    (hone : OneTaskEach (m.resume task (.returns true none) now)) :
    Meets m (.resume task (.returns true none) now) := by
  intro object attempt current ht
  have hcurrent : current = object := h.current task _ attempt current ht (.inl rfl)
  subst hcurrent
  have hrenews : Renews m task current := ⟨_, ht, nofun, rfl⟩
  obtain ⟨hstored, mapping, hget, -, hfinite⟩ := h.live task current hrenews
  rw [resume, ht] at hone
  have hget' : (m.update current fun mapping => { mapping with renewed := some true }).objects[current]?
      = some { mapping with renewed := some true } := by
    rw [getElem?_update, if_pos rfl, hget]
    rfl
  obtain ⟨task', hrenews', -⟩ := hone.one current _ ⟨_, hstored⟩ hget' hfinite nofun
  obtain ⟨hne, hrenews'⟩ := (renews_end _ task task' current).mp hrenews'
  exact hne (h.unique hrenews hrenews')

theorem meets_of_oneTaskEach (h : WellKept m) (hone : OneTaskEach (step m e)) : Meets m e := by
  cases e with
  | add => exact meets_of_add h hone
  | remove => trivial
  | cleanup => trivial
  | wake => trivial
  | resume task renewal now =>
    cases renewal with
    | raises => trivial
    | returns success new_lifetime =>
      cases success with
      | false => trivial
      | true =>
        cases new_lifetime with
        | none => exact meets_of_resume h hone
        | some => trivial

theorem wellKept_start (renewal_callback : Bool) : WellKept { renewal_callback } where
  key _ _ hget := nomatch hget
  own_task _ _ _ hget := nomatch hget
  live task object hrenews := by
    obtain ⟨t, ht, -⟩ := hrenews
    cases ht
  current _ _ _ _ ht := nomatch ht
  due _ _ _ hget := nomatch hget

/-- There is one task for each mapping throughout a run exactly if no mapping is replaced while a
task renews it, and no callback reports a success without a lifetime. -/
theorem always_oneTaskEach_iff (renewal_callback : Bool) (events : List Event) :
    Always step OneTaskEach { renewal_callback } events ↔
      StepsMeet step Meets { renewal_callback } events :=
  always_iff_stepsMeet_of (fun _ h => WellKept.oneTaskEach h) (fun _ _ => meets_of_oneTaskEach)
    (fun _ e h => wellKept_step h e) (wellKept_start renewal_callback)

/-- The same port is mapped twice, as when the client starts again. -/
def addedTwice : List Event :=
  [.add 6881 6881 "tcp".toList "natpmp".toList (some 3600) 0,
    .add 6881 6881 "tcp".toList "natpmp".toList (some 3600) 60]

theorem not_always_oneTaskEach_addedTwice :
    ¬Always step OneTaskEach { renewal_callback := true } addedTwice := by
  intro h
  obtain ⟨key, hkey⟩ := (always_iff_take.mp h 2).stored 0 0 ⟨{ mapping := 0 }, rfl, nofun, rfl⟩
  have hmem := (Dict.get?_eq_some_iff _).mp hkey
  revert hmem
  show (key, 0) ∉ [(makeKey "tcp".toList 6881, 1)]
  simp

end Runs

end PortMapping

end Ccbt
