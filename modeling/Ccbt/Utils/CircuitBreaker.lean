import Ccbt.Python.Dict
import Ccbt.Transition.Run
import Mathlib.Algebra.Order.Ring.Rat
import Mathlib.Data.Rat.Defs
import Mathlib.Tactic.Linarith

/-!
# The circuit breaker

`CircuitBreaker` of `utils/resilience.py` under calls that overlap: between the check at the beginning
of a call and its result, other calls begin and end. Its two wrappers do the same; the synchronous
one awaits nothing in between. `PeerCircuitBreakerManager` has a breaker for each peer, and
`RateLimiter` allows a number of requests in a window. Floats are rational numbers.
-/

namespace Ccbt.Resilience

open Python Transition

abbrev Time := Rat

inductive BreakerState
  | closed
  | «open»
  | half_open
deriving DecidableEq

structure CircuitBreaker where
  failure_threshold : Int
  recovery_timeout : Time
  failure_count : Nat := 0
  last_failure_time : Time := 0
  state : BreakerState := .closed

/-- How a call of the function ends. -/
inductive Outcome
  | success
  /-- It raises `expected_exception`. -/
  | failure
  /-- It raises anything else, which the breaker does not see. -/
  | other
deriving DecidableEq

namespace CircuitBreaker

variable (b : CircuitBreaker)

/-- The check of a wrapper, and whether the call reaches the function. -/
def allow (now : Time) : CircuitBreaker × Bool :=
  if b.state = .open then
    if now - b.last_failure_time > b.recovery_timeout then ({ b with state := .half_open }, true)
    else (b, false)
  else (b, true)

def onSuccess : CircuitBreaker :=
  { b with
    failure_count := 0
    state := if b.state = .half_open then .closed else b.state }

def onFailure (now : Time) : CircuitBreaker :=
  { b with
    failure_count := b.failure_count + 1
    last_failure_time := now
    state := if ((b.failure_count + 1 : Nat) : Int) ≥ b.failure_threshold then .open else b.state }

def conclude (outcome : Outcome) (now : Time) : CircuitBreaker :=
  match outcome with
  | .success => b.onSuccess
  | .failure => b.onFailure now
  | .other => b

end CircuitBreaker

/-- A call that has reached the function. -/
structure Call where
  /-- The state of the breaker when the call was let through. -/
  made_in : BreakerState
  running : Bool := true
deriving DecidableEq

inductive Event
  | call (now : Time)
  /-- The result of the call of this number, if it is still running. -/
  | result (number : Nat) (outcome : Outcome) (now : Time)

/-- The breaker, the calls that have reached the function, and the results, the latest first. -/
structure System where
  breaker : CircuitBreaker
  calls : List Call := []
  results : List (Outcome × Time) := []

def reaches (s : System) (now : Time) : Prop := (s.breaker.allow now).2 = true

/-- The call of this number, while it runs. -/
def System.running? (s : System) (number : Nat) : Option Call :=
  s.calls[number]?.filter Call.running

def step (s : System) : Event → System
  | .call now =>
    let (breaker, admitted) := s.breaker.allow now
    { s with
      breaker
      calls := if admitted then s.calls ++ [{ made_in := breaker.state }] else s.calls }
  | .result number outcome now =>
    match s.running? number with
    | none => s
    | some call =>
      { breaker := s.breaker.conclude outcome now
        calls := s.calls.set number { call with running := false }
        results := (outcome, now) :: s.results }

/-- The time of the last failure. -/
def lastFailure (results : List (Outcome × Time)) : Option Time :=
  (results.find? fun r => r.1 = .failure).map Prod.snd

/-- How many failures there have been since the last success. -/
def failuresSinceSuccess (results : List (Outcome × Time)) : Nat :=
  (results.takeWhile fun r => r.1 ≠ .success).countP fun r => r.1 = .failure

/-- While the breaker is open, no call reaches the function before the timeout has passed since the
last failure, and the failure of a call that was made half-open leaves the breaker open. -/
def Lawful (s : System) : Event → Prop
  | .call now => s.breaker.state = .open → reaches s now →
      ∃ t, lastFailure s.results = some t ∧ s.breaker.recovery_timeout ≤ now - t
  | .result number .failure now => ∀ call, s.running? number = some call →
      call.made_in = .half_open → (step s (.result number .failure now)).breaker.state = .open
  | .result _ _ _ => True

/-- When a call that was made half-open fails, the breaker is open already, or the failures since the
last success come up to the threshold. -/
def Meets (s : System) : Event → Prop
  | .call _ => True
  | .result number .failure _ => ∀ call, s.running? number = some call →
      call.made_in = .half_open → s.breaker.state = .open ∨
        s.breaker.failure_threshold ≤ (failuresSinceSuccess s.results + 1 : Nat)
  | .result _ _ _ => True

/-- What the breaker keeps of the results. -/
structure Recorded (s : System) : Prop where
  count : s.breaker.failure_count = failuresSinceSuccess s.results
  last_failure : s.breaker.state = .open →
    lastFailure s.results = some s.breaker.last_failure_time

section Recording

variable {s : System} {b : CircuitBreaker} {now : Time}

theorem allow_cases (b : CircuitBreaker) (now : Time) :
    (b.state = .open ∧ b.recovery_timeout < now - b.last_failure_time ∧
        b.allow now = ({ b with state := .half_open }, true)) ∨
      (b.state = .open ∧ b.allow now = (b, false)) ∨ (b.state ≠ .open ∧ b.allow now = (b, true)) := by
  rw [CircuitBreaker.allow]
  by_cases hopen : b.state = .open
  · rw [if_pos hopen]
    by_cases hpassed : now - b.last_failure_time > b.recovery_timeout
    · exact .inl ⟨hopen, hpassed, if_pos hpassed⟩
    · exact .inr (.inl ⟨hopen, if_neg hpassed⟩)
  · exact .inr (.inr ⟨hopen, if_neg hopen⟩)

theorem failuresSinceSuccess_cons (outcome : Outcome) (now : Time)
    (results : List (Outcome × Time)) : failuresSinceSuccess ((outcome, now) :: results) =
      match outcome with
      | .success => 0
      | .failure => failuresSinceSuccess results + 1
      | .other => failuresSinceSuccess results := by
  cases outcome <;> simp [failuresSinceSuccess]

/-- What a step does: a call is turned away or let through, or a running call ends. -/
theorem step_cases (s : System) (e : Event) :
    step s e = s ∨
      (∃ now call, e = .call now ∧ call.running = true ∧
        (s.breaker.state = .open ∧ s.breaker.recovery_timeout < now - s.breaker.last_failure_time ∧
            call.made_in = .half_open ∧
            step s e = { s with
              breaker := { s.breaker with state := .half_open }
              calls := s.calls ++ [call] } ∨
          s.breaker.state ≠ .open ∧ call.made_in = s.breaker.state ∧
            step s e = { s with calls := s.calls ++ [call] })) ∨
      ∃ number outcome now call, e = .result number outcome now ∧
        s.running? number = some call ∧
        step s e = {
          breaker := s.breaker.conclude outcome now
          calls := s.calls.set number { call with running := false }
          results := (outcome, now) :: s.results } := by
  cases e with
  | call now =>
    rw [step]
    rcases allow_cases s.breaker now with ⟨hopen, hpassed, h⟩ | ⟨hopen, h⟩ | ⟨hopen, h⟩
    · exact .inr (.inl ⟨now, ⟨.half_open, true⟩, rfl, rfl, .inl ⟨hopen, hpassed, rfl, by rw [h]; rfl⟩⟩)
    · exact .inl (by rw [h]; rfl)
    · exact .inr (.inl ⟨now, ⟨s.breaker.state, true⟩, rfl, rfl, .inr ⟨hopen, rfl, by rw [h]; rfl⟩⟩)
  | result number outcome now =>
    rw [step]
    cases hcall : s.running? number with
    | none => exact .inl rfl
    | some call => exact .inr (.inr ⟨number, outcome, now, call, rfl, hcall, rfl⟩)

theorem recorded_step (h : Recorded s) (e : Event) : Recorded (step s e) := by
  rcases step_cases s e with hstep | ⟨now, call, -, -, ⟨-, -, -, hstep⟩ | ⟨-, -, hstep⟩⟩ |
    ⟨number, outcome, now, call, -, -, hstep⟩ <;> rw [hstep]
  · exact h
  · exact ⟨h.count, fun hopen => nomatch hopen⟩
  · exact ⟨h.count, h.last_failure⟩
  · cases outcome with
    | success =>
      refine ⟨(failuresSinceSuccess_cons .success now _).symm, fun hopen => ?_⟩
      replace hopen : (if s.breaker.state = .half_open then .closed else s.breaker.state) =
          BreakerState.open := hopen
      split at hopen
      · cases hopen
      · exact h.last_failure hopen
    | failure =>
      refine ⟨?_, fun _ => rfl⟩
      show s.breaker.failure_count + 1 = _
      rw [h.count, failuresSinceSuccess_cons]
    | other => exact ⟨h.count.trans (failuresSinceSuccess_cons .other now _).symm, h.last_failure⟩

/-- A step keeps the law exactly when it meets the condition. -/
theorem lawful_iff_meets (h : Recorded s) (e : Event) : Lawful s e ↔ Meets s e := by
  cases e with
  | call now =>
    refine iff_of_true (fun hopen hreaches => ⟨_, h.last_failure hopen, ?_⟩) trivial
    rcases allow_cases s.breaker now with ⟨-, hpassed, -⟩ | ⟨-, hrefused⟩ | ⟨hnot, -⟩
    · exact hpassed.le
    · rw [reaches, hrefused] at hreaches
      cases hreaches
    · exact absurd hopen hnot
  | result number outcome now =>
    cases outcome with
    | success => exact Iff.rfl
    | other => exact Iff.rfl
    | failure =>
      refine forall₂_congr fun call hcall => imp_congr_right fun _ => ?_
      rw [step, hcall]
      show (if ((s.breaker.failure_count + 1 : Nat) : Int) ≥ s.breaker.failure_threshold then .open
        else s.breaker.state) = BreakerState.open ↔ _
      rw [h.count]
      split
      · exact iff_of_true rfl (.inr ‹_›)
      · rw [or_iff_left ‹_›]

end Recording

def start (failure_threshold : Int) (recovery_timeout : Time) : System :=
  { breaker := { failure_threshold, recovery_timeout } }

theorem recorded_start (failure_threshold : Int) (recovery_timeout : Time) :
    Recorded (start failure_threshold recovery_timeout) := ⟨rfl, fun h => nomatch h⟩

/-- A run keeps the law of the breaker exactly when every failure of a call that was made half-open
finds the breaker open or, with the failures since the last success, comes up to the threshold. -/
theorem lawful_iff_enough_failures (failure_threshold : Int) (recovery_timeout : Time)
    (events : List Event) :
    StepsMeet step Lawful (start failure_threshold recovery_timeout) events ↔
      StepsMeet step Meets (start failure_threshold recovery_timeout) events :=
  stepsMeet_iff_of_invariant (fun _ e h => recorded_step h e) (fun _ e h => lawful_iff_meets h e)
    (recorded_start failure_threshold recovery_timeout)

/-- Three calls at once, of which two fail and then the third succeeds; after the timeout a call is
made half-open and fails. -/
def lateSuccess : List Event :=
  [.call 0, .call 0, .call 0, .result 0 .failure 1, .result 1 .failure 2, .result 2 .success 3,
    .call 20, .result 3 .failure 21]

/-- The success of a call from before the breaker opened keeps it from opening again. -/
theorem not_lawful_lateSuccess : ¬StepsMeet step Lawful (start 2 10) lateSuccess := by
  intro h
  have hlast := stepsMeet_iff_getElem?.mp h 7 (.result 3 .failure 21) rfl
  have hstate := hlast ⟨.half_open, true⟩ (by decide +kernel) rfl
  revert hstate
  decide +kernel

section Sequential

/-- A call is only made when no call is running. -/
def OneAtATime (s : System) : Event → Prop
  | .call _ => ∀ number, s.running? number = none
  | .result _ _ _ => True

/-- What calls that do not overlap keep. -/
structure Alone (s : System) : Prop where
  unique : ∀ i j, (s.running? i).isSome → (s.running? j).isSome → i = j
  made_in : ∀ i call, s.running? i = some call →
    call.made_in = s.breaker.state ∧ s.breaker.state ≠ .open
  threshold : s.breaker.state ≠ .closed → s.breaker.failure_threshold ≤ s.breaker.failure_count

variable {s : System}

theorem running?_append (s : System) (b : CircuitBreaker) (call : Call) (i : Nat) :
    ({ s with breaker := b, calls := s.calls ++ [call] } : System).running? i =
      if i = s.calls.length then some call |>.filter Call.running else s.running? i := by
  rw [System.running?, System.running?]
  rcases Nat.lt_trichotomy i s.calls.length with hlt | rfl | hgt
  · rw [if_neg hlt.ne, List.getElem?_append_left hlt]
  · rw [if_pos rfl, List.getElem?_append_right le_rfl, Nat.sub_self]
    rfl
  · rw [if_neg hgt.ne', List.getElem?_eq_none hgt.le,
      List.getElem?_eq_none (by rw [List.length_append]; exact hgt)]

/-- A call that has ended runs no longer, and the others go on. -/
theorem running?_set (s : System) (b : CircuitBreaker) (results : List (Outcome × Time))
    (call : Call) (number i : Nat) :
    ({ breaker := b, results, calls := s.calls.set number { call with running := false } } :
        System).running? i = if i = number then none else s.running? i := by
  rw [System.running?, System.running?]
  by_cases hi : i = number
  · subst i
    rw [if_pos rfl, List.getElem?_set_self']
    cases s.calls[number]? <;> rfl
  · rw [if_neg hi, List.getElem?_set_ne (Ne.symm hi)]

theorem alone_step (h : Alone s) {e : Event} (hone : OneAtATime s e) : Alone (step s e) := by
  rcases step_cases s e with hstep | ⟨now, call, rfl, hrunning, hcases⟩ |
    ⟨number, outcome, now, call, rfl, hcall, hstep⟩
  · rwa [hstep]
  · -- the new call is the only one
    have hnew (b : CircuitBreaker) (hb : call.made_in = b.state ∧ b.state ≠ .open)
        (hthreshold : b.state ≠ .closed → b.failure_threshold ≤ b.failure_count) :
        Alone { s with breaker := b, calls := s.calls ++ [call] } := by
      have honly (i : Nat) : ({ s with breaker := b, calls := s.calls ++ [call] } :
          System).running? i = if i = s.calls.length then some call else none := by
        rw [running?_append, hone i, Option.filter_some, hrunning]
        rfl
      refine ⟨fun i j hi hj => ?_, fun i call' hi => ?_, hthreshold⟩
      · rw [honly] at hi hj
        split at hi <;> split at hj <;> simp_all
      · rw [honly] at hi
        split at hi <;> simp_all
    rcases hcases with ⟨hopen, -, hmade, hstep⟩ | ⟨hopen, hmade, hstep⟩ <;> rw [hstep]
    · exact hnew _ ⟨hmade, nofun⟩ fun _ => h.threshold (by rw [hopen]; nofun)
    · exact hnew _ ⟨hmade, hopen⟩ h.threshold
  · -- the call that ends was the only one
    have hnone (i : Nat) : (step s (.result number outcome now)).running? i = none := by
      rw [hstep, running?_set]
      split
      · rfl
      · refine Option.not_isSome_iff_eq_none.mp fun hi => ‹¬i = number› ?_
        exact h.unique i number hi (by rw [hcall]; rfl)
    refine ⟨fun i j hi => by simp [hnone] at hi, fun i c hi => by simp [hnone] at hi, ?_⟩
    rw [hstep]
    cases outcome with
    | success =>
      show (if s.breaker.state = .half_open then .closed else s.breaker.state) ≠ _ →
        s.breaker.failure_threshold ≤ 0
      obtain ⟨-, hnot⟩ := h.made_in number call hcall
      intro hne
      cases hstate : s.breaker.state <;> simp_all
    | failure =>
      show (if ((s.breaker.failure_count + 1 : Nat) : Int) ≥ s.breaker.failure_threshold then
        .open else s.breaker.state) ≠ _ → s.breaker.failure_threshold ≤
          (s.breaker.failure_count + 1 : Nat)
      intro hne
      by_cases hreached : ((s.breaker.failure_count + 1 : Nat) : Int) ≥ s.breaker.failure_threshold
      · exact hreached
      · rw [if_neg hreached] at hne
        have hbefore := h.threshold hne
        push_cast
        omega
    | other => exact h.threshold

/-- Calls that do not overlap keep the law. -/
theorem lawful_of_oneAtATime {failure_threshold : Int} {recovery_timeout : Time}
    {events : List Event}
    (h : StepsMeet step OneAtATime (start failure_threshold recovery_timeout) events) :
    StepsMeet step Lawful (start failure_threshold recovery_timeout) events := by
  have hstep (s : System) (e : Event) (hs : Alone s ∧ Recorded s) (hone : OneAtATime s e) :
      Alone (step s e) ∧ Recorded (step s e) :=
    ⟨alone_step hs.1 hone, recorded_step hs.2 e⟩
  refine h.imp_of_invariant hstep (fun s e hs _ => ?_)
    ⟨⟨nofun, nofun, fun hne => absurd rfl hne⟩, recorded_start _ _⟩
  rw [lawful_iff_meets hs.2]
  cases e with
  | call now => trivial
  | result number outcome now =>
    cases outcome with
    | success => trivial
    | other => trivial
    | failure =>
      intro call hcall hmade
      have hstate := (hs.1.made_in number call hcall).1
      have hthreshold := hs.1.threshold (by rw [← hstate, hmade]; nofun)
      rw [hs.2.count] at hthreshold
      exact .inr (by push_cast; omega)

end Sequential

section Manager

def Event.isCall : Event → Bool
  | call _ => true
  | result _ _ _ => false

/-- A `peer_id`. -/
abbrev PeerId := List Char

structure PeerCircuitBreakerManager where
  failure_threshold : Int := 5
  recovery_timeout : Time := 60
  /-- `_breakers` -/
  breakers : Dict PeerId CircuitBreaker := Dict.empty

namespace PeerCircuitBreakerManager

variable (m : PeerCircuitBreakerManager)

/-- A breaker as the manager makes it. -/
def newBreaker : CircuitBreaker :=
  { failure_threshold := m.failure_threshold, recovery_timeout := m.recovery_timeout }

def getBreaker (peer_id : PeerId) : PeerCircuitBreakerManager × CircuitBreaker :=
  match m.breakers.get? peer_id with
  | some breaker => (m, breaker)
  | none => ({ m with breakers := m.breakers.set peer_id m.newBreaker }, m.newBreaker)

/-- `get_stats`; the `get_state` of a breaker has all its fields. -/
def getStats : Dict PeerId CircuitBreaker := m.breakers

end PeerCircuitBreakerManager

/-- The manager with the calls to each peer that have reached the function, and their results. -/
structure ManagedSystem where
  manager : PeerCircuitBreakerManager
  calls : PeerId → List Call := fun _ => []
  results : PeerId → List (Outcome × Time) := fun _ => []

namespace ManagedSystem

variable (s : ManagedSystem) (peer_id : PeerId)

/-- A peer's breaker with its calls. -/
def part : System where
  breaker := (s.manager.getBreaker peer_id).2
  calls := s.calls peer_id
  results := s.results peer_id

/-- A peer's breaker is an object: what changes it, changes it in the table. -/
def settle (next : System) : ManagedSystem where
  manager := { s.manager with breakers := s.manager.breakers.set peer_id next.breaker }
  calls := Function.update s.calls peer_id next.calls
  results := Function.update s.results peer_id next.results

/-- A call asks the manager for the breaker of its peer; a result goes to the breaker that its call
has gone through. -/
def step (s : ManagedSystem) : PeerId × Event → ManagedSystem
  | (peer_id, .call now) =>
    { s with manager := (s.manager.getBreaker peer_id).1 }.settle peer_id
      (Resilience.step (s.part peer_id) (.call now))
  | (peer_id, .result number outcome now) =>
    if ((s.part peer_id).running? number).isNone then s
    else s.settle peer_id (Resilience.step (s.part peer_id) (.result number outcome now))

def start (failure_threshold : Int) (recovery_timeout : Time) : ManagedSystem :=
  { manager := { failure_threshold, recovery_timeout } }

variable {s} {peer_id}

theorem getBreaker_eq (m : PeerCircuitBreakerManager) (peer_id : PeerId) :
    (m.getBreaker peer_id).2 = (m.breakers.get? peer_id).getD m.newBreaker := by
  unfold PeerCircuitBreakerManager.getBreaker
  cases m.breakers.get? peer_id <;> rfl

theorem part_breaker : (s.part peer_id).breaker =
    (s.manager.breakers.get? peer_id).getD s.manager.newBreaker := getBreaker_eq _ _

theorem getBreaker_getBreaker (m : PeerCircuitBreakerManager) (j peer_id : PeerId) :
    ((m.getBreaker peer_id).1.getBreaker j).2 = (m.getBreaker j).2 := by
  rw [getBreaker_eq, getBreaker_eq]
  unfold PeerCircuitBreakerManager.getBreaker
  cases hfound : m.breakers.get? peer_id with
  | some breaker => rfl
  | none =>
    show ((m.breakers.set peer_id m.newBreaker).get? j).getD m.newBreaker = _
    rw [Dict.get?_set]
    split
    · subst j
      rw [hfound]
      rfl
    · rfl

theorem part_settle_self (next : System) : (s.settle peer_id next).part peer_id = next := by
  simp [part, settle, getBreaker_eq]

theorem part_settle_ne {j : PeerId} (h : j ≠ peer_id) (next : System) :
    (s.settle peer_id next).part j = s.part j := by
  simp only [part, settle, getBreaker_eq, Dict.get?_set_ne _ h, Function.update_of_ne h]
  rfl

theorem independent : Transition.Independent step Resilience.step (fun j s => s.part j) where
  own s k e := by
    cases e with
    | call now => exact part_settle_self _
    | result number outcome now =>
      show (if ((s.part k).running? number).isNone then s else _ : ManagedSystem).part k = _
      split
      next hnone =>
        rw [Resilience.step, Option.isNone_iff_eq_none.mp hnone]
      next => exact part_settle_self _
  others s k j e h := by
    cases e with
    | call now =>
      refine (part_settle_ne h _).trans ?_
      show ({ s with manager := _ } : ManagedSystem).part j = s.part j
      simp only [part, getBreaker_getBreaker]
    | result number outcome now =>
      show (if ((s.part k).running? number).isNone then s else _ : ManagedSystem).part j = _
      split
      next => rfl
      next => exact part_settle_ne h _

def Known (s : ManagedSystem) (peer_id : PeerId) : Prop :=
  (s.manager.breakers.get? peer_id).isSome

/-- Calls have gone through breakers that the manager has made. -/
def Consistent (s : ManagedSystem) : Prop := ∀ peer_id, s.calls peer_id ≠ [] → s.Known peer_id

theorem known_settle {j : PeerId} (next : System) :
    (s.settle peer_id next).Known j ↔ j = peer_id ∨ s.Known j := by
  show ((s.manager.breakers.set peer_id next.breaker).get? j).isSome ↔ _
  rw [Dict.get?_set, Known]
  split
  next h => simp [h]
  next h => simp [h]

theorem known_of_running {number : Nat} (h : s.Consistent)
    (hrunning : ¬((s.part peer_id).running? number).isNone) : s.Known peer_id := by
  apply h
  rintro hcalls
  simp [part, System.running?, hcalls] at hrunning

theorem known_getBreaker {j : PeerId} :
    ({ s with manager := (s.manager.getBreaker peer_id).1 } : ManagedSystem).Known j ↔
      j = peer_id ∨ s.Known j := by
  unfold Known PeerCircuitBreakerManager.getBreaker
  cases hfound : s.manager.breakers.get? peer_id with
  | some breaker =>
    refine ⟨.inr, ?_⟩
    rintro (rfl | h)
    · rw [hfound]
      rfl
    · exact h
  | none =>
    show ((s.manager.breakers.set peer_id s.manager.newBreaker).get? j).isSome ↔ _
    rw [Dict.get?_set]
    split
    next h => simp [h]
    next h => simp [h]

theorem known_step (h : s.Consistent) (k j : PeerId) (e : Event) :
    (step s (k, e)).Known j ↔ s.Known j ∨ j = k ∧ ∃ now, e = .call now := by
  cases e with
  | call now =>
    refine (known_settle _).trans ?_
    rw [known_getBreaker]
    simp
    tauto
  | result number outcome now =>
    show (if ((s.part k).running? number).isNone then s else _ : ManagedSystem).Known j ↔ _
    split
    next => simp
    next hrunning =>
      rw [known_settle]
      have hknown := known_of_running h hrunning
      constructor
      · rintro (rfl | hj)
        · exact .inl hknown
        · exact .inl hj
      · rintro (hj | ⟨-, _, hcall⟩)
        · exact .inr hj
        · cases hcall

theorem consistent_step (h : s.Consistent) (e : PeerId × Event) : (step s e).Consistent := by
  intro j hj
  obtain ⟨k, e⟩ := e
  rw [known_step h]
  by_cases hjk : j = k
  · subst hjk
    cases e with
    | call now => exact .inr ⟨rfl, now, rfl⟩
    | result number outcome now =>
      by_cases hrunning : ((s.part j).running? number).isNone
      · rw [step, if_pos hrunning] at hj
        exact .inl (h j hj)
      · exact .inl (known_of_running h hrunning)
  · have hcalls : (step s (k, e)).calls j = s.calls j :=
      congrArg System.calls (independent.others s k j e hjk)
    rw [hcalls] at hj
    exact .inl (h j hj)

/-- The manager has breakers for the peers that were called. -/
theorem known_run (h : s.Consistent) (events : List (PeerId × Event)) (j : PeerId) :
    (run step s events).Known j ↔ s.Known j ∨ ∃ now, .call now ∈ share j events := by
  induction events generalizing s with
  | nil => simp [share]
  | cons e events ih =>
    obtain ⟨k, e⟩ := e
    rw [run_cons, ih (consistent_step h (k, e)), known_step h]
    by_cases hjk : j = k
    · subst hjk
      simp only [share_cons_self, List.mem_cons, true_and, exists_or, or_assoc, eq_comm]
    · simp only [share_cons_ne hjk, hjk, false_and, or_false]

/-- Behind any run of calls to any peers, however they overlap, a peer's breaker is there when the
peer was called, and is as if only that peer had been called; and the breakers keep their law in the
run exactly when, for each peer by itself, every failure of a call that was made half-open finds the
breaker open or comes up to the threshold. -/
theorem manager_isolates (failure_threshold : Int) (recovery_timeout : Time)
    (events : List (PeerId × Event)) :
    (∀ peer_id, (run step (start failure_threshold recovery_timeout) events).manager.getStats.get?
        peer_id =
      if (share peer_id events).any Event.isCall then
        some (run Resilience.step (Resilience.start failure_threshold recovery_timeout)
          (share peer_id events)).breaker
      else none) ∧
    (StepsMeet step (fun s e => Lawful (s.part e.1) e.2)
        (start failure_threshold recovery_timeout) events ↔
      ∀ peer_id, StepsMeet Resilience.step Meets
        (Resilience.start failure_threshold recovery_timeout) (share peer_id events)) := by
  have hstart (peer_id : PeerId) : (start failure_threshold recovery_timeout).part peer_id =
      Resilience.start failure_threshold recovery_timeout := rfl
  have hconsistent : (start failure_threshold recovery_timeout).Consistent :=
    fun _ h => absurd rfl h
  constructor
  · intro peer_id
    have hpart : (run step (start failure_threshold recovery_timeout) events).part peer_id =
        run Resilience.step ((start failure_threshold recovery_timeout).part peer_id)
          (share peer_id events) := independent.part_run peer_id
    have hbreaker := congrArg System.breaker hpart
    have hknown := known_run hconsistent events peer_id
    rw [part_breaker, hstart] at hbreaker
    rw [PeerCircuitBreakerManager.getStats]
    by_cases hcalled : ∃ now, .call now ∈ share peer_id events
    · have hany : (share peer_id events).any Event.isCall = true := by
        obtain ⟨now, hnow⟩ := hcalled
        exact List.any_eq_true.mpr ⟨_, hnow, rfl⟩
      obtain ⟨breaker, hfound⟩ := Option.isSome_iff_exists.mp (hknown.mpr (.inr hcalled))
      rw [hfound, Option.getD_some] at hbreaker
      rw [if_pos hany, hfound, hbreaker]
    · have hany : ¬(share peer_id events).any Event.isCall = true := by
        rintro h
        obtain ⟨e, he, hcall⟩ := List.any_eq_true.mp h
        cases e with
        | call now => exact hcalled ⟨now, he⟩
        | result _ _ _ => cases hcall
      rw [if_neg hany, ← Option.not_isSome_iff_eq_none]
      rintro hsome
      rcases hknown.mp hsome with hbefore | h
      · cases hbefore
      · exact hcalled h
  · rw [independent.stepsMeet_iff]
    simp only [hstart]
    refine forall_congr' fun peer_id => ?_
    exact stepsMeet_iff_of_invariant (fun _ e h => recorded_step h e)
      (fun _ e h => lawful_iff_meets h e) (recorded_start failure_threshold recovery_timeout)

end ManagedSystem

end Manager

section RateLimiter

structure RateLimiter where
  max_requests : Int
  time_window : Time
  requests : List Time := []

/-- `acquire`, which holds the lock from beginning to end. -/
def RateLimiter.acquire (r : RateLimiter) (now : Time) : RateLimiter × Bool :=
  let requests := r.requests.filter fun req_time => now - req_time < r.time_window
  if requests.length < r.max_requests then ({ r with requests := requests ++ [now] }, true)
  else ({ r with requests }, false)

/-- The limiter with the times of all requests that it has allowed. -/
structure Limited where
  limiter : RateLimiter
  allowed : List Time := []

namespace Limited

/-- What `acquire` and each round of `wait_for_permission` do. -/
def step (s : Limited) (now : Time) : Limited where
  limiter := (s.limiter.acquire now).1
  allowed := if (s.limiter.acquire now).2 then s.allowed ++ [now] else s.allowed

def start (max_requests : Int) (time_window : Time) : Limited :=
  { limiter := { max_requests, time_window } }

variable (s : Limited)

/-- How many requests have been allowed in the window that ends with `now`. -/
def recent (now : Time) : Nat := s.allowed.countP fun t => now - t < s.limiter.time_window

/-- No window anywhere has more requests than the limit. -/
def WindowsKept : Prop := ∀ first,
  (s.allowed.countP (fun t => first ≤ t ∧ t < first + s.limiter.time_window) : Int) ≤
    max s.limiter.max_requests 0

/-- A request is allowed exactly when the window that ends with it has room. -/
def Exact (now : Time) : Prop :=
  (s.limiter.acquire now).2 = true ↔ (s.recent now : Int) < s.limiter.max_requests

/-- What the limiter remembers at a time is what it has allowed in any window that ends later. -/
structure Remembers (clock : Time) (s : Limited) : Prop where
  past : ∀ t ∈ s.allowed, t ≤ clock
  recalled : ∀ now, clock ≤ now →
    s.limiter.requests.countP (fun t => now - t < s.limiter.time_window) = s.recent now
  windows : s.WindowsKept

variable {s} {clock now : Time}

/-- `acquire`, by whether the window has room. -/
theorem acquire_cases (r : RateLimiter) (now : Time) :
    let requests := r.requests.filter fun t => now - t < r.time_window
    ((r.requests.countP (fun t => now - t < r.time_window) : Int) < r.max_requests ∧
      r.acquire now = ({ r with requests := requests ++ [now] }, true)) ∨
    (¬(r.requests.countP (fun t => now - t < r.time_window) : Int) < r.max_requests ∧
      r.acquire now = ({ r with requests }, false)) := by
  rw [List.countP_eq_length_filter]
  by_cases hroom : ((r.requests.filter fun t => now - t < r.time_window).length : Int) < r.max_requests
  · exact .inl ⟨hroom, if_pos hroom⟩
  · exact .inr ⟨hroom, if_neg hroom⟩

theorem acquire_allowed (r : RateLimiter) (now : Time) : (r.acquire now).2 = true ↔
    (r.requests.countP (fun t => now - t < r.time_window) : Int) < r.max_requests := by
  rcases acquire_cases r now with ⟨hroom, h⟩ | ⟨hroom, h⟩
  · rw [h]
    exact iff_of_true rfl hroom
  · rw [h]
    exact iff_of_false Bool.false_ne_true hroom

theorem Remembers.exact (h : Remembers clock s) (hclock : clock ≤ now) : s.Exact now := by
  rw [Exact, acquire_allowed, h.recalled now hclock]

theorem acquire_limits (r : RateLimiter) (now : Time) :
    (r.acquire now).1.time_window = r.time_window ∧
      (r.acquire now).1.max_requests = r.max_requests := by
  rcases acquire_cases r now with ⟨-, h⟩ | ⟨-, h⟩ <;> rw [h] <;> exact ⟨rfl, rfl⟩

/-- What is forgotten now is in no later window either. -/
theorem countP_acquire (r : RateLimiter) {later : Time} (hlater : now ≤ later) :
    (r.acquire now).1.requests.countP (fun t => later - t < r.time_window) =
      r.requests.countP (fun t => later - t < r.time_window) +
        if (r.acquire now).2 = true ∧ later - now < r.time_window then 1 else 0 := by
  have hforgotten : (r.requests.filter fun t => now - t < r.time_window).countP
      (fun t => later - t < r.time_window) =
        r.requests.countP (fun t => later - t < r.time_window) := by
    rw [List.countP_filter]
    apply List.countP_congr
    intro t _
    simp only [Bool.and_eq_true, decide_eq_true_eq, and_iff_left_iff_imp]
    intro h
    linarith
  rcases acquire_cases r now with ⟨-, h⟩ | ⟨-, h⟩
  · rw [h]
    show ((r.requests.filter _) ++ [now]).countP _ = _
    rw [List.countP_append, hforgotten]
    simp [List.countP_cons]
  · rw [h]
    show (r.requests.filter _).countP _ = _
    simp [hforgotten]

theorem remembers_step (h : Remembers clock s) (hclock : clock ≤ now) :
    Remembers now (s.step now) where
  past t ht := by
    have hpast (t) (ht : t ∈ s.allowed) : t ≤ now := (h.past t ht).trans hclock
    unfold Limited.step at ht
    dsimp only at ht
    split at ht
    · rcases List.mem_append.mp ht with ht | ht
      · exact hpast t ht
      · exact (List.mem_singleton.mp ht).le
    · exact hpast t ht
  recalled later hlater := by
    simp only [recent, Limited.step, (acquire_limits s.limiter now).1]
    rw [countP_acquire s.limiter hlater, h.recalled later (hclock.trans hlater), recent]
    by_cases hallowed : (s.limiter.acquire now).2 = true
    · simp [hallowed, List.countP_append]
    · simp [hallowed]
  windows := by
    intro first
    obtain ⟨hwindow, hmax⟩ := acquire_limits s.limiter now
    have hbefore := h.windows first
    simp only [Limited.step, hwindow, hmax]
    split
    next hallowed =>
      rw [List.countP_append, List.countP_singleton]
      by_cases hin : first ≤ now ∧ now < first + s.limiter.time_window
      · -- what the window has besides is in the window that ends now
        have hroom := (h.exact hclock).mp hallowed
        have hle : s.allowed.countP (fun t => first ≤ t ∧ t < first + s.limiter.time_window) ≤
            s.recent now := by
          apply List.countP_mono_left
          intro t _ ht
          simp only [decide_eq_true_eq] at ht ⊢
          linarith [hin.2, ht.1]
        rw [if_pos (by simpa using hin)]
        push_cast
        omega
      · rw [if_neg (by simpa using hin)]
        exact hbefore
    next => exact hbefore

theorem remembers_start (max_requests : Int) (time_window clock : Time) :
    Remembers clock (start max_requests time_window) where
  past _ h := absurd h List.not_mem_nil
  recalled _ _ := rfl
  windows _ := le_max_right _ _

/-- With a clock that does not go back, in every state of a run no window of the length of
`time_window`, wherever it begins, has more than `max_requests` allowed requests, and a request is
refused only for that reason. -/
theorem sliding_windows (max_requests : Int) (time_window : Time) (times : List Time)
    (horder : times.Pairwise (· ≤ ·)) :
    Always step WindowsKept (start max_requests time_window) times ∧
      StepsMeet step Exact (start max_requests time_window) times := by
  have hstep (clock : Time) (s : Limited) (now : Time) (h : Remembers clock s) (hclock : clock ≤ now) :
      Remembers now (s.step now) := remembers_step h hclock
  obtain ⟨halways, hexact⟩ := clocked_from_start hstep (fun _ _ _ h hclock => h.exact hclock)
    (remembers_start max_requests time_window) horder
  exact ⟨halways.mono fun s ⟨clock, h⟩ => h.windows, hexact⟩

theorem sliding_windows_of_four : [(0 : Time), 4, 9, 10].Pairwise (· ≤ ·) ∧
    (run step (start 2 10) [0, 4, 9, 10]).allowed = [0, 4, 10] ∧
    Always step WindowsKept (start 2 10) [0, 4, 9, 10] ∧
      StepsMeet step Exact (start 2 10) [0, 4, 9, 10] :=
  ⟨by decide, by decide +kernel, sliding_windows 2 10 [0, 4, 9, 10] (by decide)⟩

end Limited

end RateLimiter

end Ccbt.Resilience
