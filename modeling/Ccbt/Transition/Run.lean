import Mathlib.Data.List.Basic
import Mathlib.Order.Defs.PartialOrder

/-!
# Runs of a deterministic system

`step` takes a state and an event to the next state; a run is a list of events. The
rules below carry a property from single steps to all states of a run: without a
condition, under a condition on the steps, and under the hypothesis that another
property is never lost. An invariant may go along with a clock. Parties that do not touch each
other's part of the state may be looked at one by one.
-/

namespace Transition

variable {σ ε : Type*} (step : σ → ε → σ)

def run (s : σ) (es : List ε) : σ := es.foldl step s

/-- The property holds in every state of the run, the first and the last included. -/
def Always (P : σ → Prop) : σ → List ε → Prop
  | s, [] => P s
  | s, e :: es => P s ∧ Always P (step s e) es

/-- Every step of the run meets a condition on the state before it and its event. -/
def StepsMeet (C : σ → ε → Prop) : σ → List ε → Prop
  | _, [] => True
  | s, e :: es => C s e ∧ StepsMeet C (step s e) es

instance StepsMeet.decidable (C : σ → ε → Prop) [∀ s e, Decidable (C s e)] :
    (s : σ) → (es : List ε) → Decidable (StepsMeet step C s es)
  | _, [] => .isTrue trivial
  | s, e :: es =>
    have := StepsMeet.decidable C (step s e) es
    inferInstanceAs (Decidable (C s e ∧ StepsMeet step C (step s e) es))

variable {step} {P Inv : σ → Prop} {C : σ → ε → Prop} {s : σ} {es : List ε}

@[simp] theorem run_nil (s : σ) : run step s [] = s := rfl

@[simp] theorem run_cons (s : σ) (e : ε) (es : List ε) :
    run step s (e :: es) = run step (step s e) es := rfl

theorem run_append (s : σ) (es es' : List ε) :
    run step s (es ++ es') = run step (run step s es) es' := List.foldl_append

theorem stepsMeet_congr {D : σ → ε → Prop} (h : ∀ s e, C s e ↔ D s e) :
    StepsMeet step C s es ↔ StepsMeet step D s es := by
  have hCD : C = D := by
    funext s e
    exact propext (h s e)
  rw [hCD]

/-- A condition on the events alone does not depend on where the run starts. -/
theorem stepsMeet_event {C : ε → Prop} :
    StepsMeet step (fun _ e => C e) s es ↔ ∀ e ∈ es, C e := by
  induction es generalizing s with
  | nil => simp [StepsMeet]
  | cons e es ih => rw [StepsMeet, ih, List.forall_mem_cons]

theorem Always.head (h : Always step P s es) : P s := by
  cases es with
  | nil => exact h
  | cons e es => exact h.1

theorem always_iff_take : Always step P s es ↔ ∀ n, P (run step s (es.take n)) := by
  induction es generalizing s with
  | nil => simp [Always]
  | cons e es ih =>
    rw [Always, ih]
    constructor
    · rintro ⟨h0, h⟩ n
      cases n with
      | zero => exact h0
      | succ n => exact h n
    · intro h
      exact ⟨h 0, fun n => h (n + 1)⟩

theorem Always.last (h : Always step P s es) : P (run step s es) := by
  induction es generalizing s with
  | nil => exact h
  | cons e es ih => exact ih h.2

/-- An invariant of the steps that meet a condition holds in every state of a run of such
steps. -/
theorem always_of_stepsMeet (hstep : ∀ s e, Inv s → C s e → Inv (step s e)) (h0 : Inv s)
    (hes : StepsMeet step C s es) : Always step Inv s es := by
  induction es generalizing s with
  | nil => exact h0
  | cons e es ih => exact ⟨h0, ih (hstep s e h0 hes.1) hes.2⟩

theorem always_of_invariant (hstep : ∀ s e, Inv s → Inv (step s e)) (h0 : Inv s)
    (es : List ε) : Always step Inv s es := by
  induction es generalizing s with
  | nil => exact h0
  | cons e es ih => exact ⟨h0, ih (hstep s e h0)⟩

/-- An invariant of the steps holds behind every run. -/
theorem run_of_invariant (hstep : ∀ s e, Inv s → Inv (step s e)) (h0 : Inv s) (es : List ε) :
    Inv (run step s es) := by
  induction es generalizing s with
  | nil => exact h0
  | cons e es ih => exact ih (hstep s e h0)

/-- A condition that an invariant implies is met by every step. -/
theorem stepsMeet_of_invariant (hstep : ∀ s e, Inv s → Inv (step s e))
    (hC : ∀ s e, Inv s → C s e) (h0 : Inv s) (es : List ε) : StepsMeet step C s es := by
  induction es generalizing s with
  | nil => trivial
  | cons e es ih => exact ⟨hC s e h0, ih (hstep s e h0)⟩

/-- Under an invariant two conditions that agree are met by the same runs. -/
theorem stepsMeet_iff_of_invariant {D : σ → ε → Prop}
    (hstep : ∀ s e, Inv s → Inv (step s e)) (h : ∀ s e, Inv s → (C s e ↔ D s e)) (h0 : Inv s) :
    StepsMeet step C s es ↔ StepsMeet step D s es := by
  induction es generalizing s with
  | nil => exact Iff.rfl
  | cons e es ih => exact and_congr (h s e h0) (ih (hstep s e h0))

/-- Steps that meet a condition meet what follows from it under an invariant that such steps
keep. -/
theorem StepsMeet.imp_of_invariant {D : σ → ε → Prop} (h : StepsMeet step C s es)
    (hstep : ∀ s e, Inv s → C s e → Inv (step s e)) (hD : ∀ s e, Inv s → C s e → D s e)
    (h0 : Inv s) : StepsMeet step D s es := by
  induction es generalizing s with
  | nil => trivial
  | cons e es ih => exact ⟨hD s e h0 h.1, ih h.2 (hstep s e h0 h.1)⟩

theorem StepsMeet.imp {D : σ → ε → Prop} (h : StepsMeet step C s es)
    (hCD : ∀ s e, C s e → D s e) : StepsMeet step D s es := by
  induction es generalizing s with
  | nil => trivial
  | cons e es ih => exact ⟨hCD s e h.1, ih h.2⟩

theorem run_take_succ {n : ℕ} {e : ε} (h : es[n]? = some e) :
    run step s (es.take (n + 1)) = step (run step s (es.take n)) e := by
  rw [List.take_add_one, h, run_append]
  rfl

theorem stepsMeet_iff_getElem? : StepsMeet step C s es ↔
    ∀ n e, es[n]? = some e → C (run step s (es.take n)) e := by
  induction es generalizing s with
  | nil => simp [StepsMeet]
  | cons e es ih =>
    rw [StepsMeet, ih]
    constructor
    · rintro ⟨h0, h⟩ n e' he'
      cases n with
      | zero => exact Option.some.inj he' ▸ h0
      | succ n => exact h n e' he'
    · intro h
      exact ⟨h 0 e rfl, fun n e' he' => h (n + 1) e' he'⟩

section Projection

variable {τ : Type*} {step' : τ → ε → τ} {f : σ → τ}

/-- A part of the state that goes its own way. -/
theorem map_run (hf : ∀ s e, f (step s e) = step' (f s) e) :
    f (run step s es) = run step' (f s) es := by
  induction es generalizing s with
  | nil => rfl
  | cons e es ih => rw [run_cons, run_cons, ih, hf]

theorem stepsMeet_map {C : τ → ε → Prop} (hf : ∀ s e, f (step s e) = step' (f s) e) :
    StepsMeet step (fun s e => C (f s) e) s es ↔ StepsMeet step' C (f s) es := by
  induction es generalizing s with
  | nil => exact Iff.rfl
  | cons e es ih => rw [StepsMeet, StepsMeet, ih, hf]

end Projection

section Clock

variable {τ : Type*} [Preorder τ] {Inv : τ → σ → Prop} {time : ε → τ} {clock : τ}

/-- An invariant that goes along with a clock, in a run whose events come in the order of their
times. -/
theorem clocked (hstep : ∀ clock s e, Inv clock s → clock ≤ time e → Inv (time e) (step s e))
    (hC : ∀ clock s e, Inv clock s → clock ≤ time e → C s e) (h0 : Inv clock s)
    (hfrom : ∀ e ∈ es, clock ≤ time e) (horder : es.Pairwise fun e e' => time e ≤ time e') :
    Always step (fun s => ∃ clock, Inv clock s) s es ∧ StepsMeet step C s es := by
  induction es generalizing s clock with
  | nil => exact ⟨⟨clock, h0⟩, trivial⟩
  | cons e es ih =>
    have hclock := hfrom e List.mem_cons_self
    obtain ⟨hlater, hrest⟩ := List.pairwise_cons.mp horder
    obtain ⟨halways, hmeet⟩ := ih (hstep clock s e h0 hclock) hlater hrest
    exact ⟨⟨⟨clock, h0⟩, halways⟩, hC clock s e h0 hclock, hmeet⟩

/-- A start that fits any clock. -/
theorem clocked_from_start [Nonempty τ]
    (hstep : ∀ clock s e, Inv clock s → clock ≤ time e → Inv (time e) (step s e))
    (hC : ∀ clock s e, Inv clock s → clock ≤ time e → C s e) (h0 : ∀ clock, Inv clock s)
    (horder : es.Pairwise fun e e' => time e ≤ time e') :
    Always step (fun s => ∃ clock, Inv clock s) s es ∧ StepsMeet step C s es := by
  cases es with
  | nil =>
    obtain ⟨clock⟩ := ‹Nonempty τ›
    exact clocked hstep hC (h0 clock) (List.forall_mem_nil _) horder
  | cons e es =>
    refine clocked hstep hC (h0 (time e)) (fun e' he' => ?_) horder
    rcases List.mem_cons.mp he' with rfl | he'
    · exact le_rfl
    · exact (List.pairwise_cons.mp horder).1 e' he'

end Clock

section Interleaving

variable {κ τ ι : Type*} [DecidableEq κ] {step : σ → κ × ι → σ} {step' : τ → ι → τ}
  {part : κ → σ → τ} {es : List (κ × ι)}

/-- What one party does in a run of many. -/
def share (k : κ) (es : List (κ × ι)) : List ι := (es.filter fun e => e.1 = k).map Prod.snd

theorem share_cons_self (k : κ) (e : ι) (es : List (κ × ι)) :
    share k ((k, e) :: es) = e :: share k es := by
  simp [share]

theorem share_cons_ne {k j : κ} (h : j ≠ k) (e : ι) (es : List (κ × ι)) :
    share j ((k, e) :: es) = share j es := by
  simp [share, h.symm]

variable (step step' part) in
/-- Every party has a part of the state, which goes its own way whatever the others do. -/
structure Independent : Prop where
  own : ∀ s k e, part k (step s (k, e)) = step' (part k s) e
  others : ∀ s k j e, j ≠ k → part j (step s (k, e)) = part j s

theorem Independent.part_run (h : Independent step step' part) (k : κ) :
    part k (run step s es) = run step' (part k s) (share k es) := by
  induction es generalizing s with
  | nil => rfl
  | cons e es ih =>
    obtain ⟨j, e⟩ := e
    by_cases hj : k = j
    · subst hj
      rw [run_cons, ih, h.own, share_cons_self, run_cons]
    · rw [run_cons, ih, h.others s j k e hj, share_cons_ne hj]

/-- Every step of the run meets a condition on the part of its party just when the steps of every
party, taken by themselves, meet it. -/
theorem Independent.stepsMeet_iff (h : Independent step step' part) {C : τ → ι → Prop} :
    StepsMeet step (fun s e => C (part e.1 s) e.2) s es ↔
      ∀ k, StepsMeet step' C (part k s) (share k es) := by
  induction es generalizing s with
  | nil => exact iff_of_true trivial fun _ => trivial
  | cons e es ih =>
    obtain ⟨j, e⟩ := e
    rw [StepsMeet, ih]
    constructor
    · rintro ⟨hfirst, hrest⟩ k
      by_cases hk : k = j
      · subst hk
        rw [share_cons_self]
        exact ⟨hfirst, h.own s k e ▸ hrest k⟩
      · rw [share_cons_ne hk, ← h.others s j k e hk]
        exact hrest k
    · intro hall
      have hown := hall j
      rw [share_cons_self] at hown
      refine ⟨hown.1, fun k => ?_⟩
      by_cases hk : k = j
      · subst hk
        rw [h.own]
        exact hown.2
      · rw [h.others s j k e hk, ← share_cons_ne hk e]
        exact hall k

end Interleaving

/-- A run may be cut in two. -/
theorem stepsMeet_drop (h : StepsMeet step C s es) (n : ℕ) :
    StepsMeet step C (run step s (es.take n)) (es.drop n) := by
  induction es generalizing s n with
  | nil =>
    rw [List.drop_nil]
    trivial
  | cons e es ih =>
    cases n with
    | zero => exact h
    | succ n => exact ih h.2 n

/-- When an invariant implies a property and is kept by the steps that meet a condition, and
only these keep the property, the condition decides which runs keep the property. -/
theorem always_iff_stepsMeet_of (hP : ∀ s, Inv s → P s)
    (hC : ∀ s e, Inv s → P (step s e) → C s e)
    (hstep : ∀ s e, Inv s → C s e → Inv (step s e)) (h0 : Inv s) :
    Always step P s es ↔ StepsMeet step C s es := by
  induction es generalizing s with
  | nil => exact iff_of_true (hP s h0) trivial
  | cons e es ih =>
    constructor
    · rintro ⟨-, h⟩
      have hmeets : C s e := hC s e h0 h.head
      exact ⟨hmeets, (ih (hstep s e h0 hmeets)).mp h⟩
    · rintro ⟨hmeets, hes⟩
      exact ⟨hP s h0, (ih (hstep s e h0 hmeets)).mpr hes⟩

/-- When a condition decides whether a step keeps the property, it decides whether a run does. -/
theorem always_iff_stepsMeet (hstep : ∀ s e, P s → (P (step s e) ↔ C s e)) (h0 : P s) :
    Always step P s es ↔ StepsMeet step C s es :=
  always_iff_stepsMeet_of (fun _ => id) (fun s e h => (hstep s e h).mp)
    (fun s e h => (hstep s e h).mpr) h0

theorem Always.mono (h : Always step Inv s es) (hP : ∀ s, Inv s → P s) : Always step P s es := by
  induction es generalizing s with
  | nil => exact hP s h
  | cons e es ih => exact ⟨hP s h.1, ih h.2⟩

/-- What every step keeps, as long as a property holds behind it, is true at the end of a run
that never loses the property. -/
theorem invariant_of_always (hstep : ∀ s e, Inv s → P (step s e) → Inv (step s e)) (h0 : Inv s)
    (h : Always step P s es) : Inv (run step s es) := by
  induction es generalizing s with
  | nil => exact h0
  | cons e es ih => exact ih (hstep s e h0 h.2.head) h.2

/-- A run stays on the good side as long as its steps meet the condition, and the first step that
does not takes it to the bad side for good. -/
theorem run_good_or_bad {Good Bad : σ → Prop} (hgood : ∀ s e, Good s → C s e → Good (step s e))
    (hlost : ∀ s e, Good s → ¬C s e → Bad (step s e)) (hbad : ∀ s e, Bad s → Bad (step s e))
    (h0 : Good s) : (StepsMeet step C s es ∧ Good (run step s es)) ∨
      (¬StepsMeet step C s es ∧ Bad (run step s es)) := by
  induction es generalizing s with
  | nil => exact .inl ⟨trivial, h0⟩
  | cons e es ih =>
    by_cases hC : C s e
    · rcases ih (hgood s e h0 hC) with ⟨hmeet, hend⟩ | ⟨hmeet, hend⟩
      · exact .inl ⟨⟨hC, hmeet⟩, hend⟩
      · exact .inr ⟨fun h => hmeet h.2, hend⟩
    · refine .inr ⟨fun h => hC h.1, ?_⟩
      have hstay : Always step Bad (step s e) es := always_of_invariant hbad (hlost s e h0 hC) es
      exact hstay.last

end Transition
