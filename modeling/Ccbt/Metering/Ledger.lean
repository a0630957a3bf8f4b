import Mathlib.Algebra.Order.Field.Basic
import Mathlib.Algebra.Order.Group.Defs
import Mathlib.Tactic.Linarith
import Mathlib.Tactic.Ring

/-!
# Ledgers of amounts at times

A ledger holds the amounts that were let through and their times, the latest first. A counter that
starts again after a pause bounds what a ledger has in any window, though it may count more than
the window holds; a bucket that is refilled at a rate bounds what it has in any interval.
-/

namespace Metering

structure Entry (τ : Type*) where
  time : τ
  amount : ℕ

abbrev Ledger (τ : Type*) := List (Entry τ)

namespace Ledger

variable {τ : Type*}

section Order

variable [LinearOrder τ]

/-- The entries are in order, the last of them before a time. -/
def Until : τ → Ledger τ → Prop
  | _, [] => True
  | now, e :: L => e.time ≤ now ∧ Until e.time L

/-- What a ledger has from `a` to `b`, both included. -/
def between (a b : τ) : Ledger τ → ℕ
  | [] => 0
  | e :: L => (if a ≤ e.time ∧ e.time ≤ b then e.amount else 0) + between a b L

/-- What a ledger has from a time on. -/
def since (a : τ) : Ledger τ → ℕ
  | [] => 0
  | e :: L => (if a ≤ e.time then e.amount else 0) + since a L

variable {a b now later : τ} {L : Ledger τ}

theorem Until.mono (h : Until now L) (hlater : now ≤ later) : Until later L := by
  cases L with
  | nil => trivial
  | cons e L => exact ⟨h.1.trans hlater, h.2⟩

theorem Until.at_head {e : Entry τ} (h : Until now (e :: L)) : Until e.time (e :: L) := ⟨le_rfl, h.2⟩

theorem between_eq_zero_of_lt (h : Until now L) (ha : now < a) (b : τ) : between a b L = 0 := by
  induction L generalizing now with
  | nil => rfl
  | cons e L ih =>
    have hold := h.1.trans_lt ha
    rw [between, if_neg fun hin => hold.not_ge hin.1, ih h.2 hold]

theorem since_eq_zero_of_lt (h : Until now L) (ha : now < a) : since a L = 0 := by
  induction L generalizing now with
  | nil => rfl
  | cons e L ih =>
    have hold := h.1.trans_lt ha
    rw [since, if_neg hold.not_ge, ih h.2 hold]

theorem between_eq_since (h : Until now L) (hb : now ≤ b) : between a b L = since a L := by
  induction L generalizing now with
  | nil => rfl
  | cons e L ih =>
    have hin := h.1.trans hb
    rw [between, since, ih h.2 hin]
    simp only [hin, and_true]

end Order

section Bursts

variable [AddCommGroup τ] [LinearOrder τ] [IsOrderedAddMonoid τ]

/-- What a ledger has since the last pause that was longer than a window. -/
def burst (window : τ) : Ledger τ → τ → ℕ
  | [], _ => 0
  | e :: L, now => if window < now - e.time then 0 else e.amount + burst window L e.time

/-- Each entry was made within a cap on its burst. -/
def Capped (cap : ℤ) (window : τ) : Ledger τ → Prop
  | [] => True
  | e :: L => (e.amount + burst window L e.time : ℤ) ≤ cap ∧ Capped cap window L

variable {a b now window : τ} {cap : ℤ} {L : Ledger τ}

/-- A window goes back no further than the burst at its end. -/
theorem between_le_burst (h : Until now L) (ha : now - a ≤ window) (b : τ) :
    between a b L ≤ burst window L now := by
  induction L generalizing now with
  | nil => exact Nat.le_refl 0
  | cons e L ih =>
    rw [burst]
    split_ifs with hpause
    · -- All entries are behind the pause, and the window is not.
      have hold : e.time < a := by
        by_contra hnot
        exact (ha.trans_lt hpause).not_ge (sub_le_sub_left (le_of_not_gt hnot) now)
      exact (between_eq_zero_of_lt h.at_head hold b).le
    · have hrest := ih h.2 ((sub_le_sub_right h.1 a).trans ha)
      rw [between]
      split_ifs
      · exact Nat.add_le_add_left hrest _
      · exact (Nat.zero_add _).trans_le (hrest.trans (Nat.le_add_left _ _))

/-- A cap on each burst is a cap on each window. -/
theorem between_le_of_capped (h : Capped cap window L) (hL : Until now L) (hcap : 0 ≤ cap)
    (hb : b - a ≤ window) : (between a b L : ℤ) ≤ cap := by
  induction L generalizing now with
  | nil => exact hcap
  | cons e L ih =>
    rw [between]
    split_ifs with hin
    · have hwindow := between_le_burst hL.2 ((sub_le_sub_right hin.2 a).trans hb) b
      have hburst := h.1
      push_cast
      omega
    · rw [Nat.zero_add]
      exact ih h.2 hL.2

end Bursts

section Buckets

variable {K : Type*} [Field K] [LinearOrder K] [IsStrictOrderedRing K]

/-- From any time to any later entry a ledger has no more than a bucket that is full at first and
refilled at a rate gives. -/
def Metered (cap rate : K) : Ledger K → Prop
  | [] => True
  | e :: L => (∀ a ≤ e.time, (e.amount + since a L : K) ≤ cap + (e.time - a) * rate) ∧
      Metered cap rate L

variable {a b now last cap rate level : K} {L : Ledger K}

theorem between_le_of_metered (h : Metered cap rate L) (hL : Until now L) (hcap : 0 ≤ cap)
    (hrate : 0 ≤ rate) (hab : a ≤ b) : (between a b L : K) ≤ cap + (b - a) * rate := by
  have hempty : 0 ≤ cap + (b - a) * rate :=
    add_nonneg hcap (mul_nonneg (sub_nonneg_of_le hab) hrate)
  induction L generalizing now with
  | nil =>
    rw [between, Nat.cast_zero]
    exact hempty
  | cons e L ih =>
    by_cases hb : e.time ≤ b
    · rw [between_eq_since hL.at_head hb, since]
      split_ifs with ha
      · calc ((e.amount + since a L : ℕ) : K)
          _ = e.amount + since a L := Nat.cast_add _ _
          _ ≤ cap + (e.time - a) * rate := h.1 a ha
          _ ≤ cap + (b - a) * rate :=
            add_le_add_right (mul_le_mul_of_nonneg_right (sub_le_sub_right hb a) hrate) cap
      · rw [since_eq_zero_of_lt hL.2 (lt_of_not_ge ha), Nat.add_zero, Nat.cast_zero]
        exact hempty
    · rw [between, if_neg fun hin => hb hin.2, Nat.zero_add]
      exact ih h.2 hL.2

/-- The level of a bucket after the last entry covers what the ledger has left to have. -/
structure Bucket (cap rate level last : K) (L : Ledger K) : Prop where
  until_last : Until last L
  covered : ∀ a ≤ last, (since a L : K) + level ≤ cap + (last - a) * rate
  metered : Metered cap rate L

theorem bucket_full (hrate : 0 ≤ rate) (cap last : K) :
    Bucket cap rate cap last [] where
  until_last := trivial
  covered a ha := by
    have hrefill := mul_nonneg (sub_nonneg_of_le ha) hrate
    rw [since, Nat.cast_zero]
    linarith
  metered := trivial

/-- An entry takes its amount from the refilled bucket. -/
theorem Bucket.cons (h : Bucket cap rate level last L) (hrate : 0 ≤ rate) (hlast : last ≤ now)
    {n : ℕ} (hn : (n : K) ≤ min cap (level + (now - last) * rate)) :
    Bucket cap rate (min cap (level + (now - last) * rate) - n) now (⟨now, n⟩ :: L) := by
  have hcovered : ∀ a ≤ now, (since a L : K) + min cap (level + (now - last) * rate) ≤
      cap + (now - a) * rate := by
    intro a ha
    by_cases hold : a ≤ last
    · have hmin := min_le_right cap (level + (now - last) * rate)
      calc (since a L : K) + min cap (level + (now - last) * rate)
        _ ≤ since a L + (level + (now - last) * rate) := by linarith
        _ ≤ cap + (last - a) * rate + (now - last) * rate := by linarith [h.covered a hold]
        _ = cap + (now - a) * rate := by ring
    · have hmin := min_le_left cap (level + (now - last) * rate)
      have hrefill := mul_nonneg (sub_nonneg_of_le ha) hrate
      rw [since_eq_zero_of_lt h.until_last (lt_of_not_ge hold), Nat.cast_zero]
      linarith
  refine ⟨⟨le_rfl, h.until_last.mono hlast⟩, fun a ha => ?_, fun a ha => ?_, h.metered⟩
  · rw [since, if_pos ha, Nat.cast_add]
    linarith [hcovered a ha]
  · linarith [hcovered a ha]

end Buckets

end Ledger

end Metering
