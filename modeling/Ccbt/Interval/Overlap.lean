import Mathlib.Algebra.Order.BigOperators.Group.List
import Mathlib.Algebra.Ring.Int.Defs
import Mathlib.Data.List.Basic

/-!
# Overlaps of half-open intervals

How much two intervals share, and what that adds up to when one of them is cut into
consecutive parts or when it is met by intervals that are disjoint.
-/

namespace Interval

variable {a b c d e : ℤ}

/-- The length of what the intervals from `a` to `b` and from `c` to `d` share. -/
def overlap (a b c d : ℤ) : ℤ := max 0 (min b d - max a c)

theorem overlap_nonneg : 0 ≤ overlap a b c d := le_max_left _ _

theorem overlap_of_lt (h : max a c < min b d) : overlap a b c d = min b d - max a c := by
  unfold overlap
  omega

theorem overlap_of_le (h : min b d ≤ max a c) : overlap a b c d = 0 := by
  unfold overlap
  omega

/-- Cutting an interval in two cuts its overlaps. -/
theorem overlap_cut (hc : c ≤ d) (hd : d ≤ e) :
    overlap a b c d + overlap a b d e = overlap a b c e := by
  unfold overlap
  omega

theorem overlap_inside (ha : c ≤ a) (hab : a ≤ b) (hb : b ≤ d) : overlap a b c d = b - a := by
  unfold overlap
  omega

theorem overlap_mono (h : c ≤ a) (h' : b ≤ d) (s t : ℤ) : overlap a b s t ≤ overlap c d s t := by
  unfold overlap
  omega

/-- A smaller interval shares as much with a third one only if it has all that the larger one
shares with it. -/
theorem overlap_eq_iff {s t : ℤ} (h : c ≤ a) (h' : b ≤ d) (hlt : max c s < min d t) :
    overlap a b s t = overlap c d s t ↔ a ≤ max c s ∧ min d t ≤ b := by
  unfold overlap
  omega

def overlaps (a b : ℤ) : ℤ → List ℤ → List ℤ
  | _, [] => []
  | o, n :: ns => overlap a b o (o + n) :: overlaps a b (o + n) ns

/-- What an interval shares with consecutive intervals adds up to what it shares with their
union. -/
theorem sum_overlaps {o : ℤ} {ns : List ℤ} (h : ∀ n ∈ ns, 0 ≤ n) :
    (overlaps a b o ns).sum = overlap a b o (o + ns.sum) := by
  induction ns generalizing o with
  | nil =>
    rw [overlaps, List.sum_nil, overlap_of_le]
    simp
  | cons n ns ih =>
    obtain ⟨hn, hns⟩ := List.forall_mem_cons.mp h
    have hsum : 0 ≤ ns.sum := List.sum_nonneg hns
    rw [overlaps, List.sum_cons, ih hns, overlap_cut (by omega) (by omega), List.sum_cons,
      add_assoc]

/-- The points of a window that an interval has. -/
theorem countP_range_interval (n : ℕ) :
    ((List.range n).countP fun k : ℕ => a ≤ c + k ∧ c + k < b) = overlap a b c (c + n) := by
  induction n with
  | zero =>
    rw [overlap_of_le (by simp)]
    rfl
  | succ n ih =>
    have hcut : overlap a b c (c + n) + overlap a b (c + n) (c + (n + 1 : ℕ)) =
        overlap a b c (c + (n + 1 : ℕ)) := overlap_cut (by omega) (by omega)
    rw [List.range_succ, List.countP_append, List.countP_singleton, ← hcut, Int.natCast_add, ih]
    congr 1
    unfold overlap
    simp only [decide_eq_true_eq]
    split_ifs <;> omega

theorem countP_or {α : Type*} {p q : α → Prop} [DecidablePred p] [DecidablePred q] {l : List α}
    (h : ∀ x ∈ l, p x → ¬q x) :
    (l.countP fun x => p x ∨ q x) = l.countP (fun x => p x) + l.countP fun x => q x := by
  induction l with
  | nil => rfl
  | cons x l ih =>
    obtain ⟨hx, hl⟩ := List.forall_mem_cons.mp h
    rw [List.countP_cons, List.countP_cons, List.countP_cons, ih hl]
    by_cases hp : p x
    · simp only [hp, hx hp, or_false, decide_true, decide_false, Bool.false_eq_true, if_true,
        if_false]
      omega
    · simp only [hp, false_or, decide_false, Bool.false_eq_true, if_false]
      omega

/-- The points of a window that some of the intervals have, when these follow one another. -/
theorem countP_range_any {l : List (ℤ × ℤ)} (hl : l.Pairwise fun i j => i.2 ≤ j.1) (n : ℕ) :
    ((List.range n).countP fun k : ℕ => ∃ i ∈ l, i.1 ≤ c + k ∧ c + k < i.2) =
      (l.map fun i => overlap i.1 i.2 c (c + n)).sum := by
  induction l with
  | nil => simp
  | cons i l ih =>
    obtain ⟨hfirst, hl⟩ := List.pairwise_cons.mp hl
    have hdisjoint : ∀ k ∈ List.range n, (i.1 ≤ c + (k : ℤ) ∧ c + k < i.2) →
        ¬∃ j ∈ l, j.1 ≤ c + (k : ℤ) ∧ c + k < j.2 := by
      rintro k - ⟨-, hk⟩ ⟨j, hj, hk', -⟩
      have := hfirst j hj
      omega
    rw [List.map_cons, List.sum_cons, ← ih hl, ← countP_range_interval, ← Int.natCast_add,
      ← countP_or hdisjoint]
    simp only [List.mem_cons, exists_eq_or_imp]

end Interval
