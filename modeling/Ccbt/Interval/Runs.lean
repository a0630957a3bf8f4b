import Mathlib.Data.List.Basic
import Mathlib.Data.List.Pairwise

/-!
# Runs of consecutive numbers

A strictly increasing list of numbers is cut wherever a number is not the one behind its
predecessor. A run is given by its first number and the number behind its last one.
-/

namespace Interval

/-- The runs of the list, when one from `start` is open and ends in front of `stop`. -/
def runsFrom (start stop : ℕ) : List ℕ → List (ℕ × ℕ)
  | [] => [(start, stop)]
  | x :: xs =>
    if x = stop then runsFrom start (x + 1) xs
    else (start, stop) :: runsFrom x (x + 1) xs

def runs : List ℕ → List (ℕ × ℕ)
  | [] => []
  | x :: xs => runsFrom x (x + 1) xs

/-- A number lies in one of the intervals. -/
def Within (rs : List (ℕ × ℕ)) (n : ℕ) : Prop := ∃ r ∈ rs, r.1 ≤ n ∧ n < r.2

theorem within_cons {r : ℕ × ℕ} {rs : List (ℕ × ℕ)} {n : ℕ} :
    Within (r :: rs) n ↔ (r.1 ≤ n ∧ n < r.2) ∨ Within rs n :=
  List.exists_mem_cons_iff _ _ _

/-- What the loop has in front of it: larger numbers than those of the open run. -/
structure Ahead (start stop : ℕ) (xs : List ℕ) : Prop where
  lt : start < stop
  sorted : xs.Pairwise (· < ·)
  le : ∀ x ∈ xs, stop ≤ x

namespace Ahead

variable {start stop x : ℕ} {xs : List ℕ}

theorem of_cons (h : (x :: xs).Pairwise (· < ·)) : Ahead x (x + 1) xs where
  lt := Nat.lt_succ_self x
  sorted := (List.pairwise_cons.mp h).2
  le := (List.pairwise_cons.mp h).1

theorem extend (h : Ahead start stop (x :: xs)) : Ahead start (x + 1) xs where
  lt := Nat.lt_succ_of_le (Nat.le_of_lt (Nat.lt_of_lt_of_le h.lt (h.le x List.mem_cons_self)))
  sorted := (List.pairwise_cons.mp h.sorted).2
  le := (List.pairwise_cons.mp h.sorted).1

end Ahead

variable {start stop n : ℕ} {xs : List ℕ}

theorem within_runsFrom (h : Ahead start stop xs) :
    Within (runsFrom start stop xs) n ↔ (start ≤ n ∧ n < stop) ∨ n ∈ xs := by
  induction xs generalizing start stop with
  | nil => simp [runsFrom, Within]
  | cons x xs ih =>
    have hlt : start < stop := h.lt
    have hx : stop ≤ x := h.le x List.mem_cons_self
    rw [runsFrom, List.mem_cons]
    split
    · next he =>
      rw [ih h.extend]
      constructor
      · rintro (hn | hn)
        · by_cases hnx : n = x
          · exact .inr (.inl hnx)
          · exact .inl (by omega)
        · exact .inr (.inr hn)
      · rintro (hn | hn | hn)
        · exact .inl (by omega)
        · exact .inl (by omega)
        · exact .inr hn
    · rw [within_cons, ih (.of_cons h.sorted)]
      refine or_congr_right (or_congr_left ?_)
      omega

/-- The runs of a list are made up of its numbers. -/
theorem within_runs (h : xs.Pairwise (· < ·)) : Within (runs xs) n ↔ n ∈ xs := by
  cases xs with
  | nil => simp [runs, Within]
  | cons x xs =>
    rw [runs, within_runsFrom (.of_cons h), List.mem_cons]
    refine or_congr_left ?_
    omega

/-- Runs are not empty, and between two of them a number is missing. -/
theorem runsFrom_apart (h : Ahead start stop xs) :
    (∀ r ∈ runsFrom start stop xs, r.1 < r.2 ∧ start ≤ r.1) ∧
      (runsFrom start stop xs).Pairwise (fun r r' => r.2 < r'.1) := by
  induction xs generalizing start stop with
  | nil => simp [runsFrom, h.lt]
  | cons x xs ih =>
    have hlt : start < stop := h.lt
    have hx : stop ≤ x := h.le x List.mem_cons_self
    rw [runsFrom]
    split
    · exact ih h.extend
    · next hne =>
      obtain ⟨hlater, hpair⟩ := ih (.of_cons h.sorted)
      refine ⟨?_, List.pairwise_cons.mpr ⟨?_, hpair⟩⟩
      · refine List.forall_mem_cons.mpr ⟨⟨hlt, Nat.le_refl start⟩, ?_⟩
        intro r hr
        refine ⟨(hlater r hr).1, ?_⟩
        have := (hlater r hr).2
        omega
      · intro r hr
        have := (hlater r hr).2
        omega

theorem runs_lt (h : xs.Pairwise (· < ·)) : ∀ r ∈ runs xs, r.1 < r.2 := by
  cases xs with
  | nil => simp [runs]
  | cons x xs => exact fun r hr => ((runsFrom_apart (.of_cons h)).1 r hr).1

theorem runs_apart (h : xs.Pairwise (· < ·)) : (runs xs).Pairwise (fun r r' => r.2 < r'.1) := by
  cases xs with
  | nil => exact .nil
  | cons x xs => exact (runsFrom_apart (.of_cons h)).2

/-- A run ends no later than the numbers do. -/
theorem runs_le {bound : ℕ} (h : xs.Pairwise (· < ·)) (hb : ∀ x ∈ xs, x < bound) :
    ∀ r ∈ runs xs, r.2 ≤ bound := by
  intro r hr
  have hlt := runs_lt h r hr
  have hlast : r.2 - 1 ∈ xs := (within_runs h).mp ⟨r, hr, by omega, by omega⟩
  have := hb _ hlast
  omega

theorem pred_notMem (h : (n :: xs).Pairwise (· < ·)) (hn : n ≠ 0) : n - 1 ∉ n :: xs := by
  intro hm
  obtain he | hm := List.mem_cons.mp hm
  · omega
  · have := (List.pairwise_cons.mp h).1 _ hm
    omega

theorem map_fst_runsFrom (h : Ahead start stop xs) : (runsFrom start stop xs).map Prod.fst =
    start :: xs.filter (fun n => n ≠ stop ∧ n - 1 ∉ xs) := by
  induction xs generalizing start stop with
  | nil => rfl
  | cons x xs ih =>
    have hx : stop ≤ x := h.le x List.mem_cons_self
    have hstop : start < stop := h.lt
    have hlater : ∀ n ∈ xs, x < n := (List.pairwise_cons.mp h.sorted).1
    -- behind `x` a run starts where it would if `x` were the end of the open one
    have hrest : xs.filter (fun n => n ≠ stop ∧ n - 1 ∉ x :: xs) =
        xs.filter (fun n => n ≠ x + 1 ∧ n - 1 ∉ xs) := by
      apply List.filter_congr
      intro n hn
      have := hlater n hn
      have h1 : n ≠ stop := by omega
      have h2 : n - 1 = x ↔ n = x + 1 := by omega
      simp [h1, h2]
    rw [runsFrom, List.filter_cons]
    split
    · next he => rw [ih h.extend, if_neg (by simp [he]), hrest]
    · next hne =>
      have hnot : x - 1 ∉ x :: xs := pred_notMem h.sorted (by omega)
      rw [List.map_cons, ih (.of_cons h.sorted), if_pos (decide_eq_true ⟨hne, hnot⟩), hrest]

/-- A run starts at every number whose predecessor is missing. -/
theorem map_fst_runs (h : xs.Pairwise (· < ·)) :
    (runs xs).map Prod.fst = xs.filter (fun n => n = 0 ∨ n - 1 ∉ xs) := by
  cases xs with
  | nil => rfl
  | cons x xs =>
    have hlater : ∀ n ∈ xs, x < n := (List.pairwise_cons.mp h).1
    have hfirst : x = 0 ∨ x - 1 ∉ x :: xs := or_iff_not_imp_left.mpr (pred_notMem h)
    rw [runs, map_fst_runsFrom (.of_cons h), List.filter_cons, if_pos (decide_eq_true hfirst)]
    apply congrArg
    apply List.filter_congr
    intro n hn
    have := hlater n hn
    have h1 : n ≠ 0 := by omega
    have h2 : n - 1 = x ↔ n = x + 1 := by omega
    simp [h1, h2]

theorem runs_start (h : xs.Pairwise (· < ·)) {r : ℕ × ℕ} (hr : r ∈ runs xs) :
    r.1 = 0 ∨ r.1 - 1 ∉ xs := by
  have hm : r.1 ∈ (runs xs).map Prod.fst := List.mem_map_of_mem hr
  rw [map_fst_runs h] at hm
  exact of_decide_eq_true (List.mem_filter.mp hm).2

/-- The number behind a run is missing. -/
theorem runs_stop_notMem (h : xs.Pairwise (· < ·)) {r : ℕ × ℕ} (hr : r ∈ runs xs) :
    r.2 ∉ xs := by
  rw [← within_runs h]
  rintro ⟨r', hr', hle, hlt⟩
  have hne : r ≠ r' := by
    rintro rfl
    omega
  have hsymm : Std.Symm (fun r r' : ℕ × ℕ => r.2 < r'.1 ∨ r'.2 < r.1) := ⟨fun _ _ => Or.symm⟩
  have hrun := runs_lt h r hr
  have hpair : (runs xs).Pairwise (fun r r' => r.2 < r'.1 ∨ r'.2 < r.1) :=
    (runs_apart h).imp Or.inl
  obtain happart | happart := hpair.forall hr hr' hne
  · omega
  · omega

end Interval
