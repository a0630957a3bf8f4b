import Mathlib.Data.Finset.Max
import Mathlib.Data.List.Nodup
import Mathlib.Data.Set.Finite.Lemmas
import Mathlib.Order.Basic

/-!
# Precedence by priority

When a list is sorted by falling priority, and elements of one priority stay in the order that they
have, the rank of an element is the number of those that come before it. In a finite set it is the
number of those that are strictly nearer. Of the rules that apply, those of the highest priority
decide. What they all or some of them are can be said of each rule that is not so: another one
overrides it.
-/

namespace Precedence

section Rank

variable {α κ : Type*} [DecidableEq α] [LinearOrder κ] (priority : α → κ) (l : List α)

/-- The element comes first when the list is sorted. -/
def Precedes (a b : α) : Prop :=
  priority b < priority a ∨ priority a = priority b ∧ l.idxOf a < l.idxOf b

instance (a b : α) : Decidable (Precedes priority l a b) :=
  inferInstanceAs (Decidable (_ ∨ _ ∧ _))

def rank (a : α) : Nat := l.countP fun b => Precedes priority l b a

variable {priority l} {a b : α} {k : Nat}

theorem Precedes.asymm (h : Precedes priority l a b) : ¬ Precedes priority l b a := by
  rintro (hlt | ⟨heq, hidx⟩)
  · obtain hlt' | ⟨heq', -⟩ := h
    · exact lt_asymm hlt hlt'
    · exact hlt.ne heq'
  · obtain hlt' | ⟨-, hidx'⟩ := h
    · exact hlt'.ne heq
    · exact Nat.lt_asymm hidx hidx'

/-- The first `k` elements of a list in an order are those with fewer than `k` before them. -/
theorem mem_take_iff {R : α → α → Prop} [DecidableRel R] {s : List α}
    (hasymm : ∀ a b, R a b → ¬ R b a) (hs : s.Pairwise R) :
    a ∈ s.take k ↔ a ∈ s ∧ s.countP (fun b => R b a) < k := by
  induction s generalizing k with
  | nil => simp
  | cons b s ih =>
    obtain ⟨hfirst, hrest⟩ := List.pairwise_cons.mp hs
    cases k with
    | zero => simp
    | succ k =>
      rw [List.take_succ_cons, List.mem_cons, List.mem_cons, ih hrest]
      by_cases hab : a = b
      · subst hab
        have hnone : (a :: s).countP (fun b => R b a) = 0 := by
          rw [List.countP_eq_zero]
          intro b hb hba
          have hba := of_decide_eq_true hba
          obtain rfl | hb := List.mem_cons.mp hb
          · exact hasymm _ _ hba hba
          · exact hasymm _ _ (hfirst b hb) hba
        rw [hnone]
        simp
      · rw [or_iff_right hab, or_iff_right hab]
        refine and_congr_right fun ha => ?_
        have hcount : (b :: s).countP (fun b => R b a) = s.countP (fun b => R b a) + 1 :=
          List.countP_cons_of_pos (decide_eq_true (hfirst a ha))
        rw [hcount, Nat.succ_lt_succ_iff]

/-- Two elements in the order of the list. -/
theorem pair_sublist_of_idxOf_lt (hb : b ∈ l) (h : l.idxOf a < l.idxOf b) :
    [a, b].Sublist l := by
  have hlt : l.idxOf a < l.length := Nat.lt_trans h (List.idxOf_lt_length_iff.mpr hb)
  have ha : a ∈ l.take (l.idxOf b) := by
    rw [List.mem_take_iff_getElem]
    exact ⟨l.idxOf a, by omega, List.getElem_idxOf hlt⟩
  have hb' : b ∈ l.drop (l.idxOf b) := by
    rw [List.mem_drop_iff_getElem]
    exact ⟨0, by simpa using List.idxOf_lt_length_iff.mpr hb, by simp⟩
  have happend := (List.singleton_sublist.mpr ha).append (List.singleton_sublist.mpr hb')
  rwa [List.take_append_drop] at happend

theorem idxOf_lt_of_pair_sublist (hnodup : l.Nodup) (h : [a, b].Sublist l) :
    l.idxOf a < l.idxOf b := by
  have hall : l.Pairwise fun a b => l.idxOf a < l.idxOf b := by
    refine List.pairwise_iff_getElem.mpr fun i j hi hj hij => ?_
    rwa [hnodup.idxOf_getElem, hnodup.idxOf_getElem]
  exact List.pairwise_iff_forall_sublist.mp hall h

/-- Sorting by falling priority brings the elements into this order. -/
theorem pairwise_mergeSort (hnodup : l.Nodup) :
    (l.mergeSort fun a b => decide (priority b ≤ priority a)).Pairwise (Precedes priority l) := by
  have htrans (a b c : α) (hab : decide (priority b ≤ priority a) = true)
      (hbc : decide (priority c ≤ priority b) = true) : decide (priority c ≤ priority a) = true :=
    decide_eq_true ((of_decide_eq_true hbc).trans (of_decide_eq_true hab))
  have htotal (a b : α) :
      (decide (priority b ≤ priority a) || decide (priority a ≤ priority b)) = true := by
    simpa using le_total (priority b) (priority a)
  have hperm := List.mergeSort_perm l fun a b => decide (priority b ≤ priority a)
  have hsorted := List.pairwise_mergeSort htrans htotal l
  have hnodup' := hperm.nodup_iff.mpr hnodup
  refine List.pairwise_iff_forall_sublist.mpr fun {a b} hab => ?_
  have hle := of_decide_eq_true (List.pairwise_iff_forall_sublist.mp hsorted hab)
  obtain hlt | heq := hle.lt_or_eq
  · exact .inl hlt
  · refine .inr ⟨heq.symm, ?_⟩
    by_contra hidx
    have hne : a ≠ b := List.pairwise_iff_forall_sublist.mp hnodup' hab
    have ha : a ∈ l := hperm.mem_iff.mp (hab.subset List.mem_cons_self)
    have hb : b ∈ l := hperm.mem_iff.mp (hab.subset (List.mem_cons_of_mem _ List.mem_cons_self))
    have hidx' : l.idxOf b < l.idxOf a := by
      refine Nat.lt_of_le_of_ne (Nat.le_of_not_lt hidx) fun hsame => hne ?_
      exact ((List.idxOf_inj hb).mp hsame).symm
    -- elements of one priority stay in their order
    have hba := List.pair_sublist_mergeSort htrans htotal (decide_eq_true heq.ge)
      (pair_sublist_of_idxOf_lt ha hidx')
    exact Nat.lt_asymm (idxOf_lt_of_pair_sublist hnodup' hab)
      (idxOf_lt_of_pair_sublist hnodup' hba)

/-- The first `k` elements of the sorted list are those with a rank below `k`. -/
theorem mem_take_mergeSort_iff (hnodup : l.Nodup) :
    a ∈ (l.mergeSort fun a b => decide (priority b ≤ priority a)).take k ↔
      a ∈ l ∧ rank priority l a < k := by
  have hperm := List.mergeSort_perm l fun a b => decide (priority b ≤ priority a)
  rw [mem_take_iff (fun _ _ h => h.asymm) (pairwise_mergeSort hnodup), hperm.mem_iff,
    hperm.countP_eq, rank]

/-- At most `n` elements of a set are its `n` nearest ones just when they are all of it, or when
there are `n` of them and each is nearer than every other one. -/
theorem nearest_mem_iff {K Q : Finset α} {d : α → κ} {n : Nat} (hQ : Q ⊆ K) (hcard : Q.card ≤ n) :
    (∀ a ∈ K, (K.filter fun b => d b < d a).card < n → a ∈ Q) ↔
      K ⊆ Q ∨ Q.card = n ∧ ∀ q ∈ Q, ∀ a ∈ K, a ∉ Q → d q < d a := by
  constructor
  · intro h
    by_cases hall : K ⊆ Q
    · exact .inl hall
    -- the nearest one that is missing has only elements of `Q` before it
    obtain ⟨x, hx⟩ := Finset.sdiff_nonempty.mpr hall
    obtain ⟨a, ha, hmin⟩ := Finset.exists_min_image (K \ Q) d ⟨x, hx⟩
    obtain ⟨haK, haQ⟩ := Finset.mem_sdiff.mp ha
    have hbefore : (K.filter fun b => d b < d a) ⊆ Q := by
      intro b hb
      obtain ⟨hbK, hlt⟩ := Finset.mem_filter.mp hb
      by_contra hbQ
      exact (hmin b (Finset.mem_sdiff.mpr ⟨hbK, hbQ⟩)).not_gt hlt
    have hmany : n ≤ (K.filter fun b => d b < d a).card := by
      by_contra hfew
      exact haQ (h a haK (Nat.lt_of_not_le hfew))
    have heq := Finset.eq_of_subset_of_card_le hbefore (hcard.trans hmany)
    refine .inr ⟨hcard.antisymm (hmany.trans (Finset.card_le_card hbefore)), ?_⟩
    intro q hq b hb hbQ
    rw [← heq] at hq
    exact (Finset.mem_filter.mp hq).2.trans_le (hmin b (Finset.mem_sdiff.mpr ⟨hb, hbQ⟩))
  · rintro (hall | ⟨hfull, hnear⟩) a ha hlt
    · exact hall ha
    · by_contra haQ
      have hbefore : Q ⊆ K.filter fun b => d b < d a := fun q hq =>
        Finset.mem_filter.mpr ⟨hQ hq, hnear q hq a ha haQ⟩
      have := Finset.card_le_card hbefore
      omega

end Rank

section Top

variable {ρ κ : Type*} [LinearOrder κ] (priority : ρ → κ) (l : List ρ)

/-- No rule that applies has a higher priority. -/
def Top (r : ρ) : Prop := r ∈ l ∧ ∀ r' ∈ l, priority r' ≤ priority r

variable {priority l}

theorem exists_top (priority : ρ → κ) (h : l ≠ []) : ∃ r, Top priority l r := by
  obtain ⟨r, hr, hmax⟩ := Set.exists_max_image {r | r ∈ l} priority (List.finite_toSet l)
    (List.exists_mem_of_ne_nil l h)
  exact ⟨r, hr, hmax⟩

variable {P : ρ → Prop}

/-- All top rules have a property just when the others are overridden by rules that have it. -/
theorem forall_top_iff : (∀ r, Top priority l r → P r) ↔
    ∀ r ∈ l, ¬P r → ∃ r' ∈ l, P r' ∧ priority r < priority r' := by
  constructor
  · intro htop r hr hnot
    obtain ⟨t, ht⟩ := exists_top priority (List.ne_nil_of_mem hr)
    refine ⟨t, ht.1, htop t ht, lt_of_le_of_ne (ht.2 r hr) fun heq => hnot (htop r ⟨hr, ?_⟩)⟩
    rw [heq]
    exact ht.2
  · intro hover r hr
    by_contra hnot
    obtain ⟨r', hr', -, hlt⟩ := hover r hr.1 hnot
    exact (hr.2 r' hr').not_gt hlt

/-- Some top rule has a property just when the others do not override those that have it. -/
theorem exists_top_iff (h : l ≠ []) : (∃ r, Top priority l r ∧ P r) ↔
    ∀ r ∈ l, ¬P r → ∃ r' ∈ l, P r' ∧ priority r ≤ priority r' := by
  constructor
  · rintro ⟨t, ht, hP⟩ r hr -
    exact ⟨t, ht.1, hP, ht.2 r hr⟩
  · intro hover
    obtain ⟨t, ht⟩ := exists_top priority h
    by_cases hP : P t
    · exact ⟨t, ht, hP⟩
    · obtain ⟨r, hr, hPr, hle⟩ := hover t ht.1 hP
      exact ⟨r, ⟨hr, fun r' hr' => (ht.2 r' hr').trans hle⟩, hPr⟩

end Top

end Precedence
