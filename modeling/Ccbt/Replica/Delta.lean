import Mathlib.Data.Finset.Disjoint
import Mathlib.Data.Finset.Lattice.Lemmas
import Mathlib.Data.Finset.SDiff

/-!
# Sets that are kept in step by deltas

A replica holds a set and is told what has been added to the original and what has been dropped.
-/

namespace Replica

variable {α : Type*} [DecidableEq α] {held added dropped target : Finset α}

/-- The replica after one delta: first what is added, then what is dropped. -/
def apply (held added dropped : Finset α) : Finset α := (held ∪ added) \ dropped

theorem mem_apply {a : α} :
    a ∈ apply held added dropped ↔ (a ∈ held ∨ a ∈ added) ∧ a ∉ dropped := by
  rw [apply, Finset.mem_sdiff, Finset.mem_union]

@[simp] theorem apply_empty (held : Finset α) : apply held ∅ ∅ = held := by
  rw [apply, Finset.union_empty, Finset.sdiff_empty]

/-- A delta that adds only what belongs to the target and drops only what does not makes the replica
the target exactly when it adds all that is missing and drops all that is in excess. -/
theorem apply_eq_iff (hadded : added ⊆ target) (hdropped : Disjoint dropped target) :
    apply held added dropped = target ↔ target \ held ⊆ added ∧ held \ target ⊆ dropped := by
  have hnot {a : α} (ha : a ∈ target) : a ∉ dropped := Finset.disjoint_right.mp hdropped ha
  constructor
  · intro h
    refine ⟨fun a ha => ?_, fun a ha => ?_⟩
    · obtain ⟨hin, hout⟩ := Finset.mem_sdiff.mp ha
      rw [← h] at hin
      exact (mem_apply.mp hin).1.resolve_left hout
    · obtain ⟨hin, hout⟩ := Finset.mem_sdiff.mp ha
      by_contra hd
      apply hout
      rw [← h]
      exact mem_apply.mpr ⟨.inl hin, hd⟩
  · rintro ⟨hmissing, hexcess⟩
    ext a
    rw [mem_apply]
    constructor
    · rintro ⟨ha | ha, hd⟩
      · by_contra ht
        exact hd (hexcess (Finset.mem_sdiff.mpr ⟨ha, ht⟩))
      · exact hadded ha
    · intro ht
      refine ⟨?_, hnot ht⟩
      by_cases ha : a ∈ held
      · exact .inl ha
      · exact .inr (hmissing (Finset.mem_sdiff.mpr ⟨ht, ha⟩))

end Replica
