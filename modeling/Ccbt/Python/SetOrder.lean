import Mathlib.Data.List.Dedup
import Mathlib.Data.List.Perm.Subperm

/-!
# The order of Python sets

A set is a list without repetitions. The order in which its items come when it is iterated over is
up to the interpreter: `order` names the items that come first.
-/

namespace Python

variable {α : Type*} [DecidableEq α] {order s : List α} {a : α}

/-- `list(s)` -/
def iterSet (order s : List α) : List α := order.dedup.filter (· ∈ s) ++ s.filter (· ∉ order)

theorem mem_iterSet : a ∈ iterSet order s ↔ a ∈ s := by
  simp only [iterSet, List.mem_append, List.mem_filter, List.mem_dedup, decide_eq_true_eq]
  tauto

theorem nodup_iterSet (hs : s.Nodup) : (iterSet order s).Nodup := by
  refine (order.nodup_dedup.filter _).append (hs.filter _) fun a ha ha' => ?_
  have hmem := List.mem_dedup.mp (List.mem_filter.mp ha).1
  exact of_decide_eq_true (List.mem_filter.mp ha').2 hmem

theorem iterSet_perm (hs : s.Nodup) : (iterSet order s).Perm s :=
  (List.perm_ext_iff_of_nodup (nodup_iterSet hs) hs).mpr fun _ => mem_iterSet

@[simp] theorem length_iterSet (hs : s.Nodup) : (iterSet order s).length = s.length :=
  (iterSet_perm hs).length_eq

/-- Every order is possible. -/
theorem iterSet_of_perm (h : order.Perm s) (hs : s.Nodup) : iterSet order s = order := by
  have horder : order.Nodup := h.nodup_iff.mpr hs
  have hin : order.dedup.filter (· ∈ s) = order := by
    rw [horder.dedup, List.filter_eq_self]
    exact fun a ha => decide_eq_true (h.mem_iff.mp ha)
  have hout : s.filter (· ∉ order) = [] := by
    rw [List.filter_eq_nil_iff]
    intro a ha hnot
    exact of_decide_eq_true hnot (h.mem_iff.mpr ha)
  rw [iterSet, hin, hout, List.append_nil]

/-- A Python set. -/
structure PySet (α : Type*) where
  items : List α
  nodup : items.Nodup

namespace PySet

/-- `set()` -/
def empty : PySet α := ⟨[], List.nodup_nil⟩

instance : Membership α (PySet α) := ⟨fun s a => a ∈ s.items⟩

instance (a : α) (s : PySet α) : Decidable (a ∈ s) := inferInstanceAs (Decidable (a ∈ s.items))

def add (s : PySet α) (a : α) : PySet α := ⟨s.items.insert a, s.nodup.insert⟩

def discard (s : PySet α) (a : α) : PySet α := ⟨s.items.erase a, s.nodup.erase a⟩

def union (s t : PySet α) : PySet α := ⟨s.items ∪ t.items, t.nodup.union s.items⟩

def size (s : PySet α) : Nat := s.items.length

def iter (order : List α) (s : PySet α) : List α := iterSet order s.items

variable {s t : PySet α} {b : α}

omit [DecidableEq α] in
@[simp] theorem notMem_empty : a ∉ (empty : PySet α) := List.not_mem_nil

@[simp] theorem mem_add : b ∈ s.add a ↔ b = a ∨ b ∈ s := List.mem_insert_iff

@[simp] theorem mem_discard : b ∈ s.discard a ↔ b ≠ a ∧ b ∈ s := s.nodup.mem_erase_iff

@[simp] theorem mem_union : a ∈ s.union t ↔ a ∈ s ∨ a ∈ t := List.mem_union_iff

@[simp] theorem mem_iter {order : List α} : a ∈ s.iter order ↔ a ∈ s := mem_iterSet

theorem nodup_iter {order : List α} : (s.iter order).Nodup := nodup_iterSet s.nodup

theorem size_add (h : a ∉ s) : (s.add a).size = s.size + 1 := List.length_insert_of_not_mem h

end PySet

end Python
