import Mathlib.Data.List.Basic
import Mathlib.Data.List.Perm.Basic

/-!
# The module `heapq`

A heap is a list in which the entry at `pos` has its children at `2 * pos + 1` and
`2 * pos + 2`. The comparison `lt` may raise; then the operation raises too, and the heap
stays as it is at that moment.
-/

namespace Python.Heapq

variable {α : Type*} (lt : α → α → Option Bool)

def swap (heap : List α) {i j : Nat} (hi : i < heap.length) (hj : j < heap.length) : List α :=
  (heap.set i (heap.get ⟨j, hj⟩)).set j (heap.get ⟨i, hi⟩)

@[simp] theorem length_swap (heap : List α) {i j : Nat} (hi : i < heap.length)
    (hj : j < heap.length) : (swap heap hi hj).length = heap.length := by
  simp [swap]

theorem swap_perm (heap : List α) {i j : Nat} (hi : i < heap.length) (hj : j < heap.length) :
    (swap heap hi hj).Perm heap :=
  List.set_set_perm hi hj

/-- `_siftdown(heap, 0, pos)`: the item moves up as long as its parent is greater. -/
def siftdown (heap : List α) (pos : Nat) (hpos : pos < heap.length) : Except (List α) (List α) :=
  if h0 : 0 < pos then
    have hparent : (pos - 1) / 2 < heap.length := by omega
    match lt (heap.get ⟨pos, hpos⟩) (heap.get ⟨(pos - 1) / 2, hparent⟩) with
    | none => .error heap
    | some false => .ok heap
    | some true => siftdown (swap heap hpos hparent) ((pos - 1) / 2) (by simpa using hparent)
  else .ok heap
termination_by pos

/-- The loop of `_siftup(heap, pos)`: the smaller child moves up until a leaf is reached. -/
def siftup (heap : List α) (pos : Nat) (hpos : pos < heap.length) : Except (List α) (List α) :=
  if hleft : 2 * pos + 1 < heap.length then
    if hright : 2 * pos + 2 < heap.length then
      match lt (heap.get ⟨2 * pos + 1, hleft⟩) (heap.get ⟨2 * pos + 2, hright⟩) with
      | none => .error heap
      | some true => siftup (swap heap hpos hleft) (2 * pos + 1) (by simpa using hleft)
      | some false => siftup (swap heap hpos hright) (2 * pos + 2) (by simpa using hright)
    else siftup (swap heap hpos hleft) (2 * pos + 1) (by simpa using hleft)
  else siftdown lt heap pos hpos
termination_by heap.length - pos
decreasing_by all_goals simp only [length_swap]; omega

def heappush (heap : List α) (item : α) : Except (List α) (List α) :=
  siftdown lt (heap ++ [item]) heap.length (by simp)

/-- The last entry takes the place of the first one and sinks. -/
def heappop (heap : List α) : Except (List α) (α × List α) :=
  match heap.getLast? with
  | none => .error []
  | some lastelt =>
    match heap.dropLast with
    | [] => .ok (lastelt, [])
    | returnitem :: rest =>
      (siftup lt (lastelt :: rest) 0 (Nat.succ_pos _)).map fun heap => (returnitem, heap)

/-- The comparison does not raise on entries of the list. -/
def Comparable (heap : List α) : Prop := ∀ a ∈ heap, ∀ b ∈ heap, (lt a b).isSome

instance (heap : List α) : Decidable (Comparable lt heap) :=
  @List.decidableBAll _ _ (fun _ => List.decidableBAll _ heap) heap

variable {lt}

theorem Comparable.perm {heap heap' : List α} (h : Comparable lt heap)
    (hperm : heap'.Perm heap) : Comparable lt heap' :=
  fun a ha b hb => h a (hperm.subset ha) b (hperm.subset hb)

theorem siftdown_spec {heap : List α} {pos : Nat} (hpos : pos < heap.length)
    (h : Comparable lt heap) :
    ∃ heap', siftdown lt heap pos hpos = .ok heap' ∧ heap'.Perm heap := by
  induction pos using Nat.strongRecOn generalizing heap with
  | ind pos ih =>
    rw [siftdown]
    split
    · next h0 =>
      have hparent : (pos - 1) / 2 < heap.length := by omega
      obtain ⟨b, hb⟩ := Option.isSome_iff_exists.mp (h _ (heap.get_mem ⟨pos, hpos⟩) _
        (heap.get_mem ⟨(pos - 1) / 2, hparent⟩))
      dsimp only
      rw [hb]
      cases b with
      | false => exact ⟨heap, rfl, List.Perm.refl heap⟩
      | true =>
        have hswap := swap_perm heap hpos hparent
        obtain ⟨heap', hsift, hperm⟩ := ih ((pos - 1) / 2) (by omega)
          (by simpa using hparent) (h.perm hswap)
        exact ⟨heap', hsift, hperm.trans hswap⟩
    · exact ⟨heap, rfl, List.Perm.refl heap⟩

theorem siftup_spec {heap : List α} {pos : Nat} (hpos : pos < heap.length)
    (h : Comparable lt heap) :
    ∃ heap', siftup lt heap pos hpos = .ok heap' ∧ heap'.Perm heap := by
  induction hn : heap.length - pos using Nat.strongRecOn generalizing heap pos with
  | ind n ih =>
    have hsink {child : Nat} (hlt : pos < child) (hchild : child < heap.length) :
        ∃ heap', siftup lt (swap heap hpos hchild) child (by simpa using hchild) = .ok heap' ∧
          heap'.Perm heap := by
      have hswap := swap_perm heap hpos hchild
      obtain ⟨heap', hsift, hperm⟩ := ih (heap.length - child) (by omega)
        (by simpa using hchild) (h.perm hswap) (by simp)
      exact ⟨heap', hsift, hperm.trans hswap⟩
    rw [siftup]
    split
    · next hleft =>
      split
      · next hright =>
        obtain ⟨b, hb⟩ := Option.isSome_iff_exists.mp (h _ (heap.get_mem ⟨2 * pos + 1, hleft⟩) _
          (heap.get_mem ⟨2 * pos + 2, hright⟩))
        rw [hb]
        cases b with
        | true => exact hsink (by omega) hleft
        | false => exact hsink (by omega) hright
      · exact hsink (by omega) hleft
    · exact siftdown_spec hpos h

@[simp] theorem heappush_nil (lt : α → α → Option Bool) (item : α) :
    heappush lt [] item = .ok [item] := by
  simp [heappush, siftdown]

@[simp] theorem heappop_singleton (lt : α → α → Option Bool) (item : α) :
    heappop lt [item] = .ok (item, []) := rfl

theorem heappush_spec {heap : List α} {item : α} (h : Comparable lt (heap ++ [item])) :
    ∃ heap', heappush lt heap item = .ok heap' ∧ heap'.Perm (heap ++ [item]) :=
  siftdown_spec _ h

theorem heappop_spec {heap : List α} (hne : heap ≠ []) (h : Comparable lt heap) :
    ∃ item heap', heappop lt heap = .ok (item, heap') ∧ (item :: heap').Perm heap := by
  have hheap := List.dropLast_append_getLast hne
  rw [heappop, List.getLast?_eq_some_getLast hne]
  dsimp only
  cases hrest : heap.dropLast with
  | nil =>
    rw [hrest] at hheap
    exact ⟨heap.getLast hne, [], rfl, List.Perm.of_eq hheap⟩
  | cons returnitem rest =>
    rw [hrest] at hheap
    have hperm : (heap.getLast hne :: rest).Perm (rest ++ [heap.getLast hne]) :=
      (List.perm_append_singleton _ rest).symm
    have hsub : Comparable lt (heap.getLast hne :: rest) := by
      intro a ha b hb
      have hmem {x : α} (hx : x ∈ heap.getLast hne :: rest) : x ∈ heap := by
        rw [← hheap, List.cons_append]
        exact List.mem_cons_of_mem _ (hperm.subset hx)
      exact h a (hmem ha) b (hmem hb)
    obtain ⟨heap', hsift, hheap'⟩ := siftup_spec (Nat.succ_pos _) hsub
    refine ⟨returnitem, heap', congrArg (Except.map fun heap => (returnitem, heap)) hsift, ?_⟩
    rw [← hheap, List.cons_append]
    exact (hheap'.trans hperm).cons returnitem

end Python.Heapq
