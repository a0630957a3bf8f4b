import Mathlib.Data.List.Basic

/-!
# Positional writes

A file as the list of its items. A write puts data at an offset, over what is there; a gap in
front of the offset is filled up.
-/

namespace PositionalWrite

variable {α : Type*} (blank : α)

def writeAt (file : List α) (offset : Nat) (data : List α) : List α :=
  file.take offset ++ List.replicate (offset - file.length) blank ++ data ++
    file.drop (offset + data.length)

variable {blank} {file data : List α} {offset k : Nat}

theorem length_writeAt : (writeAt blank file offset data).length =
    max file.length (offset + data.length) := by
  simp only [writeAt, List.length_append, List.length_take, List.length_replicate,
    List.length_drop]
  omega

theorem length_head (blank : α) (file : List α) (offset : Nat) :
    (file.take offset ++ List.replicate (offset - file.length) blank).length = offset := by
  rw [List.length_append, List.length_take, List.length_replicate]
  omega

/-- The data stands where it has been written. -/
theorem getElem?_writeAt_inside (h : k < data.length) :
    (writeAt blank file offset data)[offset + k]? = data[k]? := by
  have hhead := length_head blank file offset
  rw [writeAt, List.append_assoc _ data, List.getElem?_append_right (by omega), hhead,
    Nat.add_sub_cancel_left, List.getElem?_append_left h]

/-- What lies outside of a write stays. -/
theorem getElem?_writeAt_outside (h : k < offset ∨ offset + data.length ≤ k)
    (hk : k < file.length) : (writeAt blank file offset data)[k]? = file[k]? := by
  have hhead := length_head blank file offset
  rcases h with h | h
  · rw [writeAt, List.append_assoc _ data, List.getElem?_append_left (by omega),
      List.getElem?_append_left (by rw [List.length_take]; omega), List.getElem?_take_of_lt h]
  · rw [writeAt, List.getElem?_append_right (by rw [List.length_append]; omega),
      List.length_append, hhead, List.getElem?_drop, Nat.add_sub_cancel' h]

/-- The file is no longer than the target and agrees with it at the given positions. -/
structure Agrees (file target : List α) (D : Nat → Prop) : Prop where
  length_le : file.length ≤ target.length
  agrees : ∀ k, D k → k < file.length ∧ file[k]? = target[k]?

variable {target : List α} {D D' : Nat → Prop}

theorem Agrees.nil : Agrees [] target fun _ => False where
  length_le := Nat.zero_le _
  agrees := fun _ h => h.elim

theorem Agrees.mono (h : Agrees file target D) (hD : ∀ k, D' k → D k) : Agrees file target D' where
  length_le := h.length_le
  agrees := fun k hk => h.agrees k (hD k hk)

/-- A write of a part of the target adds its positions. -/
theorem Agrees.writeAt (h : Agrees file target D) (hle : offset + data.length ≤ target.length)
    (hdata : ∀ k < data.length, data[k]? = target[offset + k]?) :
    Agrees (writeAt blank file offset data) target
      fun k => D k ∨ offset ≤ k ∧ k < offset + data.length where
  length_le := by
    rw [length_writeAt]
    have := h.length_le
    omega
  agrees := fun k hk => by
    rw [length_writeAt]
    by_cases hin : offset ≤ k ∧ k < offset + data.length
    · have hread : (PositionalWrite.writeAt blank file offset data)[offset + (k - offset)]? = _ :=
        getElem?_writeAt_inside (by omega)
      rw [hdata _ (by omega), Nat.add_sub_cancel' hin.1] at hread
      exact ⟨by omega, hread⟩
    · obtain ⟨hlt, hget⟩ := h.agrees k (hk.resolve_right hin)
      rw [getElem?_writeAt_outside (by omega) hlt]
      exact ⟨by omega, hget⟩

/-- A file that agrees with the target everywhere is the target. -/
theorem Agrees.eq (h : Agrees file target D) (hall : ∀ k < target.length, D k) :
    file = target := by
  have hlength : file.length = target.length := by
    apply Nat.le_antisymm h.length_le
    -- the first position behind the end of the file would agree with the target
    by_contra hlt
    have := (h.agrees _ (hall file.length (by omega))).1
    omega
  refine List.ext_getElem? fun k => ?_
  by_cases hk : k < target.length
  · exact (h.agrees k (hall k hk)).2
  · rw [List.getElem?_eq_none (by omega), List.getElem?_eq_none (by omega)]

end PositionalWrite
