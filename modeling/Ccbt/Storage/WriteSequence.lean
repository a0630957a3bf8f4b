import Ccbt.Storage.PositionalWrite
import Mathlib.Data.List.Perm.Basic

/-!
# Sequences of positional writes

What a list of writes, each of data at an offset, makes of a file. A write without data does
nothing. A file is told by its length and its cells; behind its end the cells are blank. Writes
that are apart may be done in any order, and consecutive ones at once.
-/

namespace PositionalWrite

variable {α : Type*} (blank : α)

/-- The file with the data written at the offset, if there are any. -/
def pwrite (file : List α) (offset : Nat) (data : List α) : List α :=
  if data = [] then file else writeAt blank file offset data

def writeAll (file : List α) (ws : List (Nat × List α)) : List α :=
  ws.foldl (fun file w => pwrite blank file w.1 w.2) file

/-- What stands at a position. -/
def cell (file : List α) (k : Nat) : α := file[k]?.getD blank

/-- The position behind a write, or zero when it has no data. -/
def writeEnd (offset : Nat) (data : List α) : Nat := if data = [] then 0 else offset + data.length

def endOf (ws : List (Nat × List α)) : Nat := ws.foldr (fun w e => max (writeEnd w.1 w.2) e) 0

/-- The write puts something at the position. -/
def Covers (w : Nat × List α) (k : Nat) : Prop := w.1 ≤ k ∧ k < w.1 + w.2.length

instance Covers.decidable (w : Nat × List α) (k : Nat) : Decidable (Covers w k) :=
  inferInstanceAs (Decidable (_ ∧ _))

/-- No position is written by both. -/
def Apart (w w' : Nat × List α) : Prop := ∀ k, Covers w k → ¬Covers w' k

variable {blank} {file file' data data' : List α} {offset k : Nat} {w w' : Nat × List α}
  {ws ws' : List (Nat × List α)}

section Cells

theorem cell_of_le (h : file.length ≤ k) : cell blank file k = blank := by
  rw [cell, List.getElem?_eq_none h, Option.getD_none]

theorem cell_of_lt (blank : α) (h : k < file.length) : file[k]? = some (cell blank file k) := by
  rw [cell, List.getElem?_eq_getElem h, Option.getD_some]

/-- There are blanks only, however many. -/
@[simp] theorem cell_replicate (n k : Nat) : cell blank (List.replicate n blank) k = blank := by
  rw [cell, List.getElem?_replicate]
  split <;> rfl

/-- A file is told by its length and its cells. -/
theorem ext_cell (blank : α) (hlength : file.length = file'.length)
    (hcell : ∀ k < file.length, cell blank file k = cell blank file' k) : file = file' := by
  refine List.ext_getElem? fun k => ?_
  by_cases hk : k < file.length
  · rw [cell_of_lt blank hk, cell_of_lt blank (hlength ▸ hk), hcell k hk]
  · rw [List.getElem?_eq_none (by omega), List.getElem?_eq_none (by omega)]

end Cells

section Pwrite

@[simp] theorem pwrite_nil : pwrite blank file offset [] = file := if_pos rfl

theorem length_pwrite : (pwrite blank file offset data).length =
    max file.length (writeEnd offset data) := by
  rw [pwrite, writeEnd]
  split
  · exact (Nat.max_zero _).symm
  · exact length_writeAt

theorem not_covers_nil : ¬Covers (offset, ([] : List α)) k := by
  rintro ⟨hle, hlt⟩
  simp only [List.length_nil] at hle hlt
  omega

theorem ne_nil_of_covers (h : Covers w k) : w.2 ≠ [] := by
  intro hnil
  have hnone : ¬Covers (w.1, ([] : List α)) k := not_covers_nil
  rw [← hnil] at hnone
  exact hnone h

/-- A write changes the cells that it covers. -/
theorem cell_pwrite : cell blank (pwrite blank file offset data) k =
    if Covers (offset, data) k then cell blank data (k - offset) else cell blank file k := by
  by_cases hne : data = []
  · rw [hne, pwrite_nil, if_neg not_covers_nil]
  rw [pwrite, if_neg hne]
  by_cases hcovers : Covers (offset, data) k
  · have hle : offset ≤ k := hcovers.1
    have hlt : k < offset + data.length := hcovers.2
    have hinside : (writeAt blank file offset data)[offset + (k - offset)]? = data[k - offset]? :=
      getElem?_writeAt_inside (by omega)
    rw [Nat.add_sub_cancel' hle] at hinside
    rw [if_pos hcovers, cell, hinside, cell]
  · have haway : k < offset ∨ offset + data.length ≤ k := by
      by_contra hcontra
      have hboth : offset ≤ k ∧ k < offset + data.length := by omega
      exact hcovers hboth
    rw [if_neg hcovers]
    by_cases hlt : k < file.length
    · rw [cell, getElem?_writeAt_outside haway hlt, cell]
    · -- behind the end of the file there are blanks up to the write, and nothing behind it
      have hhead := length_head blank file offset
      rw [cell_of_le (Nat.le_of_not_lt hlt)]
      rcases haway with hgap | hbehind
      · rw [cell, writeAt, List.append_assoc _ data, List.getElem?_append_left (by omega),
          List.getElem?_append_right (by rw [List.length_take]; omega), List.getElem?_replicate]
        split <;> rfl
      · exact cell_of_le (by rw [length_writeAt]; omega)

theorem covers_append : Covers (offset, data ++ data') k ↔
    Covers (offset, data) k ∨ Covers (offset + data.length, data') k := by
  simp only [Covers, List.length_append]
  omega

/-- Consecutive data may be written at once. -/
theorem pwrite_append (file : List α) (offset : Nat) (data data' : List α) :
    pwrite blank (pwrite blank file offset data) (offset + data.length) data' =
      pwrite blank file offset (data ++ data') := by
  apply ext_cell blank
  · rw [length_pwrite, length_pwrite, length_pwrite]
    cases data with
    | nil => simp [writeEnd]
    | cons a data =>
      cases data' with
      | nil => simp [writeEnd]
      | cons a' data' =>
        simp only [writeEnd, reduceCtorEq, if_false, List.cons_append, List.length_cons,
          List.length_append]
        omega
  · intro k _
    rw [cell_pwrite, cell_pwrite, cell_pwrite]
    by_cases hsecond : Covers (offset + data.length, data') k
    · have hle : offset + data.length ≤ k := hsecond.1
      rw [if_pos hsecond, if_pos (covers_append.mpr (.inr hsecond)), cell, cell,
        List.getElem?_append_right (by omega), Nat.sub_add_eq]
    · rw [if_neg hsecond]
      by_cases hfirst : Covers (offset, data) k
      · have hlt : k < offset + data.length := hfirst.2
        have hle : offset ≤ k := hfirst.1
        rw [if_pos hfirst, if_pos (covers_append.mpr (.inl hfirst)), cell, cell,
          List.getElem?_append_left (by omega)]
      · rw [if_neg hfirst, if_neg fun h => (covers_append.mp h).elim hfirst hsecond]

/-- Writes that are apart may change places. -/
theorem pwrite_comm (h : Apart w w') (file : List α) :
    pwrite blank (pwrite blank file w.1 w.2) w'.1 w'.2 =
      pwrite blank (pwrite blank file w'.1 w'.2) w.1 w.2 := by
  apply ext_cell blank
  · simp only [length_pwrite]
    omega
  · intro k _
    simp only [cell_pwrite]
    by_cases hw : Covers w k
    · rw [if_pos hw, if_neg (h k hw), if_pos hw]
    · rw [if_neg hw, if_neg hw]

end Pwrite

section WriteAll

@[simp] theorem writeAll_nil : writeAll blank file [] = file := rfl

@[simp] theorem writeAll_cons : writeAll blank file (w :: ws) =
    writeAll blank (pwrite blank file w.1 w.2) ws := rfl

theorem length_writeAll : (writeAll blank file ws).length = max file.length (endOf ws) := by
  induction ws generalizing file with
  | nil => exact (Nat.max_zero _).symm
  | cons w ws ih =>
    rw [writeAll_cons, ih, length_pwrite, endOf, endOf, List.foldr_cons, Nat.max_assoc]

theorem writeEnd_le_endOf (h : w ∈ ws) : writeEnd w.1 w.2 ≤ endOf ws := by
  induction ws with
  | nil => simp at h
  | cons w' ws ih =>
    rw [endOf, List.foldr_cons]
    obtain rfl | h := List.mem_cons.mp h
    · exact Nat.le_max_left _ _
    · exact Nat.le_trans (ih h) (Nat.le_max_right _ _)

theorem endOf_le {n : Nat} (h : ∀ w ∈ ws, writeEnd w.1 w.2 ≤ n) : endOf ws ≤ n := by
  induction ws with
  | nil => exact Nat.zero_le n
  | cons w ws ih =>
    rw [endOf, List.foldr_cons]
    exact Nat.max_le.mpr
      ⟨h w List.mem_cons_self, ih fun w' hw' => h w' (List.mem_cons_of_mem w hw')⟩

/-- The cells that no write covers stay. -/
theorem cell_writeAll_of_not_covers (h : ∀ w ∈ ws, ¬Covers w k) :
    cell blank (writeAll blank file ws) k = cell blank file k := by
  induction ws generalizing file with
  | nil => rfl
  | cons w ws ih =>
    rw [writeAll_cons, ih fun w' hw' => h w' (List.mem_cons_of_mem w hw'), cell_pwrite,
      if_neg (h w List.mem_cons_self)]

/-- What stands in a cell that is written is from a write that covers it. -/
theorem cell_writeAll_of_covers (blank : α) (file : List α) (h : ∃ w ∈ ws, Covers w k) :
    ∃ w ∈ ws, Covers w k ∧ cell blank (writeAll blank file ws) k = cell blank w.2 (k - w.1) := by
  induction ws generalizing file with
  | nil => simp at h
  | cons w ws ih =>
    rw [writeAll_cons]
    by_cases hlater : ∃ w ∈ ws, Covers w k
    · obtain ⟨w', hw', hcovers, hcell⟩ := ih (pwrite blank file w.1 w.2) hlater
      exact ⟨w', List.mem_cons_of_mem w hw', hcovers, hcell⟩
    · -- the last write that covers the cell is the first of these
      have hnone : ∀ w' ∈ ws, ¬Covers w' k := fun w' hw' hcovers => hlater ⟨w', hw', hcovers⟩
      obtain ⟨w', hw', hcovers⟩ := h
      obtain rfl | hw' := List.mem_cons.mp hw'
      · refine ⟨w', List.mem_cons_self, hcovers, ?_⟩
        rw [cell_writeAll_of_not_covers hnone, cell_pwrite, if_pos hcovers]
      · exact absurd hcovers (hnone w' hw')

/-- What stands in a cell is from a write that covers it, or has stood there before. -/
theorem cell_writeAll_cases (blank : α) (file : List α) (ws : List (Nat × List α)) (k : Nat) :
    cell blank (writeAll blank file ws) k = cell blank file k ∨
      ∃ w ∈ ws, Covers w k ∧ cell blank (writeAll blank file ws) k = cell blank w.2 (k - w.1) := by
  by_cases h : ∃ w ∈ ws, Covers w k
  · exact .inr (cell_writeAll_of_covers blank file h)
  · exact .inl (cell_writeAll_of_not_covers fun w hw hcovers => h ⟨w, hw, hcovers⟩)

/-- Files with the same cells have the same cells behind the same writes. -/
theorem cell_writeAll_congr (h : ∀ k, cell blank file k = cell blank file' k) (k : Nat) :
    cell blank (writeAll blank file ws) k = cell blank (writeAll blank file' ws) k := by
  induction ws generalizing file file' with
  | nil => exact h k
  | cons w ws ih =>
    rw [writeAll_cons, writeAll_cons]
    apply ih
    intro k
    rw [cell_pwrite, cell_pwrite, h]

/-- Blanks behind the end of the file make no difference where the writes go beyond them. -/
theorem writeAll_congr (h : ∀ k, cell blank file k = cell blank file' k)
    (hlength : max file.length (endOf ws) = max file'.length (endOf ws)) :
    writeAll blank file ws = writeAll blank file' ws :=
  ext_cell blank (by rw [length_writeAll, length_writeAll, hlength]) fun k _ =>
    cell_writeAll_congr h k

/-- Writes that are pairwise apart may be done in any order. -/
theorem writeAll_perm (hperm : ws.Perm ws') (hapart : ws.Pairwise Apart) (file : List α) :
    writeAll blank file ws = writeAll blank file ws' := by
  induction hperm generalizing file with
  | nil => rfl
  | cons w _ ih => exact ih hapart.of_cons _
  | swap w w' ws =>
    have h : Apart w' w := (List.pairwise_cons.mp hapart).1 w List.mem_cons_self
    rw [writeAll_cons, writeAll_cons, writeAll_cons, writeAll_cons, pwrite_comm h]
  | trans h₁ _ ih₁ ih₂ =>
    have hsymm : ∀ w w' : Nat × List α, Apart w w' → Apart w' w :=
      fun w w' h k hw' hw => h k hw hw'
    rw [ih₁ hapart, ih₂ (h₁.pairwise hapart (hsymm _ _))]

/-- A write may be done before others that it is apart from. -/
theorem pwrite_writeAll (h : ∀ w' ∈ ws, Apart w w') (file : List α) :
    pwrite blank (writeAll blank file ws) w.1 w.2 =
      writeAll blank (pwrite blank file w.1 w.2) ws := by
  induction ws generalizing file with
  | nil => rfl
  | cons w' ws ih =>
    rw [writeAll_cons, ih fun w'' hw'' => h w'' (List.mem_cons_of_mem w' hw''), writeAll_cons,
      pwrite_comm (h w' List.mem_cons_self)]

end WriteAll

end PositionalWrite
