import Mathlib.Data.List.Flatten
import Mathlib.Logic.Function.Basic

/-!
# Steps on files, and where they can be stopped

A file is truncated, gets items at its end, and is synced. A program is a list of such steps, and it
may be stopped between two of them or within a writing. A file that is replaced in place then is as
it was, or holds a beginning of its new content.
-/

namespace Crash

variable {P α : Type*}

inductive Step (α : Type*)
  | truncate
  | write (items : List α)
  | sync

/-- The contents of the files, `none` where there is no file. -/
abbrev Files (P α : Type*) := P → Option (List α)

/-- What a step makes of a content. -/
def Step.content : Step α → Option (List α) → Option (List α)
  | truncate, _ => some []
  | write items, content => some (content.getD [] ++ items)
  | sync, content => content

/-- The file is synced, if the program comes to that. -/
def syncing (path : P) (synced : Bool) : List (P × Step α) :=
  if synced then [(path, .sync)] else []

/-- A file is replaced in place: it is truncated, written part by part, and synced. -/
def replace (path : P) (writes : List (List α)) (synced : Bool) : List (P × Step α) :=
  (path, .truncate) :: ((writes.map fun items => (path, .write items)) ++ syncing path synced)

variable [DecidableEq P]

def apply (files : Files P α) (s : P × Step α) : Files P α :=
  Function.update files s.1 (s.2.content (files s.1))

def perform (files : Files P α) (steps : List (P × Step α)) : Files P α :=
  steps.foldl apply files

/-- The steps may be stopped with these files. -/
inductive StopsAt : Files P α → List (P × Step α) → Files P α → Prop
  | now (files : Files P α) (steps : List (P × Step α)) : StopsAt files steps files
  | within (files : Files P α) (path : P) (items : List α) (n : Nat) (steps : List (P × Step α)) :
    StopsAt files ((path, .write items) :: steps) (apply files (path, .write (items.take n)))
  | later {files files' : Files P α} {s : P × Step α} {steps : List (P × Step α)}
    (h : StopsAt (apply files s) steps files') : StopsAt files (s :: steps) files'

variable {files files' : Files P α} {steps steps' : List (P × Step α)} {path : P}
  {writes : List (List α)}

section Rules

@[simp] theorem perform_cons (files : Files P α) (s : P × Step α) (steps : List (P × Step α)) :
    perform files (s :: steps) = perform (apply files s) steps := rfl

theorem perform_append (files : Files P α) (steps steps' : List (P × Step α)) :
    perform files (steps ++ steps') = perform (perform files steps) steps' := List.foldl_append

theorem apply_self (files : Files P α) (path : P) (s : Step α) :
    apply files (path, s) path = s.content (files path) := Function.update_self _ _ _

theorem StopsAt.nil (h : StopsAt files ([] : List (P × Step α)) files') : files' = files := by
  cases h
  rfl

/-- Two programs one after the other are stopped in the first or in the second. -/
theorem stopsAt_append_iff : StopsAt files (steps ++ steps') files' ↔
    StopsAt files steps files' ∨ StopsAt (perform files steps) steps' files' := by
  induction steps generalizing files with
  | nil =>
    refine ⟨.inr, fun h => h.elim (fun hnil => ?_) id⟩
    rw [hnil.nil]
    exact .now files steps'
  | cons s steps ih =>
    constructor
    · intro h
      cases h with
      | now => exact .inl (.now _ _)
      | within => exact .inl (.within _ _ _ _ _)
      | later h => exact (ih.mp h).imp .later id
    · rintro (h | h)
      · cases h with
        | now => exact .now _ _
        | within => exact .within _ _ _ _ _
        | later h => exact .later (ih.mpr (.inl h))
      · exact .later (ih.mpr (.inr h))

end Rules

section Replacing

theorem StopsAt.syncing {synced : Bool} (h : StopsAt files (syncing path synced) files') :
    files' = files := by
  cases synced with
  | false => exact h.nil
  | true =>
    cases h with
    | now => rfl
    | later h => exact h.nil.trans (Function.update_eq_self path files)

theorem StopsAt.written {done : List α} {synced : Bool} (hdone : files path = some done)
    (h : StopsAt files ((writes.map fun items => (path, .write items)) ++
      Crash.syncing path synced) files') :
    ∃ n, files' = Function.update files path (some (done ++ writes.flatten.take n)) := by
  induction writes generalizing files done with
  | nil =>
    refine ⟨0, ?_⟩
    rw [h.syncing, List.take_zero, List.append_nil, ← hdone, Function.update_eq_self]
  | cons items writes ih =>
    cases h with
    | now => exact ⟨0, by rw [List.take_zero, List.append_nil, ← hdone, Function.update_eq_self]⟩
    | within _ _ _ n =>
      refine ⟨min n items.length, ?_⟩
      rw [apply, Step.content, hdone, Option.getD_some, List.flatten_cons,
        List.take_append_of_le_length (Nat.min_le_right _ _), ← List.take_eq_take_min]
    | later h =>
      have hnext : apply files (path, .write items) path = some (done ++ items) := by
        rw [apply_self, Step.content, hdone, Option.getD_some]
      obtain ⟨n, hn⟩ := ih hnext h
      refine ⟨items.length + n, ?_⟩
      rw [hn, apply, Function.update_idem, List.flatten_cons, List.take_length_add_append,
        List.append_assoc]

theorem stopsAt_written {done : List α} {synced : Bool} (hdone : files path = some done) (n : Nat) :
    StopsAt files ((writes.map fun items => (path, .write items)) ++ syncing path synced)
      (Function.update files path (some (done ++ writes.flatten.take n))) := by
  induction writes generalizing files done n with
  | nil =>
    rw [List.flatten_nil, List.take_nil, List.append_nil, ← hdone, Function.update_eq_self]
    exact .now _ _
  | cons items writes ih =>
    rcases Nat.le_total n items.length with hle | hle
    · have hpart : Function.update files path (some (done ++ (items :: writes).flatten.take n)) =
          apply files (path, .write (items.take n)) := by
        rw [apply, Step.content, hdone, Option.getD_some, List.flatten_cons,
          List.take_append_of_le_length hle]
      rw [hpart]
      exact .within _ _ _ _ _
    · obtain ⟨m, rfl⟩ := Nat.exists_eq_add_of_le hle
      have hnext : apply files (path, .write items) path = some (done ++ items) := by
        rw [apply_self, Step.content, hdone, Option.getD_some]
      have hrest := ih hnext m
      rw [apply, Function.update_idem, List.append_assoc] at hrest
      rw [List.flatten_cons, List.take_length_add_append]
      exact .later hrest

/-- **When the replacing of a file is stopped, the file is as it was, or it holds a beginning of its
new content.** -/
theorem stopsAt_replace_iff {synced : Bool} : StopsAt files (replace path writes synced) files' ↔
    files' = files ∨ ∃ n, files' = Function.update files path (some (writes.flatten.take n)) := by
  have htruncated : apply files (path, .truncate) path = some [] := apply_self files path .truncate
  have hidem : ∀ content, Function.update (apply files (path, .truncate)) path content =
      Function.update files path content := fun content => Function.update_idem _ _ _
  constructor
  · intro h
    cases h with
    | now => exact .inl rfl
    | later h =>
      obtain ⟨n, hn⟩ := StopsAt.written htruncated h
      exact .inr ⟨n, by rw [hn, hidem, List.nil_append]⟩
  · rintro (rfl | ⟨n, rfl⟩)
    · exact .now _ _
    · have hstop : StopsAt (apply files (path, .truncate))
          ((writes.map fun items => (path, .write items)) ++ syncing path synced)
          (Function.update (apply files (path, .truncate)) path
            (some ([] ++ writes.flatten.take n))) := stopsAt_written htruncated n
      rw [hidem, List.nil_append] at hstop
      exact .later hstop

theorem perform_written {done : List α} (hdone : files path = some done) (synced : Bool) :
    perform files ((writes.map fun items => (path, .write items)) ++ syncing path synced) =
      Function.update files path (some (done ++ writes.flatten)) := by
  induction writes generalizing files done with
  | nil =>
    rw [List.flatten_nil, List.append_nil, ← hdone, Function.update_eq_self]
    cases synced with
    | false => rfl
    | true => exact Function.update_eq_self path files
  | cons items writes ih =>
    have hnext : apply files (path, .write items) path = some (done ++ items) := by
      rw [apply_self, Step.content, hdone, Option.getD_some]
    rw [List.map_cons, List.cons_append, perform_cons, ih hnext, apply, Function.update_idem,
      List.flatten_cons, List.append_assoc]

/-- The replacing of a file, when it is not stopped. -/
theorem perform_replace (files : Files P α) (path : P) (writes : List (List α)) (synced : Bool) :
    perform files (replace path writes synced) =
      Function.update files path (some writes.flatten) := by
  have htruncated : apply files (path, .truncate) path = some [] := apply_self files path .truncate
  rw [replace, perform_cons, perform_written htruncated, List.nil_append, apply,
    Function.update_idem]

end Replacing

end Crash
