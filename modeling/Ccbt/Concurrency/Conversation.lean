import Mathlib.Logic.Relation

/-!
# Two processes and a pair of channels

A process writes to its channel, and reads from that of the other an exact number of items, for
which it waits. A step of one process can be taken before or after a step of the other with the same
result, so it does not matter in which order they run: the state in which neither can go on is the
only one of its kind.
-/

namespace Conversation

open Relation

inductive Proc (α ρ : Type)
  | write (data : List α) (next : Proc α ρ)
  | readexactly (n : Nat) (next : List α → Proc α ρ)
  | done (result : ρ)

/-- Both processes, and what has been written and not yet read. -/
structure State (α ρ : Type) where
  left : Proc α ρ
  right : Proc α ρ
  toRight : List α := []
  toLeft : List α := []

variable {α ρ : Type} {s t u q q' : State α ρ} {p r : Proc α ρ} {data a b : List α} {n : Nat}
  {next : List α → Proc α ρ}

namespace State

/-- A step of the process on the left, if it can go on. -/
def moveLeft (s : State α ρ) : Option (State α ρ) :=
  match s.left with
  | .write data next => some { s with left := next, toRight := s.toRight ++ data }
  | .readexactly n next =>
    if n ≤ s.toLeft.length then
      some { s with left := next (s.toLeft.take n), toLeft := s.toLeft.drop n }
    else none
  | .done _ => none

def moveRight (s : State α ρ) : Option (State α ρ) :=
  match s.right with
  | .write data next => some { s with right := next, toLeft := s.toLeft ++ data }
  | .readexactly n next =>
    if n ≤ s.toRight.length then
      some { s with right := next (s.toRight.take n), toRight := s.toRight.drop n }
    else none
  | .done _ => none

/-- A step of one of the processes. -/
def Moves (s t : State α ρ) : Prop := s.moveLeft = some t ∨ s.moveRight = some t

/-- Neither process can go on. -/
def Quiescent (s : State α ρ) : Prop := s.moveLeft = none ∧ s.moveRight = none

/-- What a process does is still possible, with the same result, when the other has moved. -/
theorem moveLeft_moveRight (hleft : s.moveLeft = some t) (hright : s.moveRight = some u) :
    ∃ v, t.moveRight = some v ∧ u.moveLeft = some v := by
  obtain ⟨left, right, toRight, toLeft⟩ := s
  unfold moveLeft at hleft
  unfold moveRight at hright
  cases left with
  | done result => cases hleft
  | write data next =>
    obtain rfl := Option.some.inj hleft
    cases right with
    | done result => cases hright
    | write data' next' =>
      obtain rfl := Option.some.inj hright
      exact ⟨_, rfl, rfl⟩
    | readexactly m next' =>
      dsimp only at hright
      split at hright
      · next hm =>
        obtain rfl := Option.some.inj hright
        -- what is written goes behind what is read
        refine ⟨⟨next, next' (toRight.take m), toRight.drop m ++ data, toLeft⟩, ?_, rfl⟩
        have hlonger : m ≤ (toRight ++ data).length := by
          rw [List.length_append]
          omega
        rw [moveRight]
        dsimp only
        rw [if_pos hlonger, List.take_append_of_le_length hm, List.drop_append_of_le_length hm]
      · cases hright
  | readexactly n next =>
    dsimp only at hleft
    split at hleft
    · next hn =>
      obtain rfl := Option.some.inj hleft
      cases right with
      | done result => cases hright
      | write data' next' =>
        obtain rfl := Option.some.inj hright
        refine ⟨⟨next (toLeft.take n), next', toRight, toLeft.drop n ++ data'⟩, rfl, ?_⟩
        have hlonger : n ≤ (toLeft ++ data').length := by
          rw [List.length_append]
          omega
        rw [moveLeft]
        dsimp only
        rw [if_pos hlonger, List.take_append_of_le_length hn, List.drop_append_of_le_length hn]
      | readexactly m next' =>
        dsimp only at hright
        split at hright
        · next hm =>
          obtain rfl := Option.some.inj hright
          exact ⟨_, if_pos hm, if_pos hn⟩
        · cases hright
    · cases hleft

/-- Two steps from one state are the same or lead to a common state. -/
theorem moves_diamond (ht : Moves s t) (hu : Moves s u) :
    ∃ v, ReflGen Moves t v ∧ ReflTransGen Moves u v := by
  rcases ht with ht | ht
  · rcases hu with hu | hu
    · obtain rfl := Option.some.inj (ht.symm.trans hu)
      exact ⟨t, .refl, .refl⟩
    · obtain ⟨v, hv, hv'⟩ := moveLeft_moveRight ht hu
      exact ⟨v, .single (.inr hv), .single (.inl hv')⟩
  · rcases hu with hu | hu
    · obtain ⟨v, hv, hv'⟩ := moveLeft_moveRight hu ht
      exact ⟨v, .single (.inl hv'), .single (.inr hv)⟩
    · obtain rfl := Option.some.inj (ht.symm.trans hu)
      exact ⟨t, .refl, .refl⟩

theorem Quiescent.eq_of_reaches (h : s.Quiescent) (hst : ReflTransGen Moves s t) : t = s := by
  refine (ReflTransGen.cases_head hst).elim Eq.symm ?_
  rintro ⟨u, hu | hu, -⟩
  · rw [h.1] at hu
    cases hu
  · rw [h.2] at hu
    cases hu

/-- All runs that come to an end do so in the same state. -/
theorem quiescent_unique (hq : ReflTransGen Moves s q) (h : q.Quiescent)
    (hq' : ReflTransGen Moves s q') (h' : q'.Quiescent) : q = q' := by
  obtain ⟨v, hv, hv'⟩ := church_rosser (fun _ _ _ => moves_diamond) hq hq'
  rw [← h.eq_of_reaches hv, h'.eq_of_reaches hv']

/-! ### Runs step by step -/

theorem reaches_write_left (h : ReflTransGen Moves ⟨p, r, a ++ data, b⟩ q) :
    ReflTransGen Moves ⟨.write data p, r, a, b⟩ q := .head (.inl rfl) h

theorem reaches_write_right (h : ReflTransGen Moves ⟨p, r, a, b ++ data⟩ q) :
    ReflTransGen Moves ⟨p, .write data r, a, b⟩ q := .head (.inr rfl) h

theorem reaches_read_left (hn : data.length = n)
    (h : ReflTransGen Moves ⟨next data, r, a, b⟩ q) :
    ReflTransGen Moves ⟨.readexactly n next, r, a, data ++ b⟩ q := by
  refine .head (.inl ?_) h
  have hle : n ≤ (data ++ b).length := by
    rw [List.length_append]
    omega
  rw [moveLeft]
  dsimp only
  rw [if_pos hle, List.take_left' hn, List.drop_left' hn]

theorem reaches_read_right (hn : data.length = n)
    (h : ReflTransGen Moves ⟨p, next data, a, b⟩ q) :
    ReflTransGen Moves ⟨p, .readexactly n next, data ++ a, b⟩ q := by
  refine .head (.inr ?_) h
  have hle : n ≤ (data ++ a).length := by
    rw [List.length_append]
    omega
  rw [moveRight]
  dsimp only
  rw [if_pos hle, List.take_left' hn, List.drop_left' hn]

end State

end Conversation
