import Mathlib.Data.List.Basic

/-!
# Incremental framing

A `Splitter` takes the first frame off a buffer. Reading a stream in chunks means
joining every chunk to what the last one left over and taking frames off until none
is complete. The frames and what is left over then depend on the stream alone, not on
the chunks (`feedAll_eq_drain`).
-/

namespace Framing

structure Splitter (α φ : Type*) where
  split : List α → Option (φ × List α)
  length_lt : ∀ {buffer f rest}, split buffer = some (f, rest) → rest.length < buffer.length
  append : ∀ {buffer f rest} (more : List α),
    split buffer = some (f, rest) → split (buffer ++ more) = some (f, rest ++ more)

namespace Splitter

variable {α φ : Type*} (s : Splitter α φ)

/-- The complete frames of a buffer, at most `n` of them, and what they leave over. -/
def drainAux : Nat → List α → List φ × List α
  | 0, buffer => ([], buffer)
  | n + 1, buffer =>
    match s.split buffer with
    | none => ([], buffer)
    | some (f, rest) => (f :: (drainAux n rest).1, (drainAux n rest).2)

/-- The complete frames of a buffer and what they leave over. -/
def drain (buffer : List α) : List φ × List α := s.drainAux buffer.length buffer

/-- The frames of each chunk in turn and what is left over at the end. -/
def feedAll : List α → List (List α) → List φ × List α
  | buffer, [] => ([], buffer)
  | buffer, chunk :: chunks =>
    ((s.drain (buffer ++ chunk)).1 ++ (feedAll (s.drain (buffer ++ chunk)).2 chunks).1,
      (feedAll (s.drain (buffer ++ chunk)).2 chunks).2)

variable {s}

theorem drainAux_of_le {buffer : List α} {m n : Nat} (hm : buffer.length ≤ m)
    (hn : buffer.length ≤ n) : s.drainAux m buffer = s.drainAux n buffer := by
  have hnone : ∀ b : List α, b.length ≤ 0 → s.split b = none := by
    intro b hb
    cases hs : s.split b with
    | none => rfl
    | some p => exact absurd (s.length_lt hs) (by omega)
  induction m generalizing buffer n with
  | zero =>
    cases n with
    | zero => rfl
    | succ n => rw [drainAux, drainAux, hnone buffer hm]
  | succ m ih =>
    cases n with
    | zero => rw [drainAux, drainAux, hnone buffer hn]
    | succ n =>
      rw [drainAux, drainAux]
      cases hs : s.split buffer with
      | none => rfl
      | some p =>
        have hlt := s.length_lt hs
        have hrest : s.drainAux m p.2 = s.drainAux n p.2 := ih (by omega) (by omega)
        simp only [hrest]

theorem drain_of_none {buffer : List α} (h : s.split buffer = none) :
    s.drain buffer = ([], buffer) := by
  rw [drain, drainAux_of_le (n := buffer.length + 1) (Nat.le_refl _) (Nat.le_succ _), drainAux, h]

theorem drain_of_some {buffer rest : List α} {f : φ} (h : s.split buffer = some (f, rest)) :
    s.drain buffer = (f :: (s.drain rest).1, (s.drain rest).2) := by
  have hlt := s.length_lt h
  rw [drain, drainAux_of_le (n := buffer.length + 1) (Nat.le_refl _) (Nat.le_succ _), drainAux, h]
  simp only [drain, drainAux_of_le (Nat.le_of_lt hlt) (Nat.le_refl rest.length)]

/-- The first complete frame of a buffer is the one that is taken off first. -/
theorem split_of_drain_cons {buffer : List α} {f : φ} {frames : List φ}
    (h : (s.drain buffer).1 = f :: frames) :
    ∃ rest, s.split buffer = some (f, rest) ∧ (s.drain rest).1 = frames ∧
      (s.drain rest).2 = (s.drain buffer).2 := by
  cases hs : s.split buffer with
  | none => simp [drain_of_none hs] at h
  | some p =>
    obtain ⟨g, rest⟩ := p
    rw [drain_of_some hs] at h ⊢
    obtain ⟨rfl, rfl⟩ := List.cons.inj h
    exact ⟨rest, rfl, rfl, rfl⟩

/-- Taking frames off goes on until the first one is incomplete. -/
theorem split_drain (buffer : List α) : s.split (s.drain buffer).2 = none := by
  induction hn : buffer.length using Nat.strongRecOn generalizing buffer with
  | ind n ih =>
    cases hs : s.split buffer with
    | none => rwa [drain_of_none hs]
    | some p =>
      rw [drain_of_some hs]
      exact ih _ (hn ▸ s.length_lt hs) _ rfl

/-- What a buffer leaves over, joined to the octets that follow, gives the frames that
the octets add. -/
theorem drain_append (buffer more : List α) :
    s.drain (buffer ++ more) =
      ((s.drain buffer).1 ++ (s.drain ((s.drain buffer).2 ++ more)).1,
        (s.drain ((s.drain buffer).2 ++ more)).2) := by
  induction hn : buffer.length using Nat.strongRecOn generalizing buffer with
  | ind n ih =>
    cases hs : s.split buffer with
    | none =>
      rw [drain_of_none hs]
      rfl
    | some p =>
      rw [drain_of_some hs, drain_of_some (s.append more hs), ih _ (hn ▸ s.length_lt hs) _ rfl]
      rfl

/-- The frames of a stream do not depend on how it is cut into chunks. -/
theorem feedAll_eq_drain {buffer : List α} (h : s.split buffer = none) (chunks : List (List α)) :
    s.feedAll buffer chunks = s.drain (buffer ++ chunks.flatten) := by
  induction chunks generalizing buffer with
  | nil =>
    rw [List.flatten_nil, List.append_nil, drain_of_none h]
    rfl
  | cons chunk chunks ih =>
    rw [feedAll, ih (split_drain _), List.flatten_cons, ← List.append_assoc,
      drain_append (buffer ++ chunk)]

section Encoding

variable {encode : φ → List α}

/-- A buffer is the encodings of its complete frames and what they leave over. -/
theorem drain_eq_encode (h : ∀ {buffer f rest}, s.split buffer = some (f, rest) →
    buffer = encode f ++ rest) (buffer : List α) :
    buffer = (s.drain buffer).1.flatMap encode ++ (s.drain buffer).2 := by
  induction hn : buffer.length using Nat.strongRecOn generalizing buffer with
  | ind n ih =>
    cases hs : s.split buffer with
    | none =>
      rw [drain_of_none hs]
      rfl
    | some p =>
      rw [drain_of_some hs, List.flatMap_cons, List.append_assoc,
        ← ih _ (hn ▸ s.length_lt hs) _ rfl]
      exact h hs

/-- The frames of a stream of encoded frames. -/
theorem drain_encode (hnil : s.split [] = none) {frames : List φ}
    (h : ∀ f ∈ frames, ∀ rest, s.split (encode f ++ rest) = some (f, rest)) :
    s.drain (frames.flatMap encode) = (frames, []) := by
  induction frames with
  | nil => exact drain_of_none hnil
  | cons f frames ih =>
    rw [List.flatMap_cons, drain_of_some (h f List.mem_cons_self _),
      ih fun g hg => h g (List.mem_cons_of_mem f hg)]

/-- What has arrived of a stream of encoded frames holds the first of them, and what it
leaves over is the beginning of the others. -/
theorem drain_of_append_eq (hsound : ∀ {buffer f rest}, s.split buffer = some (f, rest) →
    buffer = encode f ++ rest) (hnil : s.split [] = none) {frames : List φ}
    (h : ∀ f ∈ frames, ∀ rest, s.split (encode f ++ rest) = some (f, rest))
    {fed more : List α} (he : fed ++ more = frames.flatMap encode) :
    (s.drain fed).1 = frames.take (s.drain fed).1.length ∧
      (s.drain fed).2 ++ more = (frames.drop (s.drain fed).1.length).flatMap encode := by
  have hd := drain_append (s := s) fed more
  rw [he, drain_encode hnil h, Prod.mk.injEq] at hd
  have hfst : (s.drain fed).1 = frames.take (s.drain fed).1.length := by
    rw [hd.1, List.take_left]
  refine ⟨hfst, ?_⟩
  have hall : (s.drain fed).1.flatMap encode ++ ((s.drain fed).2 ++ more) =
      frames.flatMap encode := by
    rw [← List.append_assoc, ← drain_eq_encode hsound fed, he]
  rw [← List.take_append_drop (s.drain fed).1.length frames, List.flatMap_append, ← hfst] at hall
  exact List.append_cancel_left hall

end Encoding

end Splitter

end Framing
