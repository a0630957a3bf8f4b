import Mathlib.Data.List.Basic

/-!
# Cutting into chunks

A `Cutter` says how long the first chunk of a sequence is. Cutting a whole sequence takes one
chunk after the other. A reader that gets the sequence in parts cuts whenever it holds a minimum
of items. The two give the same chunks exactly when every part ends less than the minimum behind
the start of a chunk (`feedAll_eq_chunks_iff`).
-/

namespace Framing

/-- A rule for the length of the first chunk. Of a sequence that ends inside of its first chunk
all that is there is cut off. -/
structure Cutter (α : Type*) where
  cut : List α → Nat
  cut_pos : ∀ {l}, l ≠ [] → 0 < cut l
  cut_take : ∀ l n, cut (l.take n) = min (cut l) n

namespace Cutter

variable {α : Type*} (s : Cutter α)

def chunksAux : Nat → List α → List (List α)
  | 0, _ => []
  | _ + 1, [] => []
  | n + 1, x :: l => (x :: l).take (s.cut (x :: l)) :: chunksAux n ((x :: l).drop (s.cut (x :: l)))

def chunks (l : List α) : List (List α) := s.chunksAux l.length l

inductive IsStart (l : List α) : Nat → Prop
  | zero : IsStart l 0
  | next {c : Nat} : IsStart l c → c < l.length → IsStart l (c + s.cut (l.drop c))

/-- Chunks are cut off, at most `n` of them, as long as `m` items are there. -/
def drainAux (m : Nat) : Nat → List α → List (List α) × List α
  | 0, buffer => ([], buffer)
  | n + 1, buffer =>
    if m ≤ buffer.length then
      (buffer.take (s.cut buffer) :: (drainAux m n (buffer.drop (s.cut buffer))).1,
        (drainAux m n (buffer.drop (s.cut buffer))).2)
    else ([], buffer)

/-- The chunks that are cut off as long as `m` items are there, and what is left over. -/
def drain (m : Nat) (buffer : List α) : List (List α) × List α :=
  s.drainAux m buffer.length buffer

/-- The chunks that are cut off as the parts arrive, and what is left over at the end. -/
def feedAll (m : Nat) : List α → List (List α) → List (List α) × List α
  | buffer, [] => ([], buffer)
  | buffer, part :: parts =>
    ((s.drain m (buffer ++ part)).1 ++ (feedAll m (s.drain m (buffer ++ part)).2 parts).1,
      (feedAll m (s.drain m (buffer ++ part)).2 parts).2)

/-- What is left over in the end is the last chunk. -/
def remainder (buffer : List α) : List (List α) := if buffer = [] then [] else [buffer]

variable {s}

theorem cut_nil : s.cut [] = 0 := by
  have h := s.cut_take [] 0
  rw [List.take_zero] at h
  omega

theorem cut_le (l : List α) : s.cut l ≤ l.length := by
  have h := s.cut_take l l.length
  rw [List.take_length] at h
  omega

theorem length_drop_cut_lt {l : List α} (h : l ≠ []) : (l.drop (s.cut l)).length < l.length := by
  have hcut := s.cut_pos h
  have hlength := List.length_pos_of_ne_nil h
  rw [List.length_drop]
  omega

section Chunks

theorem chunksAux_of_le {l : List α} {m n : Nat} (hm : l.length ≤ m) (hn : l.length ≤ n) :
    s.chunksAux m l = s.chunksAux n l := by
  induction m generalizing l n with
  | zero =>
    rw [List.eq_nil_of_length_eq_zero (Nat.le_zero.mp hm)]
    cases n <;> rfl
  | succ m ih =>
    cases l with
    | nil => cases n <;> rfl
    | cons x l =>
      cases n with
      | zero => simp at hn
      | succ n =>
        have hlt := s.length_drop_cut_lt (List.cons_ne_nil x l)
        rw [chunksAux, chunksAux, ih (n := n) (by omega) (by omega)]

@[simp] theorem chunks_nil : s.chunks [] = [] := rfl

theorem chunks_of_ne_nil {l : List α} (h : l ≠ []) :
    s.chunks l = l.take (s.cut l) :: s.chunks (l.drop (s.cut l)) := by
  have hlt := s.length_drop_cut_lt h
  have hone : s.chunks l = s.chunksAux (l.length + 1) l :=
    chunksAux_of_le (Nat.le_refl _) (Nat.le_succ _)
  rw [hone, chunks, chunksAux_of_le (Nat.le_refl _) (Nat.le_of_lt hlt)]
  cases l with
  | nil => exact absurd rfl h
  | cons x l => rfl

/-- Facts about chunks by induction on them. -/
theorem chunks_induction {motive : List α → Prop} (nil : motive [])
    (chunk : ∀ l, l ≠ [] → motive (l.drop (s.cut l)) → motive l) (l : List α) : motive l := by
  induction hn : l.length using Nat.strongRecOn generalizing l with
  | ind n ih =>
    by_cases h : l = []
    · exact h ▸ nil
    · exact chunk l h (ih _ (hn ▸ s.length_drop_cut_lt h) _ rfl)

/-- The chunks put together again are the sequence. -/
theorem flatten_chunks (l : List α) : (s.chunks l).flatten = l := by
  induction l using s.chunks_induction with
  | nil => rfl
  | chunk l h ih => rw [chunks_of_ne_nil h, List.flatten_cons, ih, List.take_append_drop]

/-- A chunk is a beginning of what is left of the sequence where it is cut off. -/
theorem exists_of_mem_chunks {l chunk : List α} (h : chunk ∈ s.chunks l) :
    ∃ rest, rest ≠ [] ∧ chunk = rest.take (s.cut rest) := by
  induction l using s.chunks_induction with
  | nil => simp at h
  | chunk l hl ih =>
    rw [chunks_of_ne_nil hl, List.mem_cons] at h
    obtain rfl | h := h
    · exact ⟨l, hl, rfl⟩
    · exact ih h

theorem ne_nil_of_mem_chunks {l chunk : List α} (h : chunk ∈ s.chunks l) : chunk ≠ [] := by
  obtain ⟨rest, hrest, rfl⟩ := exists_of_mem_chunks h
  have hcut := s.cut_pos hrest
  rw [Ne, List.take_eq_nil_iff]
  rintro (h | h)
  · omega
  · exact hrest h

/-- Behind every chunk but the last one there is more of the sequence. -/
theorem exists_of_mem_dropLast {l chunk : List α} (h : chunk ∈ (s.chunks l).dropLast) :
    ∃ rest, s.cut rest < rest.length ∧ chunk = rest.take (s.cut rest) := by
  induction l using s.chunks_induction with
  | nil => simp at h
  | chunk l hl ih =>
    rw [chunks_of_ne_nil hl] at h
    by_cases hrest : l.drop (s.cut l) = []
    · simp [hrest] at h
    · have hmore := s.chunks_of_ne_nil hrest
      rw [List.dropLast_cons_of_ne_nil (by rw [hmore]; exact List.cons_ne_nil _ _),
        List.mem_cons] at h
      obtain rfl | h := h
      · refine ⟨l, ?_, rfl⟩
        rw [List.drop_eq_nil_iff] at hrest
        omega
      · exact ih h

end Chunks

section Starts

variable {l : List α} {c : Nat}

theorem isStart_cut (h : l ≠ []) : s.IsStart l (s.cut l) := by
  have hnext := IsStart.next (s := s) .zero (List.length_pos_of_ne_nil h)
  rwa [Nat.zero_add, List.drop_zero] at hnext

/-- The starts behind the first chunk are those of what is left when it is cut off. -/
theorem isStart_iff (h : l ≠ []) : s.IsStart l c ↔
    c = 0 ∨ ∃ c', c = s.cut l + c' ∧ s.IsStart (l.drop (s.cut l)) c' := by
  constructor
  · intro hc
    induction hc with
    | zero => exact .inl rfl
    | next hc hlt ih =>
      right
      obtain rfl | ⟨c', rfl, hc'⟩ := ih
      · exact ⟨0, by rw [List.drop_zero, Nat.zero_add, Nat.add_zero], .zero⟩
      · refine ⟨c' + s.cut ((l.drop (s.cut l)).drop c'), ?_, hc'.next ?_⟩
        · rw [List.drop_drop, Nat.add_assoc]
        · rw [List.length_drop]
          omega
  · rintro (rfl | ⟨c', rfl, hc'⟩)
    · exact .zero
    · induction hc' with
      | zero => exact isStart_cut h
      | @next c' hc' hlt ih =>
        rw [List.length_drop] at hlt
        have hnext := ih.next (by omega)
        rwa [← List.drop_drop, Nat.add_assoc] at hnext

/-- The position lies less than `m` behind the start of a chunk. -/
def NearStart (s : Cutter α) (m : Nat) (l : List α) (k : Nat) : Prop :=
  ∃ c, s.IsStart l c ∧ c ≤ k ∧ k < c + m

variable {m k : Nat}

theorem nearStart_of_lt (h : k < m) : s.NearStart m l k :=
  ⟨0, .zero, Nat.zero_le _, by omega⟩

theorem nearStart_of_lt_cut (h : k < s.cut l) : s.NearStart m l k ↔ k < m := by
  constructor
  · rintro ⟨c, hc, hle, hlt⟩
    have hl : l ≠ [] := by
      rintro rfl
      rw [cut_nil] at h
      omega
    obtain rfl | ⟨c', rfl, -⟩ := (isStart_iff hl).mp hc
    · omega
    · omega
  · exact nearStart_of_lt

theorem nearStart_of_cut_le (hl : l ≠ []) (h : s.cut l ≤ k) :
    s.NearStart m l k ↔ s.NearStart m (l.drop (s.cut l)) (k - s.cut l) := by
  constructor
  · rintro ⟨c, hc, hle, hlt⟩
    obtain rfl | ⟨c', rfl, hc'⟩ := (isStart_iff hl).mp hc
    · exact ⟨0, .zero, Nat.zero_le _, by omega⟩
    · exact ⟨c', hc', by omega, by omega⟩
  · rintro ⟨c', hc', hle, hlt⟩
    exact ⟨s.cut l + c', (isStart_iff hl).mpr (.inr ⟨c', rfl, hc'⟩), by omega, by omega⟩

theorem nearStart_length (hm : 0 < m) (l : List α) : s.NearStart m l l.length := by
  induction l using s.chunks_induction with
  | nil => exact nearStart_of_lt hm
  | chunk l hl ih =>
    rw [nearStart_of_cut_le hl (cut_le l)]
    rwa [List.length_drop] at ih

end Starts

section Streaming

variable {m : Nat}

theorem drainAux_of_le (hm : 0 < m) {buffer : List α} {i j : Nat} (hi : buffer.length ≤ i)
    (hj : buffer.length ≤ j) : s.drainAux m i buffer = s.drainAux m j buffer := by
  induction i generalizing buffer j with
  | zero =>
    cases j with
    | zero => rfl
    | succ j => rw [drainAux, drainAux, if_neg (by omega)]
  | succ i ih =>
    cases j with
    | zero => rw [drainAux, drainAux, if_neg (by omega)]
    | succ j =>
      rw [drainAux, drainAux]
      split
      · have hlt := s.length_drop_cut_lt (List.ne_nil_of_length_pos (by omega : 0 < buffer.length))
        rw [ih (j := j) (by omega) (by omega)]
      · rfl

theorem drain_of_lt {buffer : List α} (h : buffer.length < m) :
    s.drain m buffer = ([], buffer) := by
  rw [drain]
  cases buffer.length with
  | zero => rfl
  | succ n => rw [drainAux, if_neg (by omega)]

theorem drain_of_le (hm : 0 < m) {buffer : List α} (h : m ≤ buffer.length) :
    s.drain m buffer = (buffer.take (s.cut buffer) :: (s.drain m (buffer.drop (s.cut buffer))).1,
      (s.drain m (buffer.drop (s.cut buffer))).2) := by
  have hlt := s.length_drop_cut_lt (List.ne_nil_of_length_pos (by omega : 0 < buffer.length))
  rw [drain, drainAux_of_le hm (j := buffer.length + 1) (Nat.le_refl _) (Nat.le_succ _), drainAux,
    if_pos h, drainAux_of_le hm (Nat.le_of_lt hlt) (Nat.le_refl _), drain]

theorem flatten_drain (hm : 0 < m) (buffer : List α) :
    (s.drain m buffer).1.flatten ++ (s.drain m buffer).2 = buffer := by
  induction buffer using s.chunks_induction with
  | nil => rfl
  | chunk buffer _ ih =>
    by_cases h : m ≤ buffer.length
    · rw [drain_of_le hm h, List.flatten_cons, List.append_assoc, ih, List.take_append_drop]
    · rw [drain_of_lt (by omega), List.flatten_nil, List.nil_append]

theorem length_drain_lt (hm : 0 < m) (buffer : List α) : (s.drain m buffer).2.length < m := by
  induction buffer using s.chunks_induction with
  | nil => exact hm
  | chunk buffer _ ih =>
    by_cases h : m ≤ buffer.length
    · rwa [drain_of_le hm h]
    · rw [drain_of_lt (by omega)]
      exact Nat.lt_of_not_le h

/-- The buffer holds the beginning of a sequence. As long as its end is near the start of a
chunk, what is cut off are chunks of the sequence. -/
theorem drain_of_nearStart (hm : 0 < m) {buffer more : List α}
    (h : s.NearStart m (buffer ++ more) buffer.length) :
    s.chunks (buffer ++ more) = (s.drain m buffer).1 ++ s.chunks ((s.drain m buffer).2 ++ more) ∧
      ∀ k, s.NearStart m (buffer ++ more) (buffer.length + k) ↔
        s.NearStart m ((s.drain m buffer).2 ++ more) ((s.drain m buffer).2.length + k) := by
  induction buffer using s.chunks_induction with
  | nil => exact ⟨rfl, fun _ => Iff.rfl⟩
  | chunk buffer hbuffer ih =>
    by_cases hlt : buffer.length < m
    · rw [drain_of_lt hlt]
      exact ⟨rfl, fun _ => Iff.rfl⟩
    -- the chunk of the buffer is the chunk of the sequence, unless the sequence goes on in it
    have hcut : s.cut buffer = min (s.cut (buffer ++ more)) buffer.length := by
      have htake := s.cut_take (buffer ++ more) buffer.length
      rwa [List.take_left] at htake
    have hwithin : s.cut (buffer ++ more) ≤ buffer.length := by
      by_contra hover
      exact hlt ((nearStart_of_lt_cut (by omega)).mp h)
    have hsame : s.cut (buffer ++ more) = s.cut buffer := by omega
    have hne : buffer ++ more ≠ [] := by simp [hbuffer]
    have hdrop : (buffer ++ more).drop (s.cut buffer) = buffer.drop (s.cut buffer) ++ more :=
      List.drop_append_of_le_length (by omega)
    have hshift : ∀ k, s.NearStart m (buffer ++ more) (buffer.length + k) ↔
        s.NearStart m (buffer.drop (s.cut buffer) ++ more)
          ((buffer.drop (s.cut buffer)).length + k) := by
      intro k
      rw [nearStart_of_cut_le hne (by omega), hsame, hdrop, List.length_drop,
        Nat.sub_add_comm (cut_le buffer)]
    obtain ⟨hchunks, hnear⟩ := ih ((hshift 0).mp h)
    rw [drain_of_le hm (by omega), chunks_of_ne_nil hne, hsame, hdrop, hchunks,
      List.take_append_of_le_length (cut_le buffer)]
    exact ⟨rfl, fun k => (hshift k).trans (hnear k)⟩

/-- When the end of the buffer is not near the start of a chunk, a chunk is cut off that is
none of the sequence. -/
theorem drain_append_ne (hm : 0 < m) {buffer more : List α}
    (h : ¬s.NearStart m (buffer ++ more) buffer.length) (others : List (List α)) :
    (s.drain m buffer).1 ++ others ≠ s.chunks (buffer ++ more) := by
  induction buffer using s.chunks_induction with
  | nil => exact absurd (nearStart_of_lt hm) h
  | chunk buffer hbuffer ih =>
    have hle : m ≤ buffer.length := by
      by_contra hlt
      exact h (nearStart_of_lt (by omega))
    have hcut : s.cut buffer = min (s.cut (buffer ++ more)) buffer.length := by
      have htake := s.cut_take (buffer ++ more) buffer.length
      rwa [List.take_left] at htake
    have hne : buffer ++ more ≠ [] := by simp [hbuffer]
    rw [drain_of_le hm hle, chunks_of_ne_nil hne, List.cons_append, Ne, List.cons.injEq]
    rintro ⟨hhead, htail⟩
    have hlength := congrArg List.length hhead
    rw [List.length_take, List.length_take, Nat.min_eq_left (cut_le _),
      Nat.min_eq_left (cut_le _)] at hlength
    have hdrop : (buffer ++ more).drop (s.cut (buffer ++ more)) =
        buffer.drop (s.cut buffer) ++ more := by
      rw [← hlength, List.drop_append_of_le_length (cut_le buffer)]
    rw [hdrop] at htail
    refine ih ?_ htail
    rw [nearStart_of_cut_le hne (by omega), hdrop, ← hlength] at h
    rwa [List.length_drop]

/-- Cutting as the parts arrive gives the chunks of the whole sequence exactly when every part
ends near the start of a chunk. -/
theorem feedAll_eq_chunks_iff (hm : 0 < m) (hmin : ∀ l : List α, l.length < m → s.cut l = l.length)
    {buffer : List α} (hbuffer : buffer.length < m) (parts : List (List α)) :
    (s.feedAll m buffer parts).1 ++ remainder (s.feedAll m buffer parts).2 =
        s.chunks (buffer ++ parts.flatten) ↔
      ∀ n, s.NearStart m (buffer ++ parts.flatten)
        (buffer.length + (parts.take n).flatten.length) := by
  induction parts generalizing buffer with
  | nil =>
    simp only [feedAll, List.nil_append, List.flatten_nil, List.append_nil, List.take_nil,
      List.length_nil, Nat.add_zero]
    refine iff_of_true ?_ fun _ => nearStart_length hm buffer
    rw [remainder]
    split
    · next h => rw [h, chunks_nil]
    · next h =>
      rw [chunks_of_ne_nil h, hmin buffer hbuffer, List.take_length, List.drop_length, chunks_nil]
  | cons part parts ih =>
    rw [List.flatten_cons, ← List.append_assoc, feedAll, List.append_assoc]
    by_cases hend : s.NearStart m (buffer ++ part ++ parts.flatten) (buffer ++ part).length
    · obtain ⟨hchunks, hnear⟩ := drain_of_nearStart hm hend
      rw [hchunks, List.append_cancel_left_eq, ih (length_drain_lt hm _)]
      constructor
      · intro h n
        cases n with
        | zero => exact nearStart_of_lt (by simpa using hbuffer)
        | succ n =>
          rw [List.take_succ_cons, List.flatten_cons, List.length_append, ← Nat.add_assoc,
            ← List.length_append, hnear]
          exact h n
      · intro h n
        have hn := h (n + 1)
        rwa [List.take_succ_cons, List.flatten_cons, List.length_append, ← Nat.add_assoc,
          ← List.length_append, hnear] at hn
    · refine iff_of_false (drain_append_ne hm hend _) fun h => hend ?_
      have hone := h 1
      simpa using hone

end Streaming

end Cutter

end Framing
