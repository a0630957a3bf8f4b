import Mathlib.Data.List.Basic

/-!
# Readers

A reader takes a value off the front of what is left of a sequence, or fails. The sequence that is
left stands for a position in it that moves on. `Reads` says that a reader takes exactly a word for
a value, `Sound` what words it takes and `Raises` what it fails with; all of these go through the
ways of putting readers together.
-/

namespace Framing

/-- A reader: a value and what is left, or an error. -/
def Reader (τ ε α : Type) := List τ → Except ε (α × List τ)

namespace Reader

variable {τ ε α β : Type}

instance : Monad (Reader τ ε) where
  pure a := fun s => .ok (a, s)
  bind r f := fun s =>
    match r s with
    | .error e => .error e
    | .ok (a, rest) => f a rest

/-- The next `n` items, or the error when there are less of them. -/
def items (n : Nat) (e : ε) : Reader τ ε (List τ) := fun s =>
  if s.length < n then .error e else .ok (s.take n, s.drop n)

/-- A computation that reads nothing. -/
def lift (x : Except ε α) : Reader τ ε α := fun s => x.map fun a => (a, s)

/-- A loop of `n` rounds, numbered from `i` on, that carries a value along. -/
def loop (body : Nat → β → Reader τ ε β) : Nat → Nat → β → Reader τ ε β
  | _, 0, b => pure b
  | i, n + 1, b => do
    let b ← body i b
    loop body (i + 1) n b

/-- In front of anything the reader takes exactly this word, for this value. -/
def Reads (r : Reader τ ε α) (word : List τ) (a : α) : Prop :=
  ∀ rest, r (word ++ rest) = .ok (a, rest)

/-- What the reader takes is a word of the language for the value. -/
def Sound (r : Reader τ ε α) (language : List τ → α → Prop) : Prop :=
  ∀ s a rest, r s = .ok (a, rest) → ∃ word, s = word ++ rest ∧ language word a

variable {r : Reader τ ε α} {f : α → Reader τ ε β} {word word' : List τ} {a : α} {b : β}
  {language : List τ → α → Prop}

theorem bind_of_ok {s rest : List τ} (h : r s = .ok (a, rest)) : (r >>= f) s = f a rest := by
  simp only [Bind.bind, h]

theorem bind_of_error {s : List τ} {e : ε} (h : r s = .error e) : (r >>= f) s = .error e := by
  simp only [Bind.bind, h]

section Reads

theorem reads_pure (a : α) : (pure a : Reader τ ε α).Reads [] a := fun _ => rfl

theorem Reads.bind_apply (h : r.Reads word a) (rest : List τ) :
    (r >>= f) (word ++ rest) = f a rest := bind_of_ok (h rest)

theorem Reads.bind (h : r.Reads word a) (hf : (f a).Reads word' b) :
    (r >>= f).Reads (word ++ word') b := by
  intro rest
  rw [List.append_assoc, h.bind_apply]
  exact hf rest

theorem reads_items {n : Nat} (h : word.length = n) (e : ε) : (items n e).Reads word word := by
  intro rest
  have hle : ¬(word ++ rest).length < n := by
    rw [List.length_append]
    omega
  rw [items, if_neg hle, List.take_left' h, List.drop_left' h]

theorem reads_lift {x : Except ε α} (h : x = .ok a) : (lift x : Reader τ ε α).Reads [] a := by
  subst h
  exact fun _ => rfl

/-- A reader that does not look at the sequence goes in front of one that does. -/
theorem Reads.bind_nil (h : r.Reads [] a) (hf : (f a).Reads word b) : (r >>= f).Reads word b :=
  h.bind hf

/-- A reader that does not look at the sequence goes behind one that does. -/
theorem Reads.bind_end (h : r.Reads word a) (hf : (f a).Reads [] b) :
    (r >>= f).Reads word b := by
  have hbind := h.bind hf
  rwa [List.append_nil] at hbind

theorem Reads.map (h : r.Reads word a) (g : α → β) :
    (r >>= fun x => pure (g x)).Reads word (g a) :=
  h.bind_end (reads_pure (g a))

/-- A loop reads the words that its rounds read one after the other. -/
theorem reads_loop {body : Nat → β → Reader τ ε β} {γ : Type} {encode : γ → List τ}
    {next : β → γ → β} (xs : List γ)
    (h : ∀ i b, ∀ x ∈ xs, (body i b).Reads (encode x) (next b x)) (i : Nat) (b : β) :
    (loop body i xs.length b).Reads (xs.flatMap encode) (xs.foldl next b) := by
  induction xs generalizing i b with
  | nil => exact reads_pure b
  | cons x xs ih =>
    rw [List.flatMap_cons]
    exact (h i b x List.mem_cons_self).bind
      (ih (fun i b y hy => h i b y (List.mem_cons_of_mem x hy)) (i + 1) (next b x))

end Reads

section Sound

theorem Sound.mono {language' : List τ → α → Prop} (h : r.Sound language)
    (hle : ∀ word a, language word a → language' word a) : r.Sound language' := by
  intro s a rest hs
  obtain ⟨word, hword, ha⟩ := h s a rest hs
  exact ⟨word, hword, hle word a ha⟩

theorem sound_pure (a : α) : (pure a : Reader τ ε α).Sound fun word b => word = [] ∧ b = a := by
  intro s b rest hs
  obtain ⟨rfl, rfl⟩ := Prod.mk.inj (Except.ok.inj hs)
  exact ⟨[], rfl, rfl, rfl⟩

theorem Sound.bind {language' : α → List τ → β → Prop} (h : r.Sound language)
    (hf : ∀ a, (f a).Sound (language' a)) :
    (r >>= f).Sound fun word b =>
      ∃ u v a, word = u ++ v ∧ language u a ∧ language' a v b := by
  intro s b rest hs
  cases hr : r s with
  | error e =>
    rw [bind_of_error hr] at hs
    cases hs
  | ok p =>
    obtain ⟨a, s'⟩ := p
    rw [bind_of_ok hr] at hs
    obtain ⟨u, rfl, hu⟩ := h s a s' hr
    obtain ⟨v, rfl, hv⟩ := hf a s' b rest hs
    exact ⟨u ++ v, (List.append_assoc u v rest).symm, u, v, a, rfl, hu, hv⟩

theorem Sound.map (h : r.Sound language) (g : α → β) :
    (r >>= fun x => pure (g x)).Sound fun word b => ∃ a, language word a ∧ b = g a := by
  refine (h.bind fun a => sound_pure (g a)).mono ?_
  rintro word b ⟨u, v, a, rfl, ha, rfl, rfl⟩
  exact ⟨a, by rwa [List.append_nil], rfl⟩

theorem sound_items (n : Nat) (e : ε) :
    (items n e : Reader τ ε (List τ)).Sound fun word b => word.length = n ∧ b = word := by
  intro s b rest hs
  rw [items] at hs
  split at hs
  · cases hs
  · next hle =>
    obtain ⟨rfl, rfl⟩ := Prod.mk.inj (Except.ok.inj hs)
    refine ⟨s.take n, (List.take_append_drop n s).symm, ?_, rfl⟩
    rw [List.length_take]
    omega

theorem sound_lift (x : Except ε α) :
    (lift x : Reader τ ε α).Sound fun word b => word = [] ∧ x = .ok b := by
  intro s b rest hs
  cases x with
  | error e => cases hs
  | ok a =>
    obtain ⟨rfl, rfl⟩ := Prod.mk.inj (Except.ok.inj hs)
    exact ⟨[], rfl, rfl, rfl⟩

/-- What a loop takes are the words that its rounds take. -/
theorem sound_loop {body : Nat → β → Reader τ ε β} {entry : List τ → Prop}
    (h : ∀ i b, (body i b).Sound fun word _ => entry word) (i n : Nat) (b : β) :
    (loop body i n b).Sound fun word _ =>
      ∃ words : List (List τ), words.length = n ∧ (∀ w ∈ words, entry w) ∧
        word = words.flatten := by
  induction n generalizing i b with
  | zero =>
    refine (sound_pure b).mono fun word b' => ?_
    rintro ⟨rfl, -⟩
    exact ⟨[], rfl, by simp, rfl⟩
  | succ n ih =>
    refine ((h i b).bind fun b => ih (i + 1) b).mono fun word b' => ?_
    rintro ⟨u, v, _, rfl, hu, words, rfl, hwords, rfl⟩
    refine ⟨u :: words, rfl, ?_, rfl⟩
    intro w hw
    obtain rfl | hw := List.mem_cons.mp hw
    · exact hu
    · exact hwords w hw

/-- What a loop takes are the words of entries, and what it carries along is folded over these. -/
theorem sound_loop_foldl {body : Nat → β → Reader τ ε β} {γ : Type} {language : List τ → γ → Prop}
    {next : β → γ → β}
    (h : ∀ i b, (body i b).Sound fun word b' => ∃ x, language word x ∧ b' = next b x)
    (i n : Nat) (b : β) :
    (loop body i n b).Sound fun word b' =>
      ∃ entries : List (List τ × γ), entries.length = n ∧
        (∀ entry ∈ entries, language entry.1 entry.2) ∧
        word = entries.flatMap Prod.fst ∧ b' = (entries.map Prod.snd).foldl next b := by
  induction n generalizing i b with
  | zero =>
    refine (sound_pure b).mono fun word b' => ?_
    rintro ⟨rfl, rfl⟩
    exact ⟨[], rfl, by simp, rfl, rfl⟩
  | succ n ih =>
    refine ((h i b).bind fun b => ih (i + 1) b).mono fun word b' => ?_
    rintro ⟨u, v, _, rfl, ⟨x, hx, rfl⟩, entries, rfl, hentries, rfl, rfl⟩
    exact ⟨(u, x) :: entries, rfl, List.forall_mem_cons.mpr ⟨hx, hentries⟩, rfl, rfl⟩

end Sound

section Raises

/-- Whatever the reader fails with is of this kind. -/
def Raises (r : Reader τ ε α) (kind : ε → Prop) : Prop :=
  ∀ s e, r s = .error e → kind e

variable {kind : ε → Prop}

theorem raises_pure (a : α) : (pure a : Reader τ ε α).Raises kind := fun _ _ h => by cases h

theorem Raises.bind (h : r.Raises kind) (hf : ∀ a, (f a).Raises kind) :
    (r >>= f).Raises kind := by
  intro s e hs
  cases hr : r s with
  | error e' =>
    rw [bind_of_error hr] at hs
    exact Except.error.inj hs ▸ h s e' hr
  | ok p =>
    rw [bind_of_ok hr] at hs
    exact hf p.1 p.2 e hs

theorem raises_items (n : Nat) {e : ε} (h : kind e) : (items n e : Reader τ ε _).Raises kind := by
  intro s e' hs
  rw [items] at hs
  split at hs
  · exact Except.error.inj hs ▸ h
  · cases hs

theorem raises_lift {x : Except ε α} (h : ∀ e, x = .error e → kind e) :
    (lift x : Reader τ ε α).Raises kind := by
  intro s e hs
  cases x with
  | error e' => exact Except.error.inj hs ▸ h e' rfl
  | ok a => cases hs

theorem raises_loop {body : Nat → β → Reader τ ε β} (h : ∀ i b, (body i b).Raises kind)
    (i n : Nat) (b : β) : (loop body i n b).Raises kind := by
  induction n generalizing i b with
  | zero => exact raises_pure b
  | succ n ih => exact (h i b).bind fun b => ih (i + 1) b

end Raises

end Reader

end Framing
