import Ccbt.Core.Bencode.Decoder

/-!
# Reading bencoded text from the left

An abstract reader: it consumes a byte string from the left, returns a value with
the text that is left, and stops at the first dictionary key whose length would
take a cursor back to where the key begins. It has no cursor and no data to go
back to. The reader consumes something with every value, and it needs no more
calls than three for each octet.
-/

namespace Ccbt

open Python

namespace Bencode

/-- What reading comes to. -/
inductive Outcome (α : Type)
  | done (a : α) (rest : Bytes)
  | raised (e : DecodeError)
  /-- A key that would move a cursor to or before its own beginning. -/
  | pointsBack
  | outOfFuel

namespace Outcome

variable {α β : Type}

def andThen (o : Outcome α) (f : α → Bytes → Outcome β) : Outcome β :=
  match o with
  | done a rest => f a rest
  | raised e => raised e
  | pointsBack => pointsBack
  | outOfFuel => outOfFuel

def map (f : α → β) (o : Outcome α) : Outcome β := o.andThen (fun a rest => done (f a) rest)

def ofExcept (x : Except DecodeError α) (rest : Bytes) : Outcome α :=
  match x with
  | .ok a => done a rest
  | .error e => raised e

end Outcome

/-- Split at the first occurrence of an octet. -/
def splitAt (c : UInt8) : Bytes → Option (Bytes × Bytes)
  | [] => none
  | b :: s => if b = c then some ([], s) else (splitAt c s).map (fun p => (b :: p.1, p.2))

/-- The text in front of a terminator. The terminator is left. -/
def readText (c : UInt8) (missing : String) (s : Bytes) : Outcome Str :=
  match splitAt c s with
  | none => .raised (.bencode missing)
  | some (text, rest) => .ofExcept (decodeText text) (c :: rest)

/-- The text after an `i`. -/
def readInteger (s : Bytes) : Outcome Int :=
  (readText 0x65 "Missing 'e' terminator for integer" s).andThen fun numberStr rest =>
    .ofExcept (parseNumber numberStr) (rest.drop 1)

/-- A string of a length, at its colon; `s` is the text with the length. -/
def readCut (s : Bytes) (length : Int) (rest : Bytes) : Outcome Bytes :=
  let used : Int := (s.length - rest.length : Nat) + 1 + length
  if length > (rest.drop 1).length then
    .raised (.bencode "String length exceeds available data")
  else if used ≤ 0 then .pointsBack
  else .done ((rest.drop 1).take length.toNat) (s.drop used.toNat)

def readString (s : Bytes) : Outcome Bytes :=
  (readText 0x3A "Missing colon in string" s).andThen fun lengthStr rest =>
    (Outcome.ofExcept (parseLength lengthStr) rest).andThen (readCut s)

def readEnd {α : Type} (message : String) (a : α) : Bytes → Outcome α
  | [] => .raised (.bencode message)
  | _ :: rest => .done a rest

/-- Store entries one by one, as `result[key] = value` does. -/
def storeEntries (es d : List (Key × PyObj)) : List (Key × PyObj) :=
  es.foldl (fun d e => setEntry e.1 e.2 d) d

mutual

def readItem : Nat → Bytes → Outcome PyObj
  | 0, _ => .outOfFuel
  | _ + 1, [] => .raised (.bencode "Unexpected end of data")
  | n + 1, c :: s =>
    if c = 0x69 then (readInteger s).map .int
    else if c = 0x6C then (readList n s).map .list
    else if c = 0x64 then (readDict n s).map (fun es => .dict (storeEntries es []))
    else if isdigit c then (readString (c :: s)).map .bytes
    else .raised
      (.bencode ("Invalid bencode character: " ++ String.singleton (Char.ofNat c.toNat)))

def readList : Nat → Bytes → Outcome (List PyObj)
  | 0, _ => .outOfFuel
  | n + 1, s => (readItems n s).andThen (readEnd "Missing 'e' terminator for list")

def readItems : Nat → Bytes → Outcome (List PyObj)
  | 0, _ => .outOfFuel
  | _ + 1, [] => .done [] []
  | n + 1, c :: s =>
    if c = 0x65 then .done [] (c :: s)
    else (readItem n (c :: s)).andThen fun x rest => (readItems n rest).map (x :: ·)

def readDict : Nat → Bytes → Outcome (List (Key × PyObj))
  | 0, _ => .outOfFuel
  | n + 1, s => (readEntries n s).andThen (readEnd "Missing 'e' terminator for dictionary")

def readEntries : Nat → Bytes → Outcome (List (Key × PyObj))
  | 0, _ => .outOfFuel
  | _ + 1, [] => .done [] []
  | n + 1, c :: s =>
    if c = 0x65 then .done [] (c :: s)
    else (readString (c :: s)).andThen fun key text =>
      (readItem n text).andThen fun value rest =>
        (readEntries n rest).map ((.bytes key, value) :: ·)

end

section Outcome

variable {α β : Type}

theorem done_ne_outOfFuel {a : α} {rest : Bytes} : Outcome.done a rest ≠ .outOfFuel :=
  fun h => by cases h

@[simp] theorem andThen_done (a : α) (rest : Bytes) (f : α → Bytes → Outcome β) :
    (Outcome.done a rest).andThen f = f a rest := rfl

@[simp] theorem andThen_raised (e : DecodeError) (f : α → Bytes → Outcome β) :
    (Outcome.raised e).andThen f = .raised e := rfl

@[simp] theorem andThen_pointsBack (f : α → Bytes → Outcome β) :
    Outcome.pointsBack.andThen f = .pointsBack := rfl

@[simp] theorem andThen_outOfFuel (f : α → Bytes → Outcome β) :
    Outcome.outOfFuel.andThen f = .outOfFuel := rfl

theorem map_andThen {γ : Type} (o : Outcome α) (f : α → Bytes → Outcome β) (g : β → γ) :
    (o.andThen f).map g = o.andThen (fun a rest => (f a rest).map g) := by
  cases o <;> rfl

theorem andThen_map {γ : Type} (o : Outcome α) (f : α → β) (g : β → Bytes → Outcome γ) :
    (o.map f).andThen g = o.andThen (fun a rest => g (f a) rest) := by
  cases o <;> rfl

theorem map_map {γ : Type} (o : Outcome α) (f : α → β) (g : β → γ) :
    (o.map f).map g = o.map (fun a => g (f a)) := by
  cases o <;> rfl

theorem andThen_eq_done {o : Outcome α} {f : α → Bytes → Outcome β} {b : β} {rest : Bytes}
    (h : o.andThen f = .done b rest) : ∃ a mid, o = .done a mid ∧ f a mid = .done b rest := by
  cases o with
  | done a mid => exact ⟨a, mid, rfl, h⟩
  | raised e => cases h
  | pointsBack => cases h
  | outOfFuel => cases h

theorem map_eq_done {o : Outcome α} {f : α → β} {b : β} {rest : Bytes}
    (h : o.map f = .done b rest) : ∃ a, o = .done a rest ∧ f a = b := by
  obtain ⟨a, mid, ho, hf⟩ := andThen_eq_done h
  cases hf
  exact ⟨a, ho, rfl⟩

theorem andThen_ne_outOfFuel {o : Outcome α} {f : α → Bytes → Outcome β}
    (ho : o ≠ .outOfFuel) (hf : ∀ a rest, o = .done a rest → f a rest ≠ .outOfFuel) :
    o.andThen f ≠ .outOfFuel := by
  cases o with
  | done a mid => exact hf a mid rfl
  | raised e => intro h; cases h
  | pointsBack => intro h; cases h
  | outOfFuel => exact absurd rfl ho

theorem map_ne_outOfFuel {o : Outcome α} {f : α → β} (ho : o ≠ .outOfFuel) :
    o.map f ≠ .outOfFuel :=
  andThen_ne_outOfFuel ho (fun _ _ _ h => by cases h)

def Settles (o o' : Outcome α) : Prop := o ≠ .outOfFuel → o' = o

theorem Settles.refl (o : Outcome α) : Settles o o := fun _ => rfl

theorem Settles.andThen {o o' : Outcome α} {f g : α → Bytes → Outcome β} (ho : Settles o o')
    (hf : ∀ a rest, Settles (f a rest) (g a rest)) : Settles (o.andThen f) (o'.andThen g) := by
  intro h
  have hne : o ≠ .outOfFuel := by
    rintro rfl
    exact h rfl
  rw [ho hne]
  cases o with
  | done a rest => exact hf a rest h
  | raised e => rfl
  | pointsBack => rfl
  | outOfFuel => exact absurd rfl hne

theorem Settles.map {o o' : Outcome α} (ho : Settles o o') (f : α → β) :
    Settles (o.map f) (o'.map f) :=
  ho.andThen (fun _ _ => Settles.refl _)

end Outcome

-- Strings and integers

theorem splitAt_append {c : UInt8} {s : Bytes} (h : c ∉ s) (rest : Bytes) :
    splitAt c (s ++ c :: rest) = some (s, rest) := by
  induction s with
  | nil => simp [splitAt]
  | cons b s ih =>
    simp only [List.mem_cons, not_or] at h
    rw [List.cons_append, splitAt, if_neg (Ne.symm h.1), ih h.2]
    rfl

theorem splitAt_eq_some {c : UInt8} {s pre rest : Bytes} (h : splitAt c s = some (pre, rest)) :
    s = pre ++ c :: rest ∧ c ∉ pre := by
  induction s generalizing pre rest with
  | nil => cases h
  | cons b s ih =>
    rw [splitAt] at h
    split at h
    · next hb =>
      cases h
      exact ⟨by rw [hb]; rfl, List.not_mem_nil⟩
    · next hb =>
      obtain ⟨⟨pre', rest'⟩, hs, heq⟩ := Option.map_eq_some_iff.mp h
      cases heq
      obtain ⟨h₁, h₂⟩ := ih hs
      refine ⟨by rw [h₁]; rfl, ?_⟩
      simp only [List.mem_cons, not_or]
      exact ⟨fun he => hb he.symm, h₂⟩

/-- The text that is left is a proper suffix. -/
def Consumes (s rest : Bytes) : Prop := ∃ pre, pre ≠ [] ∧ s = pre ++ rest

theorem Consumes.length_lt {s rest : Bytes} (h : Consumes s rest) : rest.length < s.length := by
  obtain ⟨pre, hne, rfl⟩ := h
  have := List.length_pos_of_ne_nil hne
  simp only [List.length_append]
  omega

theorem Consumes.cons {s rest : Bytes} (c : UInt8) (h : ∃ pre, s = pre ++ rest) :
    Consumes (c :: s) rest := by
  obtain ⟨pre, rfl⟩ := h
  exact ⟨c :: pre, List.cons_ne_nil _ _, rfl⟩

theorem Consumes.suffix {s rest : Bytes} (h : Consumes s rest) : ∃ pre, s = pre ++ rest :=
  h.imp (fun _ hp => hp.2)

theorem ofExcept_eq_done {α : Type} {x : Except DecodeError α} {a : α} {s rest : Bytes}
    (h : Outcome.ofExcept x s = .done a rest) : x = .ok a ∧ s = rest := by
  cases x with
  | ok b =>
    cases h
    exact ⟨rfl, rfl⟩
  | error e => cases h

theorem readText_eq_done {c : UInt8} {missing : String} {s rest : Bytes} {t : Str}
    (h : readText c missing s = .done t rest) :
    ∃ text rest', s = text ++ c :: rest' ∧ c ∉ text ∧ rest = c :: rest' ∧
      decodeText text = .ok t := by
  unfold readText at h
  cases hs : splitAt c s with
  | none =>
    rw [hs] at h
    cases h
  | some p =>
    rw [hs] at h
    obtain ⟨hdecode, hrest⟩ := ofExcept_eq_done h
    obtain ⟨hsplit, hmem⟩ := splitAt_eq_some hs
    exact ⟨p.1, p.2, hsplit, hmem, hrest.symm, hdecode⟩

theorem readInteger_consumes {s rest : Bytes} {k : Int} (h : readInteger s = .done k rest) :
    Consumes s rest := by
  obtain ⟨t, mid, ht, h⟩ := andThen_eq_done h
  obtain ⟨text, rest', rfl, -, rfl, -⟩ := readText_eq_done ht
  obtain ⟨-, rfl⟩ := ofExcept_eq_done h
  exact ⟨text ++ [0x65], by simp, by simp⟩

theorem readCut_colon (digits rest : Bytes) (length : Int) :
    readCut (digits ++ 0x3A :: rest) length (0x3A :: rest) =
      if length > rest.length then .raised (.bencode "String length exceeds available data")
      else if digits.length + 1 + length ≤ 0 then .pointsBack
      else .done (rest.take length.toNat)
        ((digits ++ 0x3A :: rest).drop (digits.length + 1 + length).toNat) := by
  simp [readCut]

theorem readString_consumes {s rest b : Bytes} (h : readString s = .done b rest) :
    Consumes s rest := by
  obtain ⟨t, mid, ht, h⟩ := andThen_eq_done h
  obtain ⟨length, mid', hlength, h⟩ := andThen_eq_done h
  obtain ⟨digits, rest', rfl, -, rfl, -⟩ := readText_eq_done ht
  obtain ⟨-, rfl⟩ := ofExcept_eq_done hlength
  rw [readCut_colon] at h
  split at h
  · cases h
  · split at h
    · cases h
    · next hlong hpos =>
      have hrest := (Outcome.done.inj h).2
      refine ⟨(digits ++ 0x3A :: rest').take (digits.length + 1 + length).toNat, ?_, ?_⟩
      · intro hnil
        have hlen := congrArg List.length hnil
        simp only [List.length_take, List.length_append, List.length_cons,
          List.length_nil] at hlen
        omega
      · rw [← hrest, List.take_append_drop]

theorem readEnd_eq_done {α : Type} {message : String} {a b : α} {s rest : Bytes}
    (h : readEnd message a s = .done b rest) : b = a ∧ ∃ c, s = c :: rest := by
  cases s with
  | nil => cases h
  | cons c s =>
    cases h
    exact ⟨rfl, c, rfl⟩

-- Progress

/-- What is left by the readers of fuel `n`: an item leaves less, a loop no more. -/
structure Progress (n : Nat) : Prop where
  item : ∀ {s rest w}, readItem n s = .done w rest → Consumes s rest
  list : ∀ {s rest w}, readList n s = .done w rest → Consumes s rest
  items : ∀ {s rest w}, readItems n s = .done w rest → ∃ pre, s = pre ++ rest
  dict : ∀ {s rest w}, readDict n s = .done w rest → Consumes s rest
  entries : ∀ {s rest w}, readEntries n s = .done w rest → ∃ pre, s = pre ++ rest

private theorem consumes_of_suffix_cons {s rest : Bytes} {c : UInt8}
    (h : ∃ pre, s = pre ++ c :: rest) : Consumes s rest := by
  obtain ⟨pre, rfl⟩ := h
  exact ⟨pre ++ [c], by simp, by simp⟩

private theorem suffix_trans {s t u : Bytes} (h : ∃ pre, s = pre ++ t) (h' : ∃ pre, t = pre ++ u) :
    ∃ pre, s = pre ++ u := by
  obtain ⟨p, rfl⟩ := h
  obtain ⟨q, rfl⟩ := h'
  exact ⟨p ++ q, by simp⟩

theorem progress (n : Nat) : Progress n := by
  induction n with
  | zero => exact ⟨nofun, nofun, nofun, nofun, nofun⟩
  | succ n ih =>
    refine ⟨?_, ?_, ?_, ?_, ?_⟩
    · intro s rest w h
      cases s with
      | nil => cases h
      | cons c s =>
        rw [readItem] at h
        split at h
        · obtain ⟨k, hk, -⟩ := map_eq_done h
          exact .cons c (readInteger_consumes hk).suffix
        · split at h
          · obtain ⟨xs, hxs, -⟩ := map_eq_done h
            exact .cons c (ih.list hxs).suffix
          · split at h
            · obtain ⟨es, hes, -⟩ := map_eq_done h
              exact .cons c (ih.dict hes).suffix
            · split at h
              · obtain ⟨b, hb, -⟩ := map_eq_done h
                exact readString_consumes hb
              · cases h
    · intro s rest w h
      rw [readList] at h
      obtain ⟨xs, mid, hxs, hend⟩ := andThen_eq_done h
      obtain ⟨-, c, rfl⟩ := readEnd_eq_done hend
      exact consumes_of_suffix_cons (ih.items hxs)
    · intro s rest w h
      cases s with
      | nil =>
        cases h
        exact ⟨[], rfl⟩
      | cons c s =>
        rw [readItems] at h
        split at h
        · cases h
          exact ⟨[], rfl⟩
        · obtain ⟨x, mid, hx, hmap⟩ := andThen_eq_done h
          obtain ⟨xs, hxs, -⟩ := map_eq_done hmap
          exact suffix_trans (ih.item hx).suffix (ih.items hxs)
    · intro s rest w h
      rw [readDict] at h
      obtain ⟨es, mid, hes, hend⟩ := andThen_eq_done h
      obtain ⟨-, c, rfl⟩ := readEnd_eq_done hend
      exact consumes_of_suffix_cons (ih.entries hes)
    · intro s rest w h
      cases s with
      | nil =>
        cases h
        exact ⟨[], rfl⟩
      | cons c s =>
        rw [readEntries] at h
        split at h
        · cases h
          exact ⟨[], rfl⟩
        · obtain ⟨k, text, hk, h⟩ := andThen_eq_done h
          obtain ⟨v, mid, hv, hmap⟩ := andThen_eq_done h
          obtain ⟨es, hes, -⟩ := map_eq_done hmap
          exact suffix_trans (readString_consumes hk).suffix
            (suffix_trans (ih.item hv).suffix (ih.entries hes))

-- Fuel

/-- The readers of fuel `n` agree with those of fuel `m` wherever they settle. -/
structure Agree (n m : Nat) : Prop where
  item : ∀ s, Settles (readItem n s) (readItem m s)
  list : ∀ s, Settles (readList n s) (readList m s)
  items : ∀ s, Settles (readItems n s) (readItems m s)
  dict : ∀ s, Settles (readDict n s) (readDict m s)
  entries : ∀ s, Settles (readEntries n s) (readEntries m s)

theorem agree {n m : Nat} (h : n ≤ m) : Agree n m := by
  induction n generalizing m with
  | zero => exact ⟨fun _ h => absurd rfl h, fun _ h => absurd rfl h, fun _ h => absurd rfl h,
      fun _ h => absurd rfl h, fun _ h => absurd rfl h⟩
  | succ n ih =>
    obtain ⟨m, rfl⟩ : ∃ k, m = k + 1 := ⟨m - 1, by omega⟩
    have ih := ih (Nat.le_of_succ_le_succ h)
    refine ⟨?_, ?_, ?_, ?_, ?_⟩
    · intro s
      cases s with
      | nil => exact Settles.refl _
      | cons c s =>
        simp only [readItem]
        split
        · exact Settles.refl _
        · split
          · exact (ih.list s).map _
          · split
            · exact (ih.dict s).map _
            · exact Settles.refl _
    · intro s
      exact (ih.items s).andThen (fun _ _ => Settles.refl _)
    · intro s
      cases s with
      | nil => exact Settles.refl _
      | cons c s =>
        simp only [readItems]
        split
        · exact Settles.refl _
        · exact (ih.item _).andThen (fun x rest => (ih.items rest).map _)
    · intro s
      exact (ih.entries s).andThen (fun _ _ => Settles.refl _)
    · intro s
      cases s with
      | nil => exact Settles.refl _
      | cons c s =>
        simp only [readEntries]
        split
        · exact Settles.refl _
        · exact (Settles.refl _).andThen fun k text =>
            (ih.item text).andThen fun v rest => (ih.entries rest).map _

theorem readItem_mono {n m : Nat} {s : Bytes} (h : n ≤ m) (hn : readItem n s ≠ .outOfFuel) :
    readItem m s = readItem n s :=
  (agree h).item s hn

theorem ofExcept_ne_outOfFuel {α : Type} (x : Except DecodeError α) (rest : Bytes) :
    Outcome.ofExcept x rest ≠ .outOfFuel := by
  cases x <;> nofun

theorem readText_ne_outOfFuel (c : UInt8) (missing : String) (s : Bytes) :
    readText c missing s ≠ .outOfFuel := by
  unfold readText
  split
  · nofun
  · exact ofExcept_ne_outOfFuel _ _

theorem readInteger_ne_outOfFuel (s : Bytes) : readInteger s ≠ .outOfFuel :=
  andThen_ne_outOfFuel (readText_ne_outOfFuel _ _ _) (fun _ _ _ => ofExcept_ne_outOfFuel _ _)

theorem readString_ne_outOfFuel (s : Bytes) : readString s ≠ .outOfFuel := by
  refine andThen_ne_outOfFuel (readText_ne_outOfFuel _ _ _) (fun t rest _ => ?_)
  refine andThen_ne_outOfFuel (ofExcept_ne_outOfFuel _ _) (fun length rest _ => ?_)
  simp only [readCut]
  split
  · nofun
  · split <;> nofun

theorem readEnd_ne_outOfFuel {α : Type} (message : String) (a : α) (s : Bytes) :
    readEnd message a s ≠ .outOfFuel := by
  cases s <;> nofun

/-- The fuel that is enough for a text: three calls for each octet. -/
def fuelFor (s : Bytes) : Nat := 3 * s.length + 1

structure Enough (n len : Nat) : Prop where
  item : ∀ {s : Bytes}, s.length = len → readItem n s ≠ .outOfFuel
  items : ∀ {s : Bytes}, s.length = len → readItems n s ≠ .outOfFuel
  entries : ∀ {s : Bytes}, s.length = len → readEntries n s ≠ .outOfFuel

theorem enough {n len : Nat} (h : 3 * len < n) : Enough n len := by
  induction len using Nat.strongRecOn generalizing n with
  | ind len ih =>
    obtain ⟨n, rfl⟩ : ∃ k, n = k + 1 := ⟨n - 1, by omega⟩
    have hitem : ∀ {m : Nat} {s : Bytes}, 3 * len ≤ m → 0 < m → s.length = len →
        readItem m s ≠ .outOfFuel := by
      intro m s hm hpos hs
      obtain ⟨m, rfl⟩ : ∃ k, m = k + 1 := ⟨m - 1, by omega⟩
      cases s with
      | nil => nofun
      | cons c s =>
        simp only [List.length_cons] at hs
        rw [readItem]
        split
        · exact map_ne_outOfFuel (readInteger_ne_outOfFuel s)
        · obtain ⟨m, rfl⟩ : ∃ k, m = k + 1 := ⟨m - 1, by omega⟩
          have hless := ih s.length (by omega) (n := m) (by omega)
          split
          · exact map_ne_outOfFuel
              (andThen_ne_outOfFuel (hless.items rfl) (fun _ _ _ => readEnd_ne_outOfFuel _ _ _))
          · split
            · exact map_ne_outOfFuel
                (andThen_ne_outOfFuel (hless.entries rfl) (fun _ _ _ => readEnd_ne_outOfFuel _ _ _))
            · split
              · exact map_ne_outOfFuel (readString_ne_outOfFuel _)
              · nofun
    refine ⟨fun hs => hitem (by omega) (by omega) hs, ?_, ?_⟩
    · intro s hs
      cases s with
      | nil => nofun
      | cons c s =>
        simp only [List.length_cons] at hs
        rw [readItems]
        split
        · nofun
        · refine andThen_ne_outOfFuel (hitem (by omega) (by omega) hs) ?_
          intro x rest hx
          have hlt := ((progress n).item hx).length_lt
          simp only [List.length_cons] at hlt
          exact map_ne_outOfFuel ((ih rest.length (by omega) (by omega)).items rfl)
    · intro s hs
      cases s with
      | nil => nofun
      | cons c s =>
        simp only [List.length_cons] at hs
        rw [readEntries]
        split
        · nofun
        · refine andThen_ne_outOfFuel (readString_ne_outOfFuel _) ?_
          intro key text hk
          have hkey := (readString_consumes hk).length_lt
          simp only [List.length_cons] at hkey
          refine andThen_ne_outOfFuel ((ih text.length (by omega) (by omega)).item rfl) ?_
          intro v rest hv
          have hlt := ((progress n).item hv).length_lt
          exact map_ne_outOfFuel ((ih rest.length (by omega) (by omega)).entries rfl)

theorem readItem_ne_outOfFuel {n : Nat} {s : Bytes} (h : fuelFor s ≤ n) :
    readItem n s ≠ .outOfFuel :=
  (enough (by rw [fuelFor] at h; omega)).item rfl

/-- With any fuel a reading comes to its outcome or stops for lack of fuel. -/
theorem readItem_outcome (n : Nat) (s : Bytes) :
    readItem n s = .outOfFuel ∨ readItem n s = readItem (fuelFor s) s := by
  rcases Nat.le_total n (fuelFor s) with h | h
  · by_cases hn : readItem n s = .outOfFuel
    · exact Or.inl hn
    · exact Or.inr (readItem_mono h hn).symm
  · exact Or.inr (readItem_mono h (readItem_ne_outOfFuel le_rfl))

end Bencode

end Ccbt
