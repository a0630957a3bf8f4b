import Mathlib.Tactic.IntervalCases
import Ccbt.Python.Bytes

/-!
# Python text and integer literals

The conversions between `str`, `bytes` and `int` that Python programs use to
read and write numbers and names: `str.encode("utf-8")`, the strict
`bytes.decode("utf-8")`, `str(n)` and `int(s)`.

`int(s)` is more lenient than a decimal number: surrounding white space, a sign,
single underscores between digits and every Unicode decimal digit are accepted.
The Unicode tables are those of version 14. The interpreter's own guard on the
number of digits of a conversion is a setting of the interpreter and is taken to
be off.
-/

namespace Python

-- UTF-8

def utf8Encode (s : Str) : Bytes := s.flatMap String.utf8EncodeChar

/-- The payload of a continuation octet. -/
def tailBits (b : UInt8) : Option Nat :=
  if 0x80 ≤ b.toNat ∧ b.toNat < 0xC0 then some (b.toNat - 0x80) else none

/-- The character of a code point, unless the encoding was too long for it or it
is no scalar value. -/
def scalar (least n : Nat) : Option Char :=
  if least ≤ n ∧ n.isValidChar then some (Char.ofNat n) else none

/-- `data.decode("utf-8")`, or `none` where Python raises `UnicodeDecodeError`. -/
def utf8Decode : Bytes → Option Str
  | [] => some []
  | a :: rest =>
    if a.toNat < 0x80 then do
      let s ← utf8Decode rest
      return Char.ofNat a.toNat :: s
    else if a.toNat < 0xC0 then none
    else if a.toNat < 0xE0 then
      match rest with
      | b :: rest => do
        let x ← tailBits b
        let c ← scalar 0x80 ((a.toNat - 0xC0) * 64 + x)
        let s ← utf8Decode rest
        return c :: s
      | _ => none
    else if a.toNat < 0xF0 then
      match rest with
      | b :: b' :: rest => do
        let x ← tailBits b
        let y ← tailBits b'
        let c ← scalar 0x800 (((a.toNat - 0xE0) * 64 + x) * 64 + y)
        let s ← utf8Decode rest
        return c :: s
      | _ => none
    else if a.toNat < 0xF8 then
      match rest with
      | b :: b' :: b'' :: rest => do
        let x ← tailBits b
        let y ← tailBits b'
        let z ← tailBits b''
        let c ← scalar 0x10000 ((((a.toNat - 0xF0) * 64 + x) * 64 + y) * 64 + z)
        let s ← utf8Decode rest
        return c :: s
      | _ => none
    else none

/-- The second octets that some character has behind a first octet. -/
def isSecond (a b : UInt8) : Bool :=
  let lo := if a = 0xE0 then 0xA0 else if a = 0xF0 then 0x90 else 0x80
  let hi := if a = 0xED then 0x9F else if a = 0xF4 then 0x8F else 0xBF
  lo ≤ b.toNat ∧ b.toNat ≤ hi

/-- How many octets the decoder gives up at the start of a sequence that is no character: as
many as begin some character, and one if none do. -/
def invalidLength : Bytes → Nat
  | a :: b :: rest =>
    if 0xE0 ≤ a.toNat ∧ a.toNat ≤ 0xF4 ∧ isSecond a b then
      match rest with
      | c :: _ => if 0xF0 ≤ a.toNat ∧ (tailBits c).isSome then 3 else 2
      | [] => 2
    else 1
  | _ => 1

/-- The character at the start of `data`, with the number of its octets. -/
def firstChar (data : Bytes) : Option (Char × Nat) :=
  [1, 2, 3, 4].findSome? fun k =>
    match utf8Decode (data.take k) with
    | some [c] => some (c, k)
    | _ => none

/-- The loop of `utf8DecodeReplace`, at most `n` rounds of it. -/
def decodeReplaceLoop : Nat → Bytes → Str
  | 0, _ => []
  | n + 1, data =>
    if data.isEmpty then []
    else
      match firstChar data with
      | some (c, k) => c :: decodeReplaceLoop n (data.drop k)
      | none => Char.ofNat 0xFFFD :: decodeReplaceLoop n (data.drop (invalidLength data))

/-- `data.decode("utf-8", errors="replace")` -/
def utf8DecodeReplace (data : Bytes) : Str := decodeReplaceLoop data.length data

/-- The loop of `utf8DecodeIgnore`, at most `n` rounds of it. -/
def decodeIgnoreLoop : Nat → Bytes → Str
  | 0, _ => []
  | n + 1, data =>
    if data.isEmpty then []
    else
      match firstChar data with
      | some (c, k) => c :: decodeIgnoreLoop n (data.drop k)
      | none => decodeIgnoreLoop n (data.drop (invalidLength data))

/-- `data.decode("utf-8", errors="ignore")` -/
def utf8DecodeIgnore (data : Bytes) : Str := decodeIgnoreLoop data.length data

private theorem toNat_ofNat_of_lt {n : Nat} (h : n < 256) : (UInt8.ofNat n).toNat = n := by
  rw [UInt8.toNat_ofNat']
  omega

private theorem tailBits_ofNat {n : Nat} (h : n < 64) :
    tailBits (UInt8.ofNat (n + 0x80)) = some n := by
  rw [tailBits, toNat_ofNat_of_lt (by omega), if_pos (by omega)]
  simp

private theorem scalar_toNat (least : Nat) (c : Char) (h : least ≤ c.toNat) :
    scalar least c.toNat = some c := by
  rw [scalar, if_pos ⟨h, c.valid⟩, Char.ofNat_toNat]

private theorem toNat_lt (c : Char) : c.toNat < 0x110000 := by
  rcases c.valid with h | ⟨_, h⟩
  · exact Nat.lt_trans h (by decide)
  · exact h

section Sequences

variable {a b b' b'' : UInt8} {x y z : Nat} {c : Char} (rest : Bytes)

private theorem utf8Decode_one (h : a.toNat < 0x80) :
    utf8Decode (a :: rest) = (utf8Decode rest).map (Char.ofNat a.toNat :: ·) := by
  rw [utf8Decode.eq_def]
  simp only [if_pos h]
  cases utf8Decode rest <;> rfl

private theorem utf8Decode_two (hlo : 0xC0 ≤ a.toNat) (hhi : a.toNat < 0xE0)
    (hx : tailBits b = some x) (hc : scalar 0x80 ((a.toNat - 0xC0) * 64 + x) = some c) :
    utf8Decode (a :: b :: rest) = (utf8Decode rest).map (c :: ·) := by
  have h₁ : ¬a.toNat < 0x80 := by omega
  have h₂ : ¬a.toNat < 0xC0 := by omega
  rw [utf8Decode.eq_def]
  simp only [if_neg h₁, if_neg h₂, if_pos hhi, hx, hc, Option.bind_eq_bind, Option.bind_some]
  cases utf8Decode rest <;> rfl

private theorem utf8Decode_three (hlo : 0xE0 ≤ a.toNat) (hhi : a.toNat < 0xF0)
    (hx : tailBits b = some x) (hy : tailBits b' = some y)
    (hc : scalar 0x800 (((a.toNat - 0xE0) * 64 + x) * 64 + y) = some c) :
    utf8Decode (a :: b :: b' :: rest) = (utf8Decode rest).map (c :: ·) := by
  have h₁ : ¬a.toNat < 0x80 := by omega
  have h₂ : ¬a.toNat < 0xC0 := by omega
  have h₃ : ¬a.toNat < 0xE0 := by omega
  rw [utf8Decode.eq_def]
  simp only [if_neg h₁, if_neg h₂, if_neg h₃, if_pos hhi, hx, hy, hc, Option.bind_eq_bind,
    Option.bind_some]
  cases utf8Decode rest <;> rfl

private theorem utf8Decode_four (hlo : 0xF0 ≤ a.toNat) (hhi : a.toNat < 0xF8)
    (hx : tailBits b = some x) (hy : tailBits b' = some y) (hz : tailBits b'' = some z)
    (hc : scalar 0x10000 ((((a.toNat - 0xF0) * 64 + x) * 64 + y) * 64 + z) = some c) :
    utf8Decode (a :: b :: b' :: b'' :: rest) = (utf8Decode rest).map (c :: ·) := by
  have h₁ : ¬a.toNat < 0x80 := by omega
  have h₂ : ¬a.toNat < 0xC0 := by omega
  have h₃ : ¬a.toNat < 0xE0 := by omega
  have h₄ : ¬a.toNat < 0xF0 := by omega
  rw [utf8Decode.eq_def]
  simp only [if_neg h₁, if_neg h₂, if_neg h₃, if_neg h₄, if_pos hhi, hx, hy, hz, hc,
    Option.bind_eq_bind, Option.bind_some]
  cases utf8Decode rest <;> rfl

end Sequences

/-- Decoding reads back one encoded character and leaves the rest alone. -/
theorem utf8Decode_encodeChar_append (c : Char) (rest : Bytes) :
    utf8Decode (String.utf8EncodeChar c ++ rest) = (utf8Decode rest).map (c :: ·) := by
  have hc := toNat_lt c
  have hv : c.val.toNat = c.toNat := rfl
  unfold String.utf8EncodeChar
  simp only [hv]
  split
  · have ha := toNat_ofNat_of_lt (show c.toNat < 256 by omega)
    have hone := utf8Decode_one (a := UInt8.ofNat c.toNat) rest (by omega)
    rwa [ha, Char.ofNat_toNat] at hone
  · split
    · have ha := toNat_ofNat_of_lt (show c.toNat / 64 % 0x20 + 0xC0 < 256 by omega)
      refine utf8Decode_two rest (by omega) (by omega) (tailBits_ofNat (by omega)) ?_
      rw [show ((UInt8.ofNat (c.toNat / 64 % 0x20 + 0xC0)).toNat - 0xC0) * 64 +
        c.toNat % 0x40 = c.toNat by omega]
      exact scalar_toNat 0x80 c (by omega)
    · split
      · have ha := toNat_ofNat_of_lt (show c.toNat / 4096 % 0x10 + 0xE0 < 256 by omega)
        refine utf8Decode_three rest (by omega) (by omega) (tailBits_ofNat (by omega))
          (tailBits_ofNat (by omega)) ?_
        rw [show (((UInt8.ofNat (c.toNat / 4096 % 0x10 + 0xE0)).toNat - 0xE0) * 64 +
          c.toNat / 64 % 0x40) * 64 + c.toNat % 0x40 = c.toNat by omega]
        exact scalar_toNat 0x800 c (by omega)
      · have ha := toNat_ofNat_of_lt (show c.toNat / 262144 % 0x08 + 0xF0 < 256 by omega)
        refine utf8Decode_four rest (by omega) (by omega) (tailBits_ofNat (by omega))
          (tailBits_ofNat (by omega)) (tailBits_ofNat (by omega)) ?_
        rw [show ((((UInt8.ofNat (c.toNat / 262144 % 0x08 + 0xF0)).toNat - 0xF0) * 64 +
          c.toNat / 4096 % 0x40) * 64 + c.toNat / 64 % 0x40) * 64 + c.toNat % 0x40 =
          c.toNat by omega]
        exact scalar_toNat 0x10000 c (by omega)

/-- UTF-8 round trip. -/
theorem utf8Decode_utf8Encode (s : Str) : utf8Decode (utf8Encode s) = some s := by
  induction s with
  | nil => rfl
  | cons c s ih =>
    have hcons : utf8Encode (c :: s) = String.utf8EncodeChar c ++ utf8Encode s := by
      simp [utf8Encode]
    rw [hcons, utf8Decode_encodeChar_append, ih]
    rfl

theorem utf8Encode_injective : Function.Injective utf8Encode := by
  intro s t h
  have h' := congrArg utf8Decode h
  rwa [utf8Decode_utf8Encode, utf8Decode_utf8Encode, Option.some_inj] at h'

@[simp] theorem utf8Encode_nil : utf8Encode [] = [] := rfl

theorem utf8Encode_cons (c : Char) (s : Str) :
    utf8Encode (c :: s) = String.utf8EncodeChar c ++ utf8Encode s := by
  simp [utf8Encode]

theorem utf8Encode_eq_nil {s : Str} : utf8Encode s = [] ↔ s = [] := by
  constructor
  · intro h
    exact utf8Encode_injective (by rw [h]; rfl)
  · rintro rfl
    rfl

/-- ASCII text is encoded character by character. -/
theorem utf8Encode_of_lt {s : Str} (h : ∀ c ∈ s, c.toNat < 128) :
    utf8Encode s = s.map (fun c => c.toNat.toUInt8) := by
  induction s with
  | nil => rfl
  | cons c s ih =>
    have hc : String.utf8EncodeChar c = [c.toNat.toUInt8] := by
      have hv : c.val.toNat = c.toNat := rfl
      have hlt := h c List.mem_cons_self
      unfold String.utf8EncodeChar
      simp only [hv]
      rw [if_pos (by omega)]
    rw [utf8Encode_cons, hc, ih (fun d hd => h d (List.mem_cons_of_mem _ hd))]
    rfl

/-- Where the strict decoder succeeds, the first character is what the lenient one finds. -/
theorem firstChar_of_decode {data : Bytes} {s : Str} (hne : data ≠ [])
    (h : utf8Decode data = some s) : ∃ c t k, s = c :: t ∧ 0 < k ∧
      firstChar data = some (c, k) ∧ utf8Decode (data.drop k) = some t := by
  obtain ⟨a, rest, rfl⟩ := List.exists_cons_of_ne_nil hne
  rw [utf8Decode.eq_def] at h
  simp only at h
  -- shorter beginnings of a sequence are no text
  split at h
  · next ha =>
    simp only [Option.bind_eq_bind, Option.bind_eq_some_iff, Option.pure_def,
      Option.some.injEq] at h
    obtain ⟨t, hrest, rfl⟩ := h
    refine ⟨_, t, 1, rfl, by decide, ?_, hrest⟩
    simp [firstChar, utf8Decode, ha]
  · next ha =>
    split at h
    · cases h
    · next ha' =>
      split at h
      · next hlt =>
        rcases rest with _ | ⟨b, rest⟩
        · cases h
        simp only [Option.bind_eq_bind, Option.bind_eq_some_iff, Option.pure_def,
          Option.some.injEq] at h
        obtain ⟨x, hx, c, hc, t, hrest, rfl⟩ := h
        refine ⟨c, t, 2, rfl, by decide, ?_, hrest⟩
        simp [firstChar, utf8Decode, ha, ha', hlt, hx, hc]
      · next hge =>
        split at h
        · next hlt =>
          rcases rest with _ | ⟨b, _ | ⟨b', rest⟩⟩
          · cases h
          · cases h
          simp only [Option.bind_eq_bind, Option.bind_eq_some_iff, Option.pure_def,
            Option.some.injEq] at h
          obtain ⟨x, hx, y, hy, c, hc, t, hrest, rfl⟩ := h
          refine ⟨c, t, 3, rfl, by decide, ?_, hrest⟩
          simp [firstChar, utf8Decode, ha, ha', hge, hlt, hx, hy, hc]
        · next hge' =>
          split at h
          · next hlt =>
            rcases rest with _ | ⟨b, _ | ⟨b', _ | ⟨b'', rest⟩⟩⟩
            · cases h
            · cases h
            · cases h
            simp only [Option.bind_eq_bind, Option.bind_eq_some_iff, Option.pure_def,
              Option.some.injEq] at h
            obtain ⟨x, hx, y, hy, z, hz, c, hc, t, hrest, rfl⟩ := h
            refine ⟨c, t, 4, rfl, by decide, ?_, hrest⟩
            simp [firstChar, utf8Decode, ha, ha', hge, hge', hlt, hx, hy, hz, hc]
          · cases h

theorem utf8Decode_eq_nil {data : Bytes} : utf8Decode data = some [] ↔ data = [] := by
  constructor
  · intro h
    by_contra hne
    obtain ⟨c, t, k, hcons, -⟩ := firstChar_of_decode hne h
    cases hcons
  · rintro rfl
    rfl

/-- A loop that takes the characters as they are found reads what the strict decoder reads. -/
theorem loop_of_decode {loop : Nat → Bytes → Str} (hnil : ∀ n, loop n [] = [])
    (hcons : ∀ n data c k, data ≠ [] → firstChar data = some (c, k) →
      loop (n + 1) data = c :: loop n (data.drop k))
    {n : Nat} {data : Bytes} {s : Str} (hn : data.length ≤ n) (h : utf8Decode data = some s) :
    loop n data = s := by
  induction n generalizing data s with
  | zero =>
    obtain rfl := List.length_eq_zero_iff.mp (Nat.le_zero.mp hn)
    cases h
    exact hnil 0
  | succ n ih =>
    by_cases hne : data = []
    · subst hne
      cases h
      exact hnil (n + 1)
    · obtain ⟨c, t, k, rfl, hk, hfirst, hrest⟩ := firstChar_of_decode hne h
      have hlen : (data.drop k).length ≤ n := by
        have := List.length_pos_of_ne_nil hne
        rw [List.length_drop]
        omega
      rw [hcons n data c k hne hfirst]
      exact congrArg (c :: ·) (ih hlen hrest)

/-- What is no error for the strict decoder is read by the lenient ones as well. -/
theorem utf8DecodeIgnore_of_decode {data : Bytes} {s : Str} (h : utf8Decode data = some s) :
    utf8DecodeIgnore data = s := by
  refine loop_of_decode (fun n => by cases n <;> rfl) (fun n data c k hne hfirst => ?_) le_rfl h
  rw [decodeIgnoreLoop, if_neg (by simpa using hne), hfirst]

theorem utf8DecodeReplace_of_decode {data : Bytes} {s : Str} (h : utf8Decode data = some s) :
    utf8DecodeReplace data = s := by
  refine loop_of_decode (fun n => by cases n <;> rfl) (fun n data c k hne hfirst => ?_) le_rfl h
  rw [decodeReplaceLoop, if_neg (by simpa using hne), hfirst]

-- Integer literals

def strInt (n : Int) : Str :=
  if n < 0 then '-' :: Nat.toDigits 10 n.natAbs else Nat.toDigits 10 n.natAbs

/-- The first character of every run of ten decimal digits outside ASCII
(general category Nd). -/
def decimalZeros : List Nat :=
  [0x660, 0x6f0, 0x7c0, 0x966, 0x9e6, 0xa66, 0xae6, 0xb66, 0xbe6, 0xc66, 0xce6, 0xd66, 0xde6,
    0xe50, 0xed0, 0xf20, 0x1040, 0x1090, 0x17e0, 0x1810, 0x1946, 0x19d0, 0x1a80, 0x1a90, 0x1b50,
    0x1bb0, 0x1c40, 0x1c50, 0xa620, 0xa8d0, 0xa900, 0xa9d0, 0xa9f0, 0xaa50, 0xabf0, 0xff10,
    0x104a0, 0x10d30, 0x11066, 0x110f0, 0x11136, 0x111d0, 0x112f0, 0x11450, 0x114d0, 0x11650,
    0x116c0, 0x11730, 0x118e0, 0x11950, 0x11c50, 0x11d50, 0x11da0, 0x16a60, 0x16ac0, 0x16b50,
    0x1d7ce, 0x1d7d8, 0x1d7e2, 0x1d7ec, 0x1d7f6, 0x1e140, 0x1e2f0, 0x1e950, 0x1fbf0]

/-- The white space outside ASCII. -/
def unicodeSpaces : List Nat :=
  [0x85, 0xa0, 0x1680, 0x2000, 0x2001, 0x2002, 0x2003, 0x2004, 0x2005, 0x2006, 0x2007, 0x2008,
    0x2009, 0x200a, 0x2028, 0x2029, 0x202f, 0x205f, 0x3000]

/-- The white space that `int()` strips. -/
def isSpace (c : Char) : Bool :=
  if c.toNat < 0x7F then (9 ≤ c.toNat && c.toNat ≤ 13) || c.toNat == 32
  else unicodeSpaces.contains c.toNat

/-- The value of a decimal digit. -/
def digitValue (c : Char) : Option Nat :=
  if c.toNat < 0x7F then
    if 48 ≤ c.toNat ∧ c.toNat ≤ 57 then some (c.toNat - 48) else none
  else (decimalZeros.find? (fun z => z ≤ c.toNat && c.toNat < z + 10)).map (c.toNat - ·)

/-- Read digits with single underscores between them. `afterDigit` says that the
character before was a digit. -/
def readDigits (n : Nat) (afterDigit : Bool) : Str → Option Nat
  | [] => if afterDigit then some n else none
  | c :: s =>
    if c = '_' then (if afterDigit then readDigits n false s else none)
    else do
      let d ← digitValue c
      readDigits (10 * n + d) true s

/-- A literal without white space around it: an optional sign, then digits. -/
def readSigned : Str → Option Int
  | '+' :: s => (readDigits 0 false s).map (fun n => (n : Int))
  | '-' :: s => (readDigits 0 false s).map (fun n => -(n : Int))
  | s => (readDigits 0 false s).map (fun n => (n : Int))

/-- `s.strip()` as `int()` does it. -/
def strip (s : Str) : Str := ((s.dropWhile isSpace).reverse.dropWhile isSpace).reverse

/-- The white space that `str.strip()` takes away: four separators more. -/
def isStripped (c : Char) : Bool := isSpace c || (0x1c ≤ c.toNat && c.toNat ≤ 0x1f)

/-- `s.strip()` -/
def stripText (s : Str) : Str := ((s.dropWhile isStripped).reverse.dropWhile isStripped).reverse

/-- `int(s)`, or `none` where Python raises `ValueError`. -/
def parseInt (s : Str) : Option Int := readSigned (strip s)

/-- The characters of a natural number are digits. -/
theorem toDigits_bounds {n : Nat} {c : Char} (h : c ∈ Nat.toDigits 10 n) :
    48 ≤ c.toNat ∧ c.toNat ≤ 57 := by
  have hd := Nat.isDigit_of_mem_toDigits (by decide) (by decide) h
  simp only [Char.isDigit, Bool.and_eq_true, decide_eq_true_eq, ge_iff_le,
    UInt32.le_iff_toNat_le] at hd
  exact hd

private theorem not_isSpace_of_bounds {c : Char} (h : 33 ≤ c.toNat ∧ c.toNat ≤ 57) :
    isSpace c = false := by
  rw [isSpace, if_pos (by omega)]
  simp only [Bool.or_eq_false_iff, Bool.and_eq_false_iff, decide_eq_false_iff_not,
    beq_eq_false_iff_ne]
  omega

private theorem ne_of_toNat_ne {c d : Char} (h : c.toNat ≠ d.toNat) : c ≠ d :=
  fun he => h (congrArg Char.toNat he)

private theorem readDigits_of_digits {s : Str} (n : Nat) (b : Bool) (hs : s ≠ [] ∨ b = true)
    (h : ∀ c ∈ s, 48 ≤ c.toNat ∧ c.toNat ≤ 57) :
    readDigits n b s = some (Nat.ofDigitChars 10 s n) := by
  induction s generalizing n b with
  | nil =>
    have hb : b = true := hs.resolve_left (fun hne => hne rfl)
    simp [readDigits, hb]
  | cons c s ih =>
    obtain ⟨hlo, hhi⟩ := h c List.mem_cons_self
    have hu : c ≠ '_' := ne_of_toNat_ne (by simp; omega)
    have hd : digitValue c = some (c.toNat - 48) := by
      rw [digitValue, if_pos (by omega), if_pos ⟨hlo, hhi⟩]
    rw [readDigits, if_neg hu, hd]
    simp only [Option.bind_eq_bind, Option.bind_some]
    rw [ih _ _ (Or.inr rfl) (fun d hm => h d (List.mem_cons_of_mem _ hm)), Nat.ofDigitChars_cons]
    rfl

private theorem strip_eq_self {s : Str} (h : ∀ c ∈ s, isSpace c = false) : strip s = s := by
  have hdrop : ∀ t : Str, (∀ c ∈ t, isSpace c = false) → t.dropWhile isSpace = t := by
    intro t ht
    cases t with
    | nil => rfl
    | cons c t => simp [List.dropWhile, ht c List.mem_cons_self]
  rw [strip, hdrop s h, hdrop _ (by simpa using h), List.reverse_reverse]

/-- `int(str(n))` for a natural number. -/
theorem parseInt_toDigits (n : Nat) : parseInt (Nat.toDigits 10 n) = some (n : Int) := by
  have hb : ∀ c ∈ Nat.toDigits 10 n, 48 ≤ c.toNat ∧ c.toNat ≤ 57 := fun _ => toDigits_bounds
  have hread := readDigits_of_digits (s := Nat.toDigits 10 n) 0 false
    (Or.inl Nat.toDigits_ne_nil) hb
  rw [parseInt, strip_eq_self (fun c hc => not_isSpace_of_bounds (by have := hb c hc; omega))]
  unfold readSigned
  split
  · next heq =>
    have := hb '+' (by rw [heq]; exact List.mem_cons_self)
    simp at this
  · next heq =>
    have := hb '-' (by rw [heq]; exact List.mem_cons_self)
    simp at this
  · rw [hread]
    simp

theorem strInt_natCast (n : Nat) : strInt n = Nat.toDigits 10 n := by
  rw [strInt, if_neg (by omega), Int.natAbs_natCast]

/-- The characters of a decimal number are digits or the sign. -/
theorem strInt_bounds {n : Int} {c : Char} (h : c ∈ strInt n) :
    45 ≤ c.toNat ∧ c.toNat ≤ 57 := by
  unfold strInt at h
  split at h
  · rcases List.mem_cons.mp h with rfl | h
    · decide
    · have := toDigits_bounds h
      omega
  · have := toDigits_bounds h
    omega

/-- `int(str(n))` -/
theorem parseInt_strInt (n : Int) : parseInt (strInt n) = some n := by
  by_cases hn : n < 0
  · have hdigits : ∀ c ∈ Nat.toDigits 10 n.natAbs, 48 ≤ c.toNat ∧ c.toNat ≤ 57 :=
      fun _ => toDigits_bounds
    have hspace : ∀ c ∈ strInt n, isSpace c = false := fun c hc =>
      not_isSpace_of_bounds (by have := strInt_bounds hc; omega)
    have habs : -(n.natAbs : Int) = n := by omega
    rw [parseInt, strip_eq_self hspace, strInt, if_pos hn, readSigned,
      readDigits_of_digits 0 false (.inl Nat.toDigits_ne_nil) hdigits, Nat.ofDigitChars_toDigits]
    · exact congrArg some habs
    · decide
    · decide
  · have hnat : (n.toNat : Int) = n := Int.toNat_of_nonneg (by omega)
    rw [← hnat, strInt_natCast, parseInt_toDigits]

theorem toDigits_head_ne_minus {n : Nat} {c : Char} {s : Str}
    (h : Nat.toDigits 10 n = c :: s) : c ≠ '-' := by
  have hb := toDigits_bounds (n := n) (c := c) (by rw [h]; exact List.mem_cons_self)
  exact ne_of_toNat_ne (by simp; omega)

/-- The decimal digits of a positive number do not begin with a zero. -/
theorem toDigits_head_ne_zero {n : Nat} (hn : 0 < n) {c : Char} {s : Str}
    (h : Nat.toDigits 10 n = c :: s) : c ≠ '0' := by
  induction n using Nat.strongRecOn generalizing c s with
  | ind n ih =>
    by_cases hlt : n < 10
    · rw [Nat.toDigits_of_lt_base hlt] at h
      have hc : c = n.digitChar := (List.cons.inj h).1.symm
      subst hc
      interval_cases n <;> decide
    · rw [Nat.toDigits_of_base_le (by decide) (by omega)] at h
      cases hd : Nat.toDigits 10 (n / 10) with
      | nil => exact absurd hd Nat.toDigits_ne_nil
      | cons d t =>
        rw [hd, List.cons_append] at h
        rw [← (List.cons.inj h).1]
        exact ih (n / 10) (by omega) (by omega) hd

/-- Text without white space stays as it is. -/
theorem stripText_eq_self {s : Str} (h : ∀ c ∈ s, isStripped c = false) : stripText s = s := by
  have hdrop : ∀ {s : Str}, (∀ c ∈ s, isStripped c = false) → s.dropWhile isStripped = s := by
    intro s h
    cases s with
    | nil => rfl
    | cons c s =>
      rw [List.dropWhile_cons_of_neg]
      rw [h c List.mem_cons_self]
      exact Bool.false_ne_true
  rw [stripText, hdrop h, hdrop fun c hc => h c (List.mem_reverse.mp hc), List.reverse_reverse]

end Python
