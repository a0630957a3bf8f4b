import Ccbt.Python.Bytes

/-!
# Stream ciphers

A key stream that is added to a text from a position on, and the feedback mode in which a block
cipher makes the key stream from the encrypted text. Both may be applied piece by piece.
-/

namespace Cipher

open Python

section KeyStream

variable {ks ks' : Nat → UInt8} {o o' : Nat}

/-- The text with the key stream from position `o` on added. -/
def xorFrom (ks : Nat → UInt8) : Nat → Bytes → Bytes
  | _, [] => []
  | o, b :: data => (b ^^^ ks o) :: xorFrom ks (o + 1) data

@[simp] theorem length_xorFrom (o : Nat) (data : Bytes) :
    (xorFrom ks o data).length = data.length := by
  induction data generalizing o with
  | nil => rfl
  | cons b data ih => rw [xorFrom, List.length_cons, ih, List.length_cons]

theorem xorFrom_append (o : Nat) (data more : Bytes) :
    xorFrom ks o (data ++ more) = xorFrom ks o data ++ xorFrom ks (o + data.length) more := by
  induction data generalizing o with
  | nil => rfl
  | cons b data ih =>
    rw [List.cons_append, xorFrom, ih, xorFrom, List.cons_append, List.length_cons,
      Nat.add_assoc, Nat.add_comm 1]

theorem take_xorFrom (o n : Nat) (data : Bytes) :
    (xorFrom ks o data).take n = xorFrom ks o (data.take n) := by
  induction data generalizing o n with
  | nil => rw [xorFrom, List.take_nil, xorFrom]
  | cons b data ih =>
    cases n with
    | zero => rfl
    | succ n => rw [xorFrom, List.take_succ_cons, List.take_succ_cons, xorFrom, ih]

/-- A key stream that begins later. -/
theorem xorFrom_shift (m o : Nat) (data : Bytes) :
    xorFrom (fun i => ks (m + i)) o data = xorFrom ks (m + o) data := by
  induction data generalizing o with
  | nil => rfl
  | cons b data ih =>
    rw [xorFrom, xorFrom, ih]
    rfl

theorem xor_xor_eq_iff {b k k' : UInt8} : b ^^^ k ^^^ k' = b ↔ k = k' := by
  rw [UInt8.xor_assoc]
  constructor
  · intro h
    have hzero : k ^^^ k' = 0 := by
      rw [← UInt8.xor_right_inj b, h, UInt8.xor_zero]
    exact UInt8.xor_eq_zero_iff.mp hzero
  · rintro rfl
    rw [UInt8.xor_self, UInt8.xor_zero]

/-- Adding another key stream gives the text back exactly if the key streams agree along it. -/
theorem xorFrom_xorFrom_eq_iff {data : Bytes} : xorFrom ks' o' (xorFrom ks o data) = data ↔
    ∀ i < data.length, ks (o + i) = ks' (o' + i) := by
  induction data generalizing o o' with
  | nil => exact iff_of_true rfl nofun
  | cons b data ih =>
    rw [xorFrom, xorFrom, List.cons.injEq, xor_xor_eq_iff, ih]
    constructor
    · rintro ⟨h0, h⟩ i hi
      cases i with
      | zero => exact h0
      | succ i =>
        have hnext := h i (Nat.lt_of_succ_lt_succ hi)
        rwa [Nat.add_assoc, Nat.add_comm 1, Nat.add_assoc, Nat.add_comm 1] at hnext
    · intro h
      refine ⟨h 0 (Nat.zero_lt_succ _), fun i hi => ?_⟩
      have hnext := h (i + 1) (Nat.succ_lt_succ hi)
      rwa [Nat.add_assoc, Nat.add_comm 1, Nat.add_assoc, Nat.add_comm 1]

/-- The key stream comes back to its beginning at the end of every piece. -/
def Repeats (ks : Nat → UInt8) : Nat → List Nat → Prop
  | _, [] => True
  | o, n :: lengths => (∀ i < n, ks (o + i) = ks i) ∧ Repeats ks (o + n) lengths

instance Repeats.decidable (ks : Nat → UInt8) : (o : Nat) → (lengths : List Nat) →
    Decidable (Repeats ks o lengths)
  | _, [] => .isTrue trivial
  | o, n :: lengths =>
    have := Repeats.decidable ks (o + n) lengths
    inferInstanceAs (Decidable ((∀ i < n, ks (o + i) = ks i) ∧ Repeats ks (o + n) lengths))

/-- A text is got back by adding the key stream from its beginning to every piece of what has been
encrypted only if the key stream repeats itself piece by piece. -/
theorem flatMap_xorFrom_eq_iff {pieces : List Bytes} :
    (pieces.map (xorFrom ks 0)).flatten = xorFrom ks o pieces.flatten ↔
      Repeats ks o (pieces.map List.length) := by
  induction pieces generalizing o with
  | nil => exact iff_of_true rfl trivial
  | cons piece pieces ih =>
    have hback : xorFrom ks 0 piece = xorFrom ks o piece ↔
        ∀ i < piece.length, ks (o + i) = ks i := by
      constructor
      · intro h
        have hself : xorFrom ks o (xorFrom ks o piece) = piece :=
          xorFrom_xorFrom_eq_iff.mpr fun _ _ => rfl
        rw [← h] at hself
        have hagree := xorFrom_xorFrom_eq_iff.mp hself
        intro i hi
        rw [← hagree i hi, Nat.zero_add]
      · intro h
        have hself : xorFrom ks o (xorFrom ks 0 piece) = piece :=
          xorFrom_xorFrom_eq_iff.mpr fun i hi => by rw [Nat.zero_add, h i hi]
        calc xorFrom ks 0 piece
            = xorFrom ks o (xorFrom ks o (xorFrom ks 0 piece)) :=
              (xorFrom_xorFrom_eq_iff.mpr fun _ _ => rfl).symm
          _ = xorFrom ks o piece := by rw [hself]
    have hlength : (xorFrom ks 0 piece).length = (xorFrom ks o piece).length := by
      rw [length_xorFrom, length_xorFrom]
    rw [List.map_cons, List.flatten_cons, List.flatten_cons, xorFrom_append, List.map_cons, Repeats,
      ← hback, ← ih]
    constructor
    · intro h
      exact List.append_inj h hlength
    · rintro ⟨hpiece, hrest⟩
      rw [hpiece, hrest]

end KeyStream

section Feedback

/-- The state of a block cipher in feedback mode: the block from which the key stream is made, and
the encrypted octets that have come since. -/
structure Feedback where
  register : Bytes
  pending : Bytes := []

namespace Feedback

-- a block cipher and the length of its blocks
variable {E : Bytes → Bytes} {n : Nat}

/-- The octet of the key stream that is next. -/
def key (E : Bytes → Bytes) (s : Feedback) : UInt8 := (E s.register).getD s.pending.length 0

/-- An encrypted octet goes into the state. -/
def shift (n : Nat) (s : Feedback) (c : UInt8) : Feedback :=
  if s.pending.length + 1 = n then { register := s.pending ++ [c] }
  else { s with pending := s.pending ++ [c] }

def encrypt (E : Bytes → Bytes) (n : Nat) : Feedback → Bytes → Bytes × Feedback
  | s, [] => ([], s)
  | s, b :: data =>
    let c := b ^^^ s.key E
    let (rest, s') := encrypt E n (s.shift n c) data
    (c :: rest, s')

def decrypt (E : Bytes → Bytes) (n : Nat) : Feedback → Bytes → Bytes × Feedback
  | s, [] => ([], s)
  | s, c :: data =>
    let (rest, s') := decrypt E n (s.shift n c) data
    ((c ^^^ s.key E) :: rest, s')

theorem encrypt_append (s : Feedback) (data more : Bytes) : encrypt E n s (data ++ more) =
    ((encrypt E n s data).1 ++ (encrypt E n (encrypt E n s data).2 more).1,
      (encrypt E n (encrypt E n s data).2 more).2) := by
  induction data generalizing s with
  | nil => rfl
  | cons b data ih =>
    rw [List.cons_append, encrypt, ih, encrypt]
    rfl

theorem decrypt_append (s : Feedback) (data more : Bytes) : decrypt E n s (data ++ more) =
    ((decrypt E n s data).1 ++ (decrypt E n (decrypt E n s data).2 more).1,
      (decrypt E n (decrypt E n s data).2 more).2) := by
  induction data generalizing s with
  | nil => rfl
  | cons c data ih =>
    rw [List.cons_append, decrypt, ih, decrypt]
    rfl

@[simp] theorem length_encrypt (s : Feedback) (data : Bytes) :
    (encrypt E n s data).1.length = data.length := by
  induction data generalizing s with
  | nil => rfl
  | cons b data ih => rw [encrypt, List.length_cons, ih, List.length_cons]

@[simp] theorem length_decrypt (s : Feedback) (data : Bytes) :
    (decrypt E n s data).1.length = data.length := by
  induction data generalizing s with
  | nil => rfl
  | cons c data ih => rw [decrypt, List.length_cons, ih, List.length_cons]

/-- From the same state on the text comes back. -/
theorem decrypt_encrypt (s : Feedback) (data : Bytes) :
    (decrypt E n s (encrypt E n s data).1).1 = data := by
  induction data generalizing s with
  | nil => rfl
  | cons b data ih =>
    rw [encrypt, decrypt]
    show (b ^^^ s.key E ^^^ s.key E) :: _ = _
    rw [ih, UInt8.xor_assoc, UInt8.xor_self, UInt8.xor_zero]

theorem take_encrypt (s : Feedback) (data : Bytes) (k : Nat) :
    (encrypt E n s data).1.take k = (encrypt E n s (data.take k)).1 := by
  have hsplit := encrypt_append (E := E) (n := n) s (data.take k) (data.drop k)
  rw [List.take_append_drop] at hsplit
  by_cases hk : k ≤ data.length
  · have hlength : (encrypt E n s (data.take k)).1.length = k := by
      rw [length_encrypt, List.length_take, Nat.min_eq_left hk]
    rw [hsplit, List.take_left' hlength]
  · have hle := Nat.le_of_not_le hk
    rw [List.take_of_length_le hle, List.take_of_length_le (by rwa [length_encrypt])]

/-- The register is used up to the end of its block, and makes no difference behind it. -/
theorem decrypt_eq_iff (r r' : Bytes) {pending : Bytes} (hpending : pending.length < n)
    (data : Bytes) :
    (decrypt E n ⟨r, pending⟩ data).1 = (decrypt E n ⟨r', pending⟩ data).1 ↔
      ∀ i, pending.length ≤ i → i < n → i < pending.length + data.length →
        (E r).getD i 0 = (E r').getD i 0 := by
  induction data generalizing pending with
  | nil =>
    refine iff_of_true rfl fun i hi _ hlt => ?_
    exact absurd hlt (Nat.not_lt_of_le hi)
  | cons c data ih =>
    rw [decrypt, decrypt, List.cons.injEq, UInt8.xor_right_inj]
    show (E r).getD pending.length 0 = (E r').getD pending.length 0 ∧ _ ↔ _
    by_cases hend : pending.length + 1 = n
    · have hsame : shift n ⟨r, pending⟩ c = shift n ⟨r', pending⟩ c := by
        rw [shift, if_pos hend, shift, if_pos hend]
      rw [hsame]
      constructor
      · rintro ⟨hkey, -⟩ i hi hn -
        obtain rfl : i = pending.length := by omega
        exact hkey
      · intro h
        refine ⟨h _ le_rfl hpending ?_, rfl⟩
        rw [List.length_cons]
        omega
    · have hnext : ∀ r, shift n ⟨r, pending⟩ c = ⟨r, pending ++ [c]⟩ := fun r => if_neg hend
      have hlength : (pending ++ [c]).length = pending.length + 1 := by
        rw [List.length_append, List.length_singleton]
      rw [hnext, hnext, ih (by omega), hlength, List.length_cons]
      constructor
      · rintro ⟨hkey, h⟩ i hi hn hlt
        rcases Nat.eq_or_lt_of_le hi with rfl | hi
        · exact hkey
        · exact h i hi hn (by omega)
      · intro h
        exact ⟨h _ le_rfl hpending (by omega), fun i hi hn hlt => h i (by omega) hn (by omega)⟩

/-- With another register the text comes back exactly if both give the same key stream for the
first block of it. -/
theorem decrypt_encrypt_eq_iff (r r' : Bytes) (hn : 0 < n) (data : Bytes) :
    (decrypt E n ⟨r', []⟩ (encrypt E n ⟨r, []⟩ data).1).1 = data ↔
      ∀ i < min n data.length, (E r).getD i 0 = (E r').getD i 0 := by
  have hsame := decrypt_encrypt (E := E) (n := n) ⟨r, []⟩ data
  have hempty : ([] : Bytes).length < n := hn
  have hiff := decrypt_eq_iff (E := E) r r' hempty (encrypt E n ⟨r, []⟩ data).1
  rw [hsame, length_encrypt, eq_comm] at hiff
  rw [hiff]
  constructor
  · intro h i hi
    rw [Nat.lt_min] at hi
    exact h i (Nat.zero_le _) hi.1 (by simpa using hi.2)
  · intro h i _ hn hlt
    exact h i (Nat.lt_min.mpr ⟨hn, by simpa using hlt⟩)

end Feedback

end Feedback

end Cipher
