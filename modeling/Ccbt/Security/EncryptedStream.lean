import Mathlib.Data.Nat.Digits.Lemmas
import Mathlib.Dynamics.PeriodicPts.Lemmas
import Ccbt.Security.Ciphers

/-!
# What a reader gets of an encrypted stream

What a cipher object does to all that it is still given is one function of the octets, however they
are cut, apart from the decryption of RC4, which begins again with every call. AES and ChaCha20 make
up an IV or a nonce for every object.
-/

namespace Ccbt

open Python Cipher

namespace Security

namespace RC4Cipher

/-- The state after some octets of the key stream. -/
def after (c : RC4Cipher) : Nat → RC4Cipher
  | 0 => c
  | n + 1 => c.next.2.after n

def keyStream (c : RC4Cipher) (n : Nat) : UInt8 := (c.after n).next.1

theorem next_after (c : RC4Cipher) (n : Nat) : (c.after n).next.2 = c.after (n + 1) := by
  induction n generalizing c with
  | zero => rfl
  | succ n ih => exact ih c.next.2

theorem keyStream_succ (c : RC4Cipher) (n : Nat) : c.keyStream (n + 1) = c.next.2.keyStream n := rfl

theorem keyStream_after (c : RC4Cipher) (m : Nat) :
    (c.after m).keyStream = fun n => c.keyStream (m + n) := by
  funext n
  induction m generalizing c with
  | zero => rw [Nat.zero_add, after]
  | succ m ih => rw [after, ih, Nat.add_right_comm, keyStream_succ]

theorem zipWith_prga (c : RC4Cipher) (o : Nat) (data : Bytes) :
    List.zipWith (· ^^^ ·) data ((c.after o).prga data.length).1 = xorFrom c.keyStream o data ∧
      ((c.after o).prga data.length).2 = c.after (o + data.length) := by
  induction data generalizing o with
  | nil => exact ⟨rfl, rfl⟩
  | cons b data ih =>
    obtain ⟨hdata, hstate⟩ := ih (o + 1)
    rw [List.length_cons, prga]
    dsimp only
    rw [next_after, List.zipWith_cons_cons, hdata, hstate, xorFrom, Nat.add_assoc, Nat.add_comm 1]
    exact ⟨rfl, rfl⟩

/-- Encryption adds the key stream from where it stands on. -/
theorem encrypt_after (c : RC4Cipher) (o : Nat) (data : Bytes) :
    (c.after o).encrypt data = (xorFrom c.keyStream o data, c.after (o + data.length)) := by
  rw [encrypt]
  cases data with
  | nil => rfl
  | cons b data =>
    obtain ⟨hdata, hstate⟩ := c.zipWith_prga o (b :: data)
    rw [List.isEmpty_cons, if_neg Bool.false_ne_true]
    exact Prod.ext hdata hstate

/-- Decryption adds it from its beginning on. -/
theorem decrypt_eq (c : RC4Cipher) (data : Bytes) :
    c.decrypt data = xorFrom (new c.key c.key_ne).keyStream 0 data := by
  rw [decrypt]
  exact congrArg Prod.fst ((new c.key c.key_ne).encrypt_after 0 data)

section Packed

/-! The state as one number, on which the schedule is soon computed. -/

def octet (n i : Nat) : Nat := n >>> (8 * i) % 256

def swapOctets (n a b : Nat) : Nat :=
  n ^^^ (octet n a ^^^ octet n b) <<< (8 * a) ^^^ (octet n a ^^^ octet n b) <<< (8 * b)

theorem octet_lt (n i : Nat) : octet n i < 2 ^ 8 := Nat.mod_lt _ (by decide)

theorem octet_xor (n m i : Nat) : octet (n ^^^ m) i = octet n i ^^^ octet m i := by
  rw [octet, Nat.shiftRight_xor_distrib]
  exact Nat.xor_mod_two_pow (n := 8)

theorem octet_shiftLeft {d : Nat} (hd : d < 2 ^ 8) (a i : Nat) :
    octet (d <<< (8 * a)) i = if i = a then d else 0 := by
  refine Nat.eq_of_testBit_eq fun k => ?_
  rw [octet, Nat.testBit_mod_two_pow (j := 8), Nat.testBit_shiftRight, Nat.testBit_shiftLeft]
  by_cases hk : k < 8
  · split
    · next h => simp [h, hk]
    · next h =>
      by_cases hle : 8 * a ≤ 8 * i + k
      · have hbig : 2 ^ 8 ≤ 2 ^ (8 * i + k - 8 * a) := Nat.pow_le_pow_right two_pos (by omega)
        simp [Nat.testBit_lt_two_pow (hd.trans_le hbig)]
      · simp [hle]
  · have hbig : 2 ^ 8 ≤ 2 ^ k := Nat.pow_le_pow_right two_pos (by omega)
    split
    · simp [hk, Nat.testBit_lt_two_pow (hd.trans_le hbig)]
    · simp [hk]

theorem octet_swapOctets (n a b i : Nat) : octet (swapOctets n a b) i =
    if i = b then octet n a else if i = a then octet n b else octet n i := by
  have hd := Nat.xor_lt_two_pow (octet_lt n a) (octet_lt n b)
  rw [swapOctets, octet_xor, octet_xor, octet_shiftLeft hd, octet_shiftLeft hd]
  by_cases hb : i = b
  · by_cases ha : i = a
    · subst hb ha
      simp
    · subst hb
      rw [if_neg ha, if_pos rfl, if_pos rfl, Nat.xor_zero, Nat.xor_comm, Nat.xor_assoc,
        Nat.xor_self, Nat.xor_zero]
  · by_cases ha : i = a
    · subst ha
      rw [if_pos rfl, if_neg hb, if_neg hb, if_pos rfl, Nat.xor_zero, ← Nat.xor_assoc,
        Nat.xor_self, Nat.zero_xor]
    · rw [if_neg ha, if_neg hb, if_neg hb, if_neg ha, Nat.xor_zero, Nat.xor_zero]

theorem get_swap (s : Vector UInt8 256) (a b i : UInt8) : (swap s a b).get i.toFin =
    if i = b then s.get a.toFin else if i = a then s.get b.toFin else s.get i.toFin := by
  have hget := @Vector.getElem_swap _ _ s a.toNat b.toNat a.toNat_lt b.toNat_lt i.toNat i.toNat_lt
  rw [show (swap s a b).get i.toFin = _ from hget]
  simp only [UInt8.toNat_inj]
  by_cases hb : i = b
  · by_cases ha : i = a
    · subst ha hb
      rw [if_pos rfl, if_pos rfl]
      rfl
    · rw [if_neg ha, if_pos hb, if_pos hb]
      rfl
  · rw [if_neg hb, if_neg hb]
    rfl

/-- The number has the octets of the state. -/
def Packs (n : Nat) (s : Vector UInt8 256) : Prop :=
  ∀ i : UInt8, octet n i.toNat = (s.get i.toFin).toNat

theorem Packs.swap {n : Nat} {s : Vector UInt8 256} (h : Packs n s) (a b : UInt8) :
    Packs (swapOctets n a.toNat b.toNat) (swap s a b) := by
  intro i
  rw [octet_swapOctets, h a, h b, h i, get_swap]
  simp only [UInt8.toNat_inj]
  split
  · rfl
  · split <;> rfl

/-- `schedule` on packed octets. -/
def scheduleOctets (key : Bytes) (state : Nat × Nat) (i : Nat) : Nat × Nat :=
  let j := (state.2 + octet state.1 i + (key.getD (i % key.length) 0).toNat) % 256
  (swapOctets state.1 i j, j)

theorem Packs.schedule {n : Nat} {state : Vector UInt8 256 × UInt8} (h : Packs n state.1)
    (key : Bytes) (i : UInt8) :
    Packs (scheduleOctets key (n, state.2.toNat) i.toNat).1 (schedule key state i).1 ∧
      (scheduleOctets key (n, state.2.toNat) i.toNat).2 = (schedule key state i).2.toNat := by
  have hj : (state.2.toNat + octet n i.toNat + (key.getD (i.toNat % key.length) 0).toNat) % 256 =
      (state.2 + state.1.get i.toFin + key.getD (i.toNat % key.length) 0).toNat := by
    rw [h i, UInt8.toNat_add, UInt8.toNat_add, Nat.mod_add_mod]
  refine ⟨?_, hj⟩
  show Packs (swapOctets n i.toNat _) _
  rw [hj]
  exact h.swap i _

theorem Packs.foldl_schedule (key : Bytes) (is : List UInt8) {n : Nat}
    (state : Vector UInt8 256 × UInt8) (h : Packs n state.1) :
    Packs ((is.map UInt8.toNat).foldl (scheduleOctets key) (n, state.2.toNat)).1
      (is.foldl (RC4Cipher.schedule key) state).1 := by
  induction is generalizing n state with
  | nil => exact h
  | cons i is ih =>
    obtain ⟨hs, hj⟩ := h.schedule key i
    have hstep := ih _ hs
    rw [← hj] at hstep
    exact hstep

/-- The octets `0, 1, .., 255`. -/
theorem packs_ofFn :
    Packs (Nat.ofDigits 256 (List.range 256)) (Vector.ofFn fun i => UInt8.ofNat i) := by
  intro i
  have hget : ((Vector.ofFn fun i : Fin 256 => UInt8.ofNat i).get i.toFin) = UInt8.ofNat i.toNat :=
    Vector.getElem_ofFn i.toNat_lt
  have hlast : (List.range 256).getLast (List.range_eq_nil.not.mpr (by decide)) ≠ 0 := by
    rw [List.getLast_range]
    decide
  rw [hget, octet, Nat.shiftRight_eq_div_pow, Nat.pow_mul, show 2 ^ 8 = 256 from rfl,
    ← Nat.getD_digits _ _ (by decide), Nat.digits_ofDigits 256 (by decide) _
      (fun d hd => List.mem_range.mp hd) (fun _ => hlast), UInt8.ofNat_toNat,
    List.getD_eq_getElem?_getD, List.getElem?_range i.toNat_lt, Option.getD_some]

theorem map_toNat_ofNat : ((List.range 256).map UInt8.ofNat).map UInt8.toNat = List.range 256 := by
  rw [List.map_map]
  refine (List.map_congr_left fun i hi => ?_).trans (List.map_id _)
  exact UInt8.toNat_ofNat_of_lt (List.mem_range.mp hi)

theorem packs_new (key : Bytes) (key_ne : key ≠ []) :
    Packs ((List.range 256).foldl (scheduleOctets key) (Nat.ofDigits 256 (List.range 256), 0)).1
      (new key key_ne).s := by
  have h := packs_ofFn.foldl_schedule key ((List.range 256).map UInt8.ofNat) (_, 0)
  rwa [map_toNat_ofNat] at h

theorem Packs.get_add {n : Nat} {s : Vector UInt8 256} (h : Packs n s) (a b : UInt8) :
    octet n ((octet n a.toNat + octet n b.toNat) % 256) =
      (s.get (s.get a.toFin + s.get b.toFin).toFin).toNat := by
  have hsum : (octet n a.toNat + octet n b.toNat) % 256 =
      (s.get a.toFin + s.get b.toFin).toNat := by rw [h a, h b, UInt8.toNat_add]
  rw [hsum, h]

/-- `next` on packed octets, with `i` and `j`. -/
def nextOctets (state : Nat × Nat × Nat) : Nat × Nat × Nat × Nat :=
  let i := (state.2.1 + 1) % 256
  let j := (state.2.2 + octet state.1 i) % 256
  let n := swapOctets state.1 i j
  (octet n ((octet n i + octet n j) % 256), n, i, j)

theorem Packs.next {c : RC4Cipher} {n : Nat} (h : Packs n c.s) :
    (nextOctets (n, c.i.toNat, c.j.toNat)).1 = c.next.1.toNat ∧
      Packs (nextOctets (n, c.i.toNat, c.j.toNat)).2.1 c.next.2.s ∧
      (nextOctets (n, c.i.toNat, c.j.toNat)).2.2 = (c.next.2.i.toNat, c.next.2.j.toNat) := by
  have hi : (c.i.toNat + 1) % 256 = (c.i + 1).toNat := by rw [UInt8.toNat_add]; rfl
  have hj : (c.j.toNat + octet n (c.i + 1).toNat) % 256 =
      (c.j + c.s.get (c.i + 1).toFin).toNat := by rw [h, UInt8.toNat_add]
  have hs := h.swap (c.i + 1) (c.j + c.s.get (c.i + 1).toFin)
  simp only [nextOctets, hi, hj]
  exact ⟨hs.get_add _ _, hs, rfl⟩

/-- The first two octets of the key stream, from packed octets. -/
theorem keyStream_packed (key : Bytes) (key_ne : key ≠ []) :
    let start := ((List.range 256).foldl (scheduleOctets key)
      (Nat.ofDigits 256 (List.range 256), 0)).1
    ((new key key_ne).keyStream 0).toNat = (nextOctets (start, 0, 0)).1 ∧
      ((new key key_ne).keyStream 1).toNat = (nextOctets (nextOctets (start, 0, 0)).2).1 := by
  intro start
  obtain ⟨hk, hs, hij⟩ := (packs_new key key_ne).next
  refine ⟨hk.symm, ?_⟩
  have hk' := hs.next.1
  rw [← hij] at hk'
  exact hk'.symm

end Packed

section Permutation

/-! The state as a permutation of the octets. -/

/-- No octet is twice in the state, so every octet is in it. -/
def Permutes (s : Vector UInt8 256) : Prop := Function.Injective fun i : UInt8 => s.get i.toFin

theorem get_swap_comp (s : Vector UInt8 256) (a b : UInt8) :
    (fun i : UInt8 => (swap s a b).get i.toFin) = (fun i => s.get i.toFin) ∘ Equiv.swap a b := by
  funext i
  rw [get_swap, Function.comp_apply, Equiv.swap_apply_def]
  by_cases ha : i = a
  · by_cases hb : i = b
    · rw [if_pos hb, if_pos ha, ← ha, hb]
    · rw [if_neg hb, if_pos ha, if_pos ha]
  · by_cases hb : i = b
    · rw [if_pos hb, if_neg ha, if_pos hb]
    · rw [if_neg hb, if_neg ha, if_neg ha, if_neg hb]

theorem Permutes.swap {s : Vector UInt8 256} (h : Permutes s) (a b : UInt8) :
    Permutes (swap s a b) := by
  rw [Permutes, get_swap_comp]
  exact h.comp (Equiv.swap a b).injective

theorem permutes_ofFn : Permutes (Vector.ofFn fun i => UInt8.ofNat i) := by
  intro a b hab
  have hget : ∀ i : UInt8, (Vector.ofFn fun i : Fin 256 => UInt8.ofNat i).get i.toFin = i :=
    fun i => (Vector.getElem_ofFn i.toNat_lt).trans UInt8.ofNat_toNat
  simpa only [hget] using hab

theorem Permutes.foldl_schedule (key : Bytes) (is : List UInt8) :
    ∀ state : Vector UInt8 256 × UInt8, Permutes state.1 →
      Permutes (is.foldl (schedule key) state).1 := by
  induction is with
  | nil => exact fun _ h => h
  | cons i is ih => exact fun state h => ih _ (h.swap _ _)

theorem permutes_new (key : Bytes) (key_ne : key ≠ []) : Permutes (new key key_ne).s :=
  Permutes.foldl_schedule key _ _ permutes_ofFn

theorem Permutes.after {c : RC4Cipher} (h : Permutes c.s) (n : Nat) : Permutes (c.after n).s := by
  induction n generalizing c with
  | zero => exact h
  | succ n ih => exact ih (h.swap _ _)

theorem swap_swap (s : Vector UInt8 256) (a b : UInt8) : swap (swap s a b) a b = s :=
  Vector.swap_swap _ _

/-- The state before a step can be told from the state after it. -/
theorem next_injective {c c' : RC4Cipher} (h : c.next.2 = c'.next.2) : c = c' := by
  obtain ⟨key, key_ne, s, i, j⟩ := c
  obtain ⟨key', key_ne', s', i', j'⟩ := c'
  simp only [next, mk.injEq, UInt8.add_left_inj] at h
  obtain ⟨rfl, hs, rfl, hj⟩ := h
  rw [hj] at hs
  have hs' : s = s' := by
    rw [← swap_swap s (i + 1) (j' + s'.get (i + 1).toFin), hs, swap_swap]
  subst hs'
  obtain rfl := (UInt8.add_left_inj _).mp hj
  rfl

/-- A step of the ciphers with one key. -/
def stepOf (key : Bytes) (c : { c : RC4Cipher // c.key = key }) :
    { c : RC4Cipher // c.key = key } :=
  ⟨c.val.next.2, c.property⟩

theorem finite_key (key : Bytes) : Finite { c : RC4Cipher // c.key = key } := by
  let octets (c : { c : RC4Cipher // c.key = key }) : (Fin 256 → Fin 256) × Fin 256 × Fin 256 :=
    (fun k => (c.val.s.get k).toFin, c.val.i.toFin, c.val.j.toFin)
  refine Finite.of_injective octets ?_
  rintro ⟨⟨key, key_ne, s, i, j⟩, rfl⟩ ⟨⟨key', key_ne', s', i', j'⟩, hkey⟩ h
  obtain ⟨hs, hij⟩ := Prod.mk.inj h
  obtain ⟨hi, hj⟩ := Prod.mk.inj hij
  have hs' : s = s' := Vector.ext fun k hk => UInt8.toFin_inj.mp (congrFun hs ⟨k, hk⟩)
  subst hs'
  obtain rfl : i = i' := UInt8.toFin_inj.mp hi
  obtain rfl : j = j' := UInt8.toFin_inj.mp hj
  obtain rfl : key' = key := hkey
  rfl

theorem stepOf_iterate (c : RC4Cipher) (n : Nat) :
    ((stepOf c.key)^[n] ⟨c, rfl⟩).val = c.after n := by
  induction n with
  | zero => rfl
  | succ n ih =>
    rw [Function.iterate_succ_apply', ← next_after, ← ih]
    rfl

/-- Every state comes back, since a step can be undone and there are finitely many states. -/
theorem exists_after_eq (c : RC4Cipher) : ∃ p > 0, c.after p = c := by
  have := finite_key c.key
  have hinj : Function.Injective (stepOf c.key) := fun a b hab =>
    Subtype.ext (next_injective (congrArg Subtype.val hab))
  obtain ⟨p, hp, hback⟩ := Function.mem_periodicPts.mp (hinj.mem_periodicPts ⟨c, rfl⟩)
  refine ⟨p, hp, ?_⟩
  rw [← stepOf_iterate]
  exact congrArg Subtype.val hback

/-- The cipher after some texts have been encrypted. -/
def encryptAll (c : RC4Cipher) (texts : List Bytes) : RC4Cipher :=
  texts.foldl (fun c data => (c.encrypt data).2) c

theorem after_add (c : RC4Cipher) (m n : Nat) : c.after (m + n) = (c.after m).after n := by
  induction m generalizing c with
  | zero => rw [Nat.zero_add, after]
  | succ m ih => rw [Nat.add_right_comm, after, after, ih]

theorem encryptAll_eq (c : RC4Cipher) (texts : List Bytes) :
    c.encryptAll texts = c.after texts.flatten.length := by
  induction texts generalizing c with
  | nil => rfl
  | cons data texts ih =>
    have h := c.encrypt_after 0 data
    rw [after, Nat.zero_add] at h
    rw [encryptAll, List.foldl_cons, h, ← encryptAll, ih, List.flatten_cons, List.length_append,
      after_add]

/-- Whatever has been encrypted, the state is a permutation of the octets that depends on the number
of encrypted octets only, and from there on the key stream is periodic. -/
theorem encryptAll_new (key : Bytes) (key_ne : key ≠ []) (texts : List Bytes) :
    (new key key_ne).encryptAll texts = (new key key_ne).after texts.flatten.length ∧
      Permutes ((new key key_ne).encryptAll texts).s ∧
      ∃ p > 0, ∀ n, ((new key key_ne).encryptAll texts).keyStream (n + p) =
        ((new key key_ne).encryptAll texts).keyStream n := by
  have hrun := (new key key_ne).encryptAll_eq texts
  refine ⟨hrun, ?_, ?_⟩
  · rw [hrun]
    exact (permutes_new key key_ne).after _
  · obtain ⟨p, hp, hback⟩ := ((new key key_ne).encryptAll texts).exists_after_eq
    refine ⟨p, hp, fun n => ?_⟩
    rw [Nat.add_comm, keyStream, after_add, hback, keyStream]

theorem encryptAll_oneTwo :
    Permutes ((new [1, 2] (List.cons_ne_nil _ _)).encryptAll [[3], [4, 5]]).s :=
  (encryptAll_new [1, 2] (List.cons_ne_nil _ _) [[3], [4, 5]]).2.1

end Permutation

end RC4Cipher

namespace AESCipher

/-- The context of the encryption, made if it is not there. -/
def encryption (c : AESCipher) : Feedback := c.encryptor.getD { register := c.iv }

def decryption (c : AESCipher) : Feedback := c.decryptor.getD { register := c.iv }

variable {P : Primitives}

theorem encrypt_eq (c : AESCipher) (data : Bytes) :
    (c.encrypt P data).1 = (Feedback.encrypt (P.aes c.key) 16 c.encryption data).1 ∧
      (c.encrypt P data).2.encryption =
        (Feedback.encrypt (P.aes c.key) 16 c.encryption data).2 ∧
      (c.encrypt P data).2.key = c.key := by
  rw [encrypt]
  cases data with
  | nil => exact ⟨rfl, rfl, rfl⟩
  | cons b data => exact ⟨rfl, rfl, rfl⟩

theorem decrypt_eq (c : AESCipher) (data : Bytes) :
    (c.decrypt P data).1 = (Feedback.decrypt (P.aes c.key) 16 c.decryption data).1 ∧
      (c.decrypt P data).2.decryption =
        (Feedback.decrypt (P.aes c.key) 16 c.decryption data).2 ∧
      (c.decrypt P data).2.key = c.key := by
  rw [decrypt]
  cases data with
  | nil => exact ⟨rfl, rfl, rfl⟩
  | cons b data => exact ⟨rfl, rfl, rfl⟩

end AESCipher

namespace ChaCha20Cipher

/-- The position of the encryption in the key stream. -/
def encryption (c : ChaCha20Cipher) : Nat := c.encryptor.getD 0

def decryption (c : ChaCha20Cipher) : Nat := c.decryptor.getD 0

variable {P : Primitives}

theorem encrypt_eq (c : ChaCha20Cipher) (data : Bytes) :
    (c.encrypt P data).1 = xorFrom (P.chacha20 c.key c.nonce) c.encryption data ∧
      (c.encrypt P data).2.encryption = c.encryption + data.length ∧
      (c.encrypt P data).2.key = c.key ∧ (c.encrypt P data).2.nonce = c.nonce := by
  rw [encrypt]
  cases data with
  | nil => exact ⟨rfl, rfl, rfl, rfl⟩
  | cons b data => exact ⟨rfl, rfl, rfl, rfl⟩

theorem decrypt_eq (c : ChaCha20Cipher) (data : Bytes) :
    (c.decrypt P data).1 = xorFrom (P.chacha20 c.key c.nonce) c.decryption data ∧
      (c.decrypt P data).2.decryption = c.decryption + data.length ∧
      (c.decrypt P data).2.key = c.key ∧ (c.decrypt P data).2.nonce = c.nonce := by
  rw [decrypt]
  cases data with
  | nil => exact ⟨rfl, rfl, rfl, rfl⟩
  | cons b data => exact ⟨rfl, rfl, rfl, rfl⟩

end ChaCha20Cipher

namespace CipherSuite

/-- What the object makes of all the octets that it is still given to encrypt. -/
def encryption (P : Primitives) : CipherSuite → Bytes → Bytes
  | rc4 c, data => xorFrom c.keyStream 0 data
  | aes c, data => (Feedback.encrypt (P.aes c.key) 16 c.encryption data).1
  | chacha20 c, data => xorFrom (P.chacha20 c.key c.nonce) c.encryption data

/-- What it makes of the pieces that it is still given to decrypt. -/
def decryption (P : Primitives) : CipherSuite → List Bytes → Bytes
  | rc4 c, pieces => (pieces.map (xorFrom (RC4Cipher.new c.key c.key_ne).keyStream 0)).flatten
  | aes c, pieces => (Feedback.decrypt (P.aes c.key) 16 c.decryption pieces.flatten).1
  | chacha20 c, pieces => xorFrom (P.chacha20 c.key c.nonce) c.decryption pieces.flatten

variable {P : Primitives}

theorem encryption_nil (c : CipherSuite) : c.encryption P [] = [] := by
  cases c <;> rfl

theorem decryption_nil (c : CipherSuite) : c.decryption P [] = [] := by
  cases c <;> rfl

/-- A call of `encrypt` takes the first octets. -/
theorem encryption_append (c : CipherSuite) (data more : Bytes) :
    c.encryption P (data ++ more) =
      (c.encrypt P data).1 ++ (c.encrypt P data).2.encryption P more := by
  cases c with
  | rc4 c =>
    have h := c.encrypt_after 0 data
    rw [RC4Cipher.after, Nat.zero_add] at h
    rw [encryption, encrypt, encryption, h, RC4Cipher.keyStream_after, xorFrom_shift,
      xorFrom_append, Nat.add_zero, Nat.zero_add]
  | aes c =>
    obtain ⟨hout, hstate, hkey⟩ := c.encrypt_eq (P := P) data
    rw [encryption, encrypt, encryption, hout, hstate, hkey, Feedback.encrypt_append]
  | chacha20 c =>
    obtain ⟨hout, hstate, hkey, hnonce⟩ := c.encrypt_eq (P := P) data
    rw [encryption, encrypt, encryption, hout, hstate, hkey, hnonce, xorFrom_append]

/-- A call of `decrypt` takes the first piece. -/
theorem decryption_cons (c : CipherSuite) (piece : Bytes) (pieces : List Bytes) :
    c.decryption P (piece :: pieces) =
      (c.decrypt P piece).1 ++ (c.decrypt P piece).2.decryption P pieces := by
  cases c with
  | rc4 c =>
    rw [decryption, decrypt, decryption, List.map_cons, List.flatten_cons, c.decrypt_eq]
  | aes c =>
    obtain ⟨hout, hstate, hkey⟩ := c.decrypt_eq (P := P) piece
    rw [decryption, decrypt, decryption, hout, hstate, hkey, List.flatten_cons,
      Feedback.decrypt_append]
  | chacha20 c =>
    obtain ⟨hout, hstate, hkey, hnonce⟩ := c.decrypt_eq (P := P) piece
    rw [decryption, decrypt, decryption, hout, hstate, hkey, hnonce, List.flatten_cons,
      xorFrom_append]

theorem decryption_nil_cons (c : CipherSuite) (pieces : List Bytes) :
    c.decryption P ([] :: pieces) = c.decryption P pieces := by
  cases c <;> rfl

end CipherSuite

/-- What a writer has written. -/
theorem writer_foldl_write {P : Primitives} (w : EncryptedStreamWriter) (writes : List Bytes) :
    (writes.foldl (EncryptedStreamWriter.write P) w).writer =
      w.writer ++ w.cipher.encryption P writes.flatten := by
  induction writes generalizing w with
  | nil =>
    rw [List.flatten_nil, CipherSuite.encryption_nil, List.append_nil]
    rfl
  | cons data writes ih =>
    rw [List.foldl_cons, ih, List.flatten_cons, EncryptedStreamWriter.write]
    cases data with
    | nil => rfl
    | cons b data =>
      rw [List.isEmpty_cons, if_neg Bool.false_ne_true, CipherSuite.encryption_append,
        List.append_assoc]

namespace ReadCall

/-- The octets that the stream below returns, call by call. -/
def chunks : List ReadCall → Bytes → List Bytes
  | [], _ => []
  | call :: calls, stream =>
    stream.take (call.taken stream.length).1 ::
      chunks calls (stream.drop (call.taken stream.length).2)

/-- How many octets the calls return, if so many are left. -/
def lengths : List ReadCall → Nat → List Nat
  | [], _ => []
  | call :: calls, left => (call.taken left).1 :: lengths calls (left - (call.taken left).2)

theorem returned_le (call : ReadCall) (left : Nat) : (call.taken left).1 ≤ left := by
  unfold taken
  split
  · split
    · exact le_rfl
    · exact Nat.min_le_left _ _
  · split
    · assumption
    · exact Nat.zero_le _

/-- Either a call uses up what it returns, or it raises and nothing is left. -/
theorem used_eq (call : ReadCall) (left : Nat) :
    (call.taken left).2 = (call.taken left).1 ∨
      (call.taken left).1 = 0 ∧ (call.taken left).2 = left := by
  unfold taken
  split
  · split
    · exact .inl rfl
    · exact .inl rfl
  · split
    · exact .inl rfl
    · exact .inr ⟨rfl, rfl⟩

theorem map_length_chunks (calls : List ReadCall) (stream : Bytes) :
    (chunks calls stream).map List.length = lengths calls stream.length := by
  induction calls generalizing stream with
  | nil => rfl
  | cons call calls ih =>
    rw [chunks, List.map_cons, ih, List.length_take, List.length_drop, lengths,
      Nat.min_eq_left (call.returned_le _)]

theorem chunks_nil (calls : List ReadCall) : (chunks calls []).flatten = [] := by
  induction calls with
  | nil => rfl
  | cons call calls ih =>
    rw [chunks, List.flatten_cons, List.take_nil, List.drop_nil, ih]
    rfl

/-- What is returned is the beginning of the stream. -/
theorem flatten_chunks (calls : List ReadCall) (stream : Bytes) :
    (chunks calls stream).flatten = stream.take (lengths calls stream.length).sum := by
  induction calls generalizing stream with
  | nil => rfl
  | cons call calls ih =>
    rw [chunks, List.flatten_cons, lengths, List.sum_cons]
    rcases call.used_eq stream.length with hused | ⟨hzero, hall⟩
    · rw [hused, ih, List.length_drop, ← List.take_add]
    · have hrest : (lengths calls (stream.length - stream.length)).sum = 0 := by
        have hnil := congrArg List.sum (map_length_chunks calls [])
        rw [← List.length_flatten, chunks_nil] at hnil
        rw [Nat.sub_self]
        exact hnil.symm
      rw [hzero, hall, List.drop_length, chunks_nil, hrest]
      rfl

end ReadCall

/-- What a reader returns. -/
theorem flatten_readAll {P : Primitives} (calls : List ReadCall) (r : EncryptedStreamReader) :
    (EncryptedStreamReader.readAll P calls r).flatten =
      r.cipher.decryption P (ReadCall.chunks calls r.reader) := by
  induction calls generalizing r with
  | nil => rw [ReadCall.chunks, CipherSuite.decryption_nil, EncryptedStreamReader.readAll]; rfl
  | cons call calls ih =>
    rw [EncryptedStreamReader.readAll, List.flatten_cons, ih, ReadCall.chunks,
      EncryptedStreamReader.read]
    dsimp only
    cases hchunk : r.reader.take (call.taken r.reader.length).1 with
    | nil => rw [CipherSuite.decryption_nil_cons]; rfl
    | cons c chunk =>
      rw [List.isEmpty_cons, if_neg Bool.false_ne_true, CipherSuite.decryption_cons]

/-!
## When an encrypted stream is transparent

The text that is read is the text that has been written if the key stream of RC4 repeats itself at
every call of the reader, or if the IVs or nonces of the two objects give the same key stream.
-/

/-- Two new cipher objects with the same key. -/
inductive CipherPair
  | rc4 (key : Bytes) (key_ne : key ≠ [])
  | aes (key : Bytes) (key_length : key.length = 16 ∨ key.length = 32) (iv iv' : Token)
  | chacha20 (key : Bytes) (key_length : key.length = 32) (nonce nonce' : Token)

namespace CipherPair

def writer : CipherPair → CipherSuite
  | rc4 key key_ne => .rc4 (.new key key_ne)
  | aes key key_length iv _ => .aes ⟨key, key_length, iv.1, iv.length_val, none, none⟩
  | chacha20 key key_length nonce _ =>
    .chacha20 ⟨key, key_length, nonce.1, nonce.length_val, none, none⟩

def reader : CipherPair → CipherSuite
  | rc4 key key_ne => .rc4 (.new key key_ne)
  | aes key key_length _ iv' => .aes ⟨key, key_length, iv'.1, iv'.length_val, none, none⟩
  | chacha20 key key_length _ nonce' =>
    .chacha20 ⟨key, key_length, nonce'.1, nonce'.length_val, none, none⟩

/-- What a handshake creates on both sides from the same key is such a pair. -/
theorem of_create {token token' : Token} {key : Bytes} {cipher_type : CipherType}
    {c c' : CipherSuite} (h : CipherSuite.create token key cipher_type = some c)
    (h' : CipherSuite.create token' key cipher_type = some c') :
    ∃ pair : CipherPair, pair.writer = c ∧ pair.reader = c' := by
  cases cipher_type with
  | RC4 =>
    rw [CipherSuite.create] at h h'
    split at h
    · cases h
    · next hkey =>
      rw [dif_neg hkey] at h'
      exact ⟨rc4 _ hkey, Option.some.inj h, Option.some.inj h'⟩
  | AES =>
    rw [CipherSuite.create] at h h'
    split at h
    · next hkey =>
      rw [dif_pos hkey] at h'
      exact ⟨aes _ hkey token token', Option.some.inj h, Option.some.inj h'⟩
    · cases h
  | CHACHA20 =>
    rw [CipherSuite.create] at h h'
    split at h
    · next hkey =>
      rw [dif_pos hkey] at h'
      exact ⟨chacha20 _ hkey token token', Option.some.inj h, Option.some.inj h'⟩
    · cases h

/-- What is read is the beginning of what has been written. -/
def Transparent (P : Primitives) (pair : CipherPair) (writes : List Bytes)
    (calls : List ReadCall) : Prop :=
  let w := writes.foldl (EncryptedStreamWriter.write P) ⟨[], pair.writer⟩
  let got := (EncryptedStreamReader.readAll P calls ⟨w.writer, pair.reader⟩).flatten
  got = writes.flatten.take got.length

/-- The key streams of the objects agree as far as the reader needs them, where the calls return so
many octets. -/
def StreamsAgree (P : Primitives) (lengths : List Nat) : CipherPair → Prop
  | rc4 key key_ne => Repeats (RC4Cipher.new key key_ne).keyStream 0 lengths
  | aes key _ iv iv' => ∀ i < min 16 lengths.sum,
    (P.aes key iv.1).getD i 0 = (P.aes key iv'.1).getD i 0
  | chacha20 key _ nonce nonce' => ∀ i < lengths.sum,
    P.chacha20 key nonce.1 i = P.chacha20 key nonce'.1 i

variable {P : Primitives} {pair : CipherPair} {writes : List Bytes} {calls : List ReadCall}

theorem length_encryption (pair : CipherPair) (data : Bytes) :
    (pair.writer.encryption P data).length = data.length := by
  cases pair with
  | rc4 key key_ne => exact length_xorFrom _ _
  | aes key key_length iv iv' => exact Feedback.length_encrypt _ _
  | chacha20 key key_length nonce nonce' => exact length_xorFrom _ _

theorem take_encryption (pair : CipherPair) (data : Bytes) (n : Nat) :
    (pair.writer.encryption P data).take n = pair.writer.encryption P (data.take n) := by
  cases pair with
  | rc4 key key_ne => exact take_xorFrom _ _ _
  | aes key key_length iv iv' => exact Feedback.take_encrypt _ _ _
  | chacha20 key key_length nonce nonce' => exact take_xorFrom _ _ _

/-- What is decrypted in pieces is what has been encrypted. -/
theorem decryption_eq_iff (pair : CipherPair) {data : Bytes} {pieces : List Bytes}
    (hpieces : pieces.flatten = pair.writer.encryption P data) :
    pair.reader.decryption P pieces = data ↔ pair.StreamsAgree P (pieces.map List.length) := by
  have hlength : (pieces.map List.length).sum = data.length := by
    rw [← List.length_flatten, hpieces, length_encryption]
  cases pair with
  | rc4 key key_ne =>
    have hkey : (RC4Cipher.new key key_ne).key = key := rfl
    have hback : xorFrom (RC4Cipher.new key key_ne).keyStream 0 pieces.flatten = data := by
      rw [hpieces]
      exact xorFrom_xorFrom_eq_iff.mpr fun _ _ => rfl
    rw [StreamsAgree, ← flatMap_xorFrom_eq_iff, hback]
    exact Iff.rfl
  | aes key key_length iv iv' =>
    rw [StreamsAgree, hlength]
    show (Feedback.decrypt (P.aes key) 16 ⟨iv'.1, []⟩ pieces.flatten).1 = data ↔ _
    rw [hpieces]
    exact Feedback.decrypt_encrypt_eq_iff iv.1 iv'.1 (by decide) data
  | chacha20 key key_length nonce nonce' =>
    rw [StreamsAgree, hlength]
    show xorFrom (P.chacha20 key nonce'.1) 0 pieces.flatten = data ↔ _
    rw [hpieces]
    refine xorFrom_xorFrom_eq_iff.trans (forall₂_congr fun i _ => ?_)
    show P.chacha20 key nonce.1 (0 + i) = P.chacha20 key nonce'.1 (0 + i) ↔ _
    rw [Nat.zero_add]

theorem length_decryption (pair : CipherPair) (pieces : List Bytes) :
    (pair.reader.decryption P pieces).length = pieces.flatten.length := by
  cases pair with
  | rc4 key key_ne =>
    show ((pieces.map (xorFrom _ 0)).flatten).length = _
    rw [List.length_flatten, List.length_flatten, List.map_map]
    congr 1
    exact List.map_congr_left fun piece _ => length_xorFrom _ _
  | aes key key_length iv iv' => exact Feedback.length_decrypt _ _
  | chacha20 key key_length nonce nonce' => exact length_xorFrom _ _

/-- The pieces that reach the reader are the beginning of the encrypted text. -/
theorem flatten_chunks (pair : CipherPair) (calls : List ReadCall) (data : Bytes) :
    (ReadCall.chunks calls (pair.writer.encryption P data)).flatten =
      pair.writer.encryption P (data.take (ReadCall.lengths calls data.length).sum) := by
  rw [ReadCall.flatten_chunks, length_encryption, take_encryption]

theorem map_length_chunks (pair : CipherPair) (calls : List ReadCall) (data : Bytes) :
    (ReadCall.chunks calls (pair.writer.encryption P data)).map List.length =
      ReadCall.lengths calls data.length := by
  rw [ReadCall.map_length_chunks, length_encryption]

theorem transparent_iff_decryption : Transparent P pair writes calls ↔
    pair.reader.decryption P
        (ReadCall.chunks calls (pair.writer.encryption P writes.flatten)) =
      writes.flatten.take (ReadCall.lengths calls writes.flatten.length).sum := by
  have hgot : (pair.reader.decryption P
      (ReadCall.chunks calls (pair.writer.encryption P writes.flatten))).length =
      (ReadCall.lengths calls writes.flatten.length).sum := by
    rw [length_decryption, List.length_flatten, pair.map_length_chunks]
  rw [Transparent, writer_foldl_write, flatten_readAll, List.nil_append, hgot]

/-- An encrypted stream is transparent to these calls if and only if the key streams agree as far as
the reader needs them. -/
theorem transparent_iff : Transparent P pair writes calls ↔
    pair.StreamsAgree P (ReadCall.lengths calls writes.flatten.length) := by
  rw [transparent_iff_decryption, decryption_eq_iff pair (pair.flatten_chunks calls _),
    pair.map_length_chunks]

theorem key_ne : ascii "Key" ≠ [] := by decide

/-- Two octets that are written together and read one by one: the second octet of the key stream is
not the first. -/
theorem not_transparent_oneByOne : ¬∃ P, Transparent P (.rc4 (ascii "Key") key_ne) [[1, 2]]
    [.readexactly 1, .readexactly 1] := by
  rintro ⟨P, h⟩
  rw [transparent_iff_decryption, decryption_eq_iff _ (flatten_chunks _ _ _),
    map_length_chunks] at h
  have hfirst : Repeats (RC4Cipher.new (ascii "Key") key_ne).keyStream 0 [1, 1] := h
  have hsecond := hfirst.2.1 0 Nat.one_pos
  have hne : (RC4Cipher.new (ascii "Key") key_ne).keyStream 1 ≠
      (RC4Cipher.new (ascii "Key") key_ne).keyStream 0 := by
    obtain ⟨h0, h1⟩ := RC4Cipher.keyStream_packed (ascii "Key") key_ne
    rw [ne_eq, ← UInt8.toNat_inj, h0, h1]
    decide +kernel
  exact hne hsecond

end CipherPair

end Security

end Ccbt
