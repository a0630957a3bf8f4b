import Ccbt.Python.Bytes

/-!
# Mutable data in the DHT: `discovery/dht_storage.py`

A value is signed together with its salt and its sequence number. What is signed is the salt, the
number in eight octets and the value, one behind the other: nothing says where the salt ends. Of
the cryptography package there are the two signature schemes and the readers of keys.
-/

namespace Ccbt

open Python

namespace Discovery

/-- The keys of a scheme. `verify` takes the signature and the message, and is false where the
package raises. -/
structure SignatureScheme where
  PrivateKey : Type
  PublicKey : Type
  public_key : PrivateKey → PublicKey
  sign : PrivateKey → Bytes → Bytes
  verify : PublicKey → Bytes → Bytes → Bool
  verify_sign : ∀ private_key message,
    verify (public_key private_key) (sign private_key message) message = true

/-- A signature is good for the signed message only. -/
def SignatureScheme.Unforgeable (S : SignatureScheme) : Prop :=
  ∀ private_key message message',
    S.verify (S.public_key private_key) (S.sign private_key message) message' = true →
      message' = message

/-- What loading a PEM key gives. -/
inductive PemKey (RSAKey : Type)
  | invalid
  | rsa (key : RSAKey)
  | other

/-- What is used of the `cryptography` package. -/
structure Cryptography where
  /-- `ed25519` -/
  ed25519 : SignatureScheme
  /-- `rsa` with `PKCS1v15` and `SHA256` -/
  rsa : SignatureScheme
  /-- `Ed25519PrivateKey.from_private_bytes` -/
  from_private_bytes : Bytes → Option ed25519.PrivateKey
  /-- `Ed25519PublicKey.from_public_bytes` -/
  from_public_bytes : Bytes → Option ed25519.PublicKey
  load_pem_private_key : Bytes → PemKey rsa.PrivateKey
  load_pem_public_key : Bytes → PemKey rsa.PublicKey

inductive KeyType
  | ed25519
  | rsa
  deriving DecidableEq

inductive StorageError
  | runtimeError (msg : String)
  | valueError (msg : String)
  | overflowError
  /-- an error of the package about the private key -/
  | keyError

def Cryptography.detectKeyType (lib : Cryptography) (public_key_bytes : Bytes) : KeyType :=
  if public_key_bytes.length = 32 ∧ (lib.from_public_bytes public_key_bytes).isSome then .ed25519
  else if 32 < public_key_bytes.length then .rsa
  else .ed25519

/-- `salt + seq.to_bytes(8, "big") + data` -/
def signedMessage (data : Bytes) (seq : ℤ) (salt : Bytes) : Except StorageError Bytes :=
  if 0 ≤ seq ∧ seq < 2 ^ 64 then .ok (salt ++ bigEndian 8 seq.toNat ++ data)
  else .error .overflowError

def signMutableData (lib : Option Cryptography) (data public_key private_key : Bytes) (seq : ℤ)
    (salt : Bytes) : Except StorageError Bytes :=
  match lib with
  | none => .error (.runtimeError "Cryptography library not available for signing")
  | some lib => do
    let message ← signedMessage data seq salt
    match lib.detectKeyType public_key with
    | .ed25519 =>
      match lib.from_private_bytes private_key with
      | none => .error .keyError
      | some private_key_obj => .ok (lib.ed25519.sign private_key_obj message)
    | .rsa =>
      match lib.load_pem_private_key private_key with
      | .invalid => .error (.valueError "RSA keys must be in PEM format for BEP 44")
      | .rsa private_key_obj => .ok (lib.rsa.sign private_key_obj message)
      | .other => .error (.valueError "Unsupported key type for signing")

def verifyMutableDataSignature (lib : Option Cryptography) (data public_key signature : Bytes)
    (seq : ℤ) (salt : Bytes) : Except StorageError Bool :=
  match lib with
  | none => .ok false
  | some lib => do
    let message ← signedMessage data seq salt
    match lib.detectKeyType public_key with
    | .ed25519 =>
      if public_key.length ≠ 32 then .ok false
      else
        match lib.from_public_bytes public_key with
        | none => .ok false
        | some public_key_obj => .ok (lib.ed25519.verify public_key_obj signature message)
    | .rsa =>
      match lib.load_pem_public_key public_key with
      | .invalid => .ok false
      | .rsa public_key_obj => .ok (lib.rsa.verify public_key_obj signature message)
      | .other => .ok false

/-! ### What is signed -/

/-- The fields of a mutable item that its signature is for. -/
structure SignedFields where
  salt : Bytes
  seq : ℤ
  data : Bytes
  seq_nonneg : 0 ≤ seq
  seq_lt : seq < 2 ^ 64
  deriving DecidableEq

namespace SignedFields

variable {t t' : SignedFields}

def message (t : SignedFields) : Bytes := t.salt ++ bigEndian 8 t.seq.toNat ++ t.data

theorem signedMessage_eq (t : SignedFields) : signedMessage t.data t.seq t.salt = .ok t.message :=
  if_pos ⟨t.seq_nonneg, t.seq_lt⟩

theorem message_length (t : SignedFields) :
    t.message.length = t.salt.length + 8 + t.data.length := by
  simp only [message, List.length_append, bigEndian_length]

/-- Under salts of one length the fields can be told from what is signed. -/
theorem message_inj (hlen : t'.salt.length = t.salt.length) (h : t'.message = t.message) :
    t' = t := by
  rw [message, message, List.append_assoc, List.append_assoc] at h
  obtain ⟨hsalt, hrest⟩ := List.append_inj h hlen
  obtain ⟨hseq, hdata⟩ := List.append_inj hrest (by simp only [bigEndian_length])
  have hbound : ∀ t : SignedFields, t.seq.toNat < 256 ^ 8 := fun t => by
    have := t.seq_lt
    omega
  have hnat := bigEndian_injective (hbound t') (hbound t) hseq
  have hint : t'.seq = t.seq := by
    rw [← Int.toNat_of_nonneg t'.seq_nonneg, hnat, Int.toNat_of_nonneg t.seq_nonneg]
  cases t'
  cases t
  simp only [SignedFields.mk.injEq]
  exact ⟨hsalt, hint, hdata⟩

/-- What is signed for `t`, cut behind `k` octets: the fields of another item, with a salt of that
length. -/
def recut (t : SignedFields) (k : ℕ) : SignedFields where
  salt := t.message.take k
  seq := ofBigEndian ((t.message.drop k).take 8)
  data := t.message.drop (k + 8)
  seq_nonneg := Int.natCast_nonneg _
  seq_lt := by
    have hlt := ofBigEndian_lt ((t.message.drop k).take 8)
    have hlen : ((t.message.drop k).take 8).length ≤ 8 := List.length_take_le 8 _
    have hpow := Nat.pow_le_pow_right (by decide : 0 < 256) hlen
    exact_mod_cast hlt.trans_le hpow

theorem recut_salt_length {k : ℕ} (hk : k ≤ t.salt.length + t.data.length) :
    (t.recut k).salt.length = k := by
  rw [recut, List.length_take, message_length]
  omega

theorem recut_message {k : ℕ} (hk : k ≤ t.salt.length + t.data.length) :
    (t.recut k).message = t.message := by
  have hlen : ((t.message.drop k).take 8).length = 8 := by
    rw [List.length_take, List.length_drop, message_length]
    omega
  have hseq : bigEndian 8 ((t.recut k).seq.toNat) = (t.message.drop k).take 8 := by
    have hback := bigEndian_ofBigEndian ((t.message.drop k).take 8)
    rw [hlen] at hback
    rw [recut, Int.toNat_natCast, hback]
  rw [message, hseq, recut, List.append_assoc, ← List.drop_drop, List.take_append_drop,
    List.take_append_drop]

end SignedFields

/-! ### What a signature is good for -/

/-- The public key belongs to the private key. -/
def Cryptography.IsKeyPair (lib : Cryptography) (public_key private_key : Bytes) : Prop :=
  match lib.detectKeyType public_key with
  | .ed25519 => public_key.length = 32 ∧ ∃ private_key_obj,
      lib.from_private_bytes private_key = some private_key_obj ∧
        lib.from_public_bytes public_key = some (lib.ed25519.public_key private_key_obj)
  | .rsa => ∃ private_key_obj, lib.load_pem_private_key private_key = .rsa private_key_obj ∧
      lib.load_pem_public_key public_key = .rsa (lib.rsa.public_key private_key_obj)

/-- What is published under the signature for `t` is not signed for, and not verified with, other
fields whose salt has `k` octets. -/
def BindsFields (lib : Cryptography) (public_key private_key : Bytes) (t : SignedFields) (k : ℕ) :
    Prop :=
  ∃ signature,
    signMutableData (some lib) t.data public_key private_key t.seq t.salt = .ok signature ∧
    ∀ t' : SignedFields, t'.salt.length = k → t' ≠ t → t'.message ≠ t.message ∧
      verifyMutableDataSignature (some lib) t'.data public_key signature t'.seq t'.salt = .ok false

variable {lib : Cryptography} {public_key private_key : Bytes}

/-- A pair of keys signs and verifies in one of the schemes. -/
theorem scheme_of_isKeyPair (h : lib.IsKeyPair public_key private_key) :
    ∃ S, (S = lib.ed25519 ∨ S = lib.rsa) ∧ ∃ key : S.PrivateKey, ∀ t : SignedFields,
      signMutableData (some lib) t.data public_key private_key t.seq t.salt =
        .ok (S.sign key t.message) ∧
      ∀ signature, verifyMutableDataSignature (some lib) t.data public_key signature t.seq t.salt =
        .ok (S.verify (S.public_key key) signature t.message) := by
  rw [Cryptography.IsKeyPair] at h
  cases htype : lib.detectKeyType public_key with
  | ed25519 =>
    rw [htype] at h
    obtain ⟨hlen, key, hprivate, hpublic⟩ := h
    refine ⟨lib.ed25519, .inl rfl, key, fun t => ⟨?_, fun signature => ?_⟩⟩
    · simp only [signMutableData, t.signedMessage_eq, htype, hprivate]
      rfl
    · simp only [verifyMutableDataSignature, t.signedMessage_eq, htype, hlen, hpublic]
      rfl
  | rsa =>
    rw [htype] at h
    obtain ⟨key, hprivate, hpublic⟩ := h
    refine ⟨lib.rsa, .inr rfl, key, fun t => ⟨?_, fun signature => ?_⟩⟩
    · simp only [signMutableData, t.signedMessage_eq, htype, hprivate]
      rfl
    · simp only [verifyMutableDataSignature, t.signedMessage_eq, htype, hpublic]
      rfl

/-- With unforgeable signatures the published item excludes exactly the salts that have its own
salt's length or do not fit into what has been signed. -/
theorem bindsFields_iff (hed25519 : lib.ed25519.Unforgeable) (hrsa : lib.rsa.Unforgeable)
    (hpair : lib.IsKeyPair public_key private_key) (t : SignedFields) (k : ℕ) :
    BindsFields lib public_key private_key t k ↔
      k = t.salt.length ∨ t.salt.length + t.data.length < k := by
  obtain ⟨S, hS, key, hscheme⟩ := scheme_of_isKeyPair hpair
  have hunforgeable : S.Unforgeable := by
    obtain rfl | rfl := hS
    · exact hed25519
    · exact hrsa
  constructor
  · rintro ⟨signature, -, hbinds⟩
    by_contra hnot
    push Not at hnot
    obtain ⟨hne, hk⟩ := hnot
    have hlen := SignedFields.recut_salt_length hk
    have hother : t.recut k ≠ t := fun he => hne (by rw [← hlen, he])
    exact (hbinds (t.recut k) hlen hother).1 (SignedFields.recut_message hk)
  · intro hk
    refine ⟨_, (hscheme t).1, fun t' hlen hne => ?_⟩
    have hmessage : t'.message ≠ t.message := by
      intro he
      have hlength := congrArg List.length he
      rw [SignedFields.message_length, SignedFields.message_length] at hlength
      obtain hk | hk := hk
      · exact hne (SignedFields.message_inj (hlen.trans hk) he)
      · omega
    refine ⟨hmessage, ?_⟩
    rw [(hscheme t').2]
    exact congrArg _ (Bool.eq_false_iff.mpr fun hv => hmessage (hunforgeable _ _ _ hv))

/-- Signatures that show the key and the message. -/
def plainScheme : SignatureScheme where
  PrivateKey := Bytes
  PublicKey := Bytes
  public_key private_key := private_key
  sign private_key message := private_key ++ message
  verify public_key signature message := signature = public_key ++ message
  verify_sign _ _ := decide_eq_true rfl

theorem plainScheme_unforgeable : plainScheme.Unforgeable := fun _ _ _ h =>
  (List.append_cancel_left (of_decide_eq_true h)).symm

def plainLibrary : Cryptography where
  ed25519 := plainScheme
  rsa := plainScheme
  from_private_bytes data := if data.length = 32 then some data else none
  from_public_bytes data := if data.length = 32 then some data else none
  load_pem_private_key _ := .invalid
  load_pem_public_key _ := .invalid

def sampleKey : Bytes := List.replicate 32 7

theorem isKeyPair_sampleKey : plainLibrary.IsKeyPair sampleKey sampleKey :=
  ⟨rfl, sampleKey, rfl, rfl⟩

/-- A value that starts with an octet 2, without a salt. -/
def published : SignedFields where
  salt := []
  seq := 1
  data := 2 :: ascii "value"
  seq_nonneg := by decide
  seq_lt := by decide

/-- The value behind that octet, under a salt of one octet. -/
def replayed : SignedFields where
  salt := [0]
  seq := 258
  data := ascii "value"
  seq_nonneg := by decide
  seq_lt := by decide

theorem bindsFields_published : BindsFields plainLibrary sampleKey sampleKey published 0 :=
  (bindsFields_iff plainScheme_unforgeable plainScheme_unforgeable isKeyPair_sampleKey
    published 0).mpr (.inl rfl)

/-- Both are signed as the same octets, so a signature for the one is one for the other. -/
theorem not_bindsFields_replayed : replayed ≠ published ∧
    replayed.message = published.message ∧
    ¬BindsFields plainLibrary sampleKey sampleKey published 1 := by
  have hne : replayed ≠ published := by decide
  have hmessage : replayed.message = published.message := by decide
  refine ⟨hne, hmessage, ?_⟩
  rintro ⟨signature, -, hbinds⟩
  exact (hbinds replayed rfl hne).1 hmessage

end Discovery

end Ccbt
