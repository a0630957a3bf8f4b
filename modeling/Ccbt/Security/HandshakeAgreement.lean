import Ccbt.Security.EncryptedStream
import Ccbt.Security.MseHandshake

/-!
# Agreement of the two roles of a handshake

The receiver answers with a type of its own where it does not allow that of the initiator, and
counts this as a success, whether the initiator allows it or not. The ciphers of the two sides have
the same key, but their IVs or nonces are not exchanged.
-/

namespace Ccbt

open Python Cipher Conversation Conversation.State Relation

namespace Security

def CipherSuite.cipherType : CipherSuite → CipherType
  | rc4 _ => .RC4
  | aes _ => .AES
  | chacha20 _ => .CHACHA20

/-- What one object encrypts the other one decrypts. -/
def Understands (P : Primitives) (c c' : CipherSuite) : Prop :=
  ∀ data, (c'.decrypt P (c.encrypt P data).1).1 = data

namespace CipherPair

variable {P : Primitives}

theorem decrypt_encrypt_eq_iff (pair : CipherPair) (data : Bytes) :
    (pair.reader.decrypt P (pair.writer.encrypt P data).1).1 = data ↔
      pair.StreamsAgree P [data.length] := by
  have hencrypt := pair.writer.encryption_append (P := P) data []
  rw [List.append_nil, CipherSuite.encryption_nil, List.append_nil] at hencrypt
  have hdecrypt := pair.reader.decryption_cons (P := P) (pair.writer.encrypt P data).1 []
  rw [CipherSuite.decryption_nil, List.append_nil, ← hencrypt] at hdecrypt
  have hpieces : [pair.writer.encryption P data].flatten = pair.writer.encryption P data :=
    List.append_nil _
  have hiff := pair.decryption_eq_iff hpieces
  rw [hdecrypt, List.map_singleton, pair.length_encryption, hencrypt] at hiff
  rw [hiff]

theorem understands_iff (pair : CipherPair) :
    Understands P pair.writer pair.reader ↔ ∀ n, pair.StreamsAgree P [n] := by
  constructor
  · intro h n
    have hagree := (pair.decrypt_encrypt_eq_iff (P := P) (List.replicate n 0)).mp (h _)
    rwa [List.length_replicate] at hagree
  · intro h data
    exact (pair.decrypt_encrypt_eq_iff data).mpr (h _)

end CipherPair

/-- The objects of this type that are created from a key with these IVs or nonces have the same key
stream, as far as a first text needs it. -/
def SameStream (P : Primitives) (token token' : Token) (key : Bytes) : CipherType → Prop
  | .RC4 => True
  | .AES => ∀ i < 16, (P.aes (key.take 16) token.1).getD i 0 =
    (P.aes (key.take 16) token'.1).getD i 0
  | .CHACHA20 => ∀ i, P.chacha20 (CipherSuite.paddedKey key) token.1 i =
    P.chacha20 (CipherSuite.paddedKey key) token'.1 i

section Create

variable {P : Primitives} {token token' : Token} {key : Bytes}

theorem length_paddedKey (hkey : key.length = 20) : (CipherSuite.paddedKey key).length = 32 := by
  have hpad : (List.replicate (12 / 20 + 1) key).flatten = key := List.append_nil key
  rw [CipherSuite.paddedKey, if_neg (by omega), hkey]
  show (key ++ List.take 12 (List.replicate (12 / 20 + 1) key).flatten).length = 32
  rw [hpad, List.length_append, List.length_take, hkey]
  rfl

/-- From a derived key both sides create ciphers of the type, which understand each other if and
only if they have the same key stream. -/
theorem exists_create (token token' : Token) (hkey : key.length = 20) (t : CipherType) : ∃ c c',
    CipherSuite.create token key t = some c ∧ CipherSuite.create token' key t = some c' ∧
      c.cipherType = t ∧ c'.cipherType = t ∧
      (Understands P c c' ∧ Understands P c' c ↔ SameStream P token token' key t) := by
  have htake : (key.take 16).length = 16 := by
    rw [List.length_take, hkey]
    rfl
  cases t with
  | RC4 =>
    have hne : key.take 16 ≠ [] := fun h => by
      rw [h] at htake
      cases htake
    refine ⟨_, _, dif_neg hne, dif_neg hne, rfl, rfl, iff_of_true ?_ trivial⟩
    have hagree : Understands P (CipherPair.rc4 _ hne).writer (CipherPair.rc4 _ hne).reader :=
      (CipherPair.understands_iff _).mpr fun n => ⟨fun i _ => by rw [Nat.zero_add], trivial⟩
    exact ⟨hagree, hagree⟩
  | AES =>
    have hlength : (key.take 16).length = 16 ∨ (key.take 16).length = 32 := .inl htake
    refine ⟨_, _, dif_pos hlength, dif_pos hlength, rfl, rfl, ?_⟩
    have hthere := (CipherPair.aes _ hlength token token').understands_iff (P := P)
    have hback := (CipherPair.aes _ hlength token' token).understands_iff (P := P)
    refine (and_congr hthere hback).trans ?_
    constructor
    · rintro ⟨h, -⟩ i hi
      exact h 16 i hi
    · intro h
      exact ⟨fun n i hi => h i (Nat.lt_min.mp hi).1, fun n i hi => (h i (Nat.lt_min.mp hi).1).symm⟩
  | CHACHA20 =>
    have hlength := length_paddedKey hkey
    refine ⟨_, _, dif_pos hlength, dif_pos hlength, rfl, rfl, ?_⟩
    have hthere := (CipherPair.chacha20 _ hlength token token').understands_iff (P := P)
    have hback := (CipherPair.chacha20 _ hlength token' token).understands_iff (P := P)
    refine (and_congr hthere hback).trans ?_
    constructor
    · rintro ⟨h, -⟩ i
      exact h (i + 1) i (Nat.lt_succ_self i)
    · intro h
      exact ⟨fun n i _ => h i, fun n i _ => (h i).symm⟩

end Create

namespace MSEHandshake

variable {h : MSEHandshake} {msg_type : MSEHandshakeType} {payload : Bytes}

theorem decodeMessage_encodeMessage (hlength : payload.length + 1 < 2 ^ 32) :
    decodeMessage msg_type (encodeMessage msg_type payload) = .ok payload := by
  have hfour := bigEndian_length 4 (payload.length + 1)
  have htotal : (encodeMessage msg_type payload).length = payload.length + 5 := by
    rw [encodeMessage, List.length_append, hfour, List.length_cons]
    omega
  have hprefix : ofBigEndian ((encodeMessage msg_type payload).take 4) = payload.length + 1 := by
    rw [encodeMessage, List.take_left' hfour, ofBigEndian_bigEndian hlength]
  have hvalue : (encodeMessage msg_type payload).getD 4 0 = msg_type.value := by
    rw [encodeMessage, List.getD_eq_getElem?_getD, List.getElem?_append_right hfour.le, hfour]
    rfl
  have hslice := slice_append (bigEndian 4 (payload.length + 1) ++ [msg_type.value]) payload []
  rw [decodeMessage, if_neg (by omega), hprefix, hvalue]
  dsimp only
  rw [if_neg (by omega), MSEHandshakeType.ofValue_value]
  dsimp only
  rw [if_pos rfl]
  congr 1
  rw [List.append_nil, List.append_assoc, List.length_append, hfour] at hslice
  have hend : ((4 + [msg_type.value].length + payload.length : Nat) : Int) =
      5 + (payload.length + 1 : Nat) - 1 := by
    rw [List.length_singleton]
    omega
  rwa [hend] at hslice

theorem selectCipher_mem (h : MSEHandshake) : h.selectCipher ∈ h.allowed_ciphers := by
  unfold selectCipher
  split
  · next hrc4 => exact hrc4.2
  · split
    · assumption
    · split
      · assumption
      · exact List.head_mem _

theorem answerCipher_mem (h : MSEHandshake) (t : CipherType) :
    h.answerCipher t ∈ h.allowed_ciphers := by
  unfold answerCipher
  split
  · assumption
  · exact h.selectCipher_mem

section Reaches

variable {p : Role} {next : Bytes → Role} {a b : Bytes}
  {q : Conversation.State UInt8 MSEHandshakeResult}

/-- A message that has been written is read. -/
theorem reaches_readMessage_left (hlength : payload.length + 1 < 2 ^ 32)
    (hnext : ReflTransGen Moves ⟨next (encodeMessage msg_type payload), p, a, []⟩ q) :
    ReflTransGen Moves ⟨readMessage next, p, a, encodeMessage msg_type payload⟩ q := by
  rw [encodeMessage, ← List.append_nil (msg_type.value :: payload)]
  refine reaches_read_left (bigEndian_length 4 _) (reaches_read_left ?_ hnext)
  rw [ofBigEndian_bigEndian hlength]
  rfl

theorem reaches_readMessage_right (hlength : payload.length + 1 < 2 ^ 32)
    (hnext : ReflTransGen Moves ⟨p, next (encodeMessage msg_type payload), [], b⟩ q) :
    ReflTransGen Moves ⟨p, readMessage next, encodeMessage msg_type payload, b⟩ q := by
  rw [encodeMessage, ← List.append_nil (msg_type.value :: payload)]
  refine reaches_read_right (bigEndian_length 4 _) (reaches_read_right ?_ hnext)
  rw [ofBigEndian_bigEndian hlength]
  rfl

end Reaches

end MSEHandshake

/-- Diffie-Hellman with the generator `g` modulo `p`. -/
def modular (g p num_bytes : Nat) (hp : 0 < p) (hle : num_bytes ≤ 128)
    (hlt : p ≤ 256 ^ num_bytes) : DiffieHellman where
  PrivateKey := Nat
  y private_key := g ^ private_key % p
  exchange private_key value := bigEndian num_bytes (value ^ private_key % p)
  num_bytes := num_bytes
  num_bytes_le := hle
  y_lt private_key := (Nat.mod_lt _ hp).trans_le hlt
  commutes a b := by
    rw [← Nat.pow_mod, ← Nat.pow_mod, ← Nat.pow_mul, ← Nat.pow_mul, Nat.mul_comm]

def zeroToken : Token := ⟨List.replicate 16 0, List.length_replicate⟩

/-- The settings and the randomness of both sides. The primed ones are those of the receiver. -/
structure Encounter where
  D : DiffieHellman
  initiator : MSEHandshake
  receiver : MSEHandshake
  private_key : D.PrivateKey
  private_key' : D.PrivateKey
  token : Token
  token' : Token
  info_hash : Bytes
  info_hash' : Bytes

namespace Encounter

open MSEHandshake

variable {P : Primitives} {e : Encounter}

/-- Both roles begin, and nothing has been written. -/
def start (e : Encounter) : Conversation.State UInt8 MSEHandshakeResult where
  left := initiateAsInitiator e.D e.initiator e.private_key e.token e.info_hash
  right := respondAsReceiver e.D e.receiver e.private_key' e.token' e.info_hash'

/-- Both sides succeed with the same type, which they allow, and understand each other if they have
the same info hash; or neither side succeeds. -/
def Agrees (P : Primitives) (e : Encounter) (s : Conversation.State UInt8 MSEHandshakeResult) :
    Prop :=
  match result s.left, result s.right with
  | .ok c, .ok c' => c.cipherType = c'.cipherType ∧
      c.cipherType ∈ e.initiator.allowed_ciphers ∧ c.cipherType ∈ e.receiver.allowed_ciphers ∧
      (e.info_hash = e.info_hash' → Understands P c c' ∧ Understands P c' c)
  | .error _, .error _ => True
  | _, _ => False

/-- The roles agree at the end of every run, in whatever order their steps are taken. -/
def AlwaysAgrees (P : Primitives) (e : Encounter) : Prop :=
  ∀ s, ReflTransGen Moves e.start s → s.Quiescent → e.Agrees P s

/-- The type with which the receiver answers. -/
def finalCipher (e : Encounter) : CipherType := e.receiver.answerCipher e.initiator.selectCipher

def key (e : Encounter) : Bytes :=
  deriveEncryptionKey (e.D.exchange e.private_key (e.D.y e.private_key')) e.info_hash

def key' (e : Encounter) : Bytes :=
  deriveEncryptionKey (e.D.exchange e.private_key' (e.D.y e.private_key)) e.info_hash'

def finish (e : Encounter) : Conversation.State UInt8 MSEHandshakeResult where
  left := .done <|
    if e.finalCipher ∈ e.initiator.allowed_ciphers then createCipher e.token e.finalCipher e.key
    else .error (.disallowed e.finalCipher)
  right := .done (createCipher e.token' e.finalCipher e.key')

theorem sharedSecret_getPublicKeyBytes (D : DiffieHellman) (a b : D.PrivateKey) :
    D.sharedSecret a (D.getPublicKeyBytes b) = D.exchange a (D.y b) := by
  rw [DiffieHellman.sharedSecret, DiffieHellman.getPublicKeyBytes, ofBigEndian_bigEndian (D.y_lt b)]

theorem length_crypto_lt (t : CipherType) : [t.value].length + 1 < 2 ^ 32 := by
  rw [List.length_singleton]
  decide

theorem decode_crypto (t : CipherType) :
    (decodeMessage .CRYPTO (encodeCryptoMessage t) >>= decodeCryptoMessage) = .ok t := by
  rw [encodeCryptoMessage, decodeMessage_encodeMessage (length_crypto_lt t)]
  show decodeCryptoMessage [t.value] = .ok t
  rw [decodeCryptoMessage, CipherType.ofValue_value]

theorem length_getPublicKeyBytes_lt (D : DiffieHellman) (private_key : D.PrivateKey) :
    (D.getPublicKeyBytes private_key).length + 1 < 2 ^ 32 := by
  have hle := D.num_bytes_le
  rw [DiffieHellman.getPublicKeyBytes, bigEndian_length]
  omega

/-- The four messages are exchanged. -/
theorem reaches_finish (h : e.info_hash.length = 20) (h' : e.info_hash'.length = 20) :
    ReflTransGen Moves e.start e.finish := by
  have hkey := length_getPublicKeyBytes_lt e.D e.private_key
  have hkey' := length_getPublicKeyBytes_lt e.D e.private_key'
  rw [start, initiateAsInitiator, if_neg (not_not.mpr h), respondAsReceiver,
    if_neg (not_not.mpr h')]
  -- the public keys
  refine reaches_write_left ?_
  rw [List.nil_append]
  refine reaches_readMessage_right hkey ?_
  rw [decodeMessage_encodeMessage hkey]
  refine reaches_write_right ?_
  rw [List.nil_append]
  refine reaches_readMessage_left hkey' ?_
  rw [decodeMessage_encodeMessage hkey']
  dsimp only
  rw [sharedSecret_getPublicKeyBytes, sharedSecret_getPublicKeyBytes]
  -- the types
  refine reaches_write_left ?_
  rw [List.nil_append]
  refine reaches_readMessage_right (length_crypto_lt _) ?_
  rw [← encodeCryptoMessage, decode_crypto]
  refine reaches_write_right ?_
  rw [List.nil_append]
  refine reaches_readMessage_left (length_crypto_lt _) ?_
  rw [← encodeCryptoMessage, decode_crypto]
  dsimp only
  rw [← apply_ite Proc.done]
  exact .refl

theorem quiescent_finish (e : Encounter) : e.finish.Quiescent := ⟨rfl, rfl⟩

theorem alwaysAgrees_of_errors (h : ∃ s, ReflTransGen Moves e.start s ∧ s.Quiescent ∧
    (∃ error, result s.left = .error error) ∧ ∃ error, result s.right = .error error) :
    AlwaysAgrees P e := by
  obtain ⟨s, hs, hquiescent, ⟨error, hleft⟩, error', hright⟩ := h
  intro q hq hend
  rw [quiescent_unique hq hend hs hquiescent, Agrees, hleft, hright]
  trivial

/-- With an info hash of another length neither side succeeds. -/
theorem alwaysAgrees_of_length (h : e.info_hash.length ≠ 20 ∨ e.info_hash'.length ≠ 20) :
    AlwaysAgrees P e := by
  apply alwaysAgrees_of_errors
  rw [start]
  by_cases hleft : e.info_hash.length = 20
  · have hright := h.resolve_left (not_not.mpr hleft)
    -- the receiver returns at once, and the initiator waits for its public key
    rw [initiateAsInitiator, if_neg (not_not.mpr hleft), respondAsReceiver, if_pos hright]
    exact ⟨_, reaches_write_left .refl, ⟨rfl, rfl⟩, ⟨_, rfl⟩, ⟨_, rfl⟩⟩
  · rw [initiateAsInitiator, if_pos hleft]
    by_cases hright : e.info_hash'.length = 20
    · rw [respondAsReceiver, if_neg (not_not.mpr hright)]
      exact ⟨_, .refl, ⟨rfl, rfl⟩, ⟨_, rfl⟩, ⟨_, rfl⟩⟩
    · rw [respondAsReceiver, if_pos hright]
      exact ⟨_, .refl, ⟨rfl, rfl⟩, ⟨_, rfl⟩, ⟨_, rfl⟩⟩

/-- All runs with proper info hashes have the same end. -/
theorem alwaysAgrees_iff_finish (h : e.info_hash.length = 20) (h' : e.info_hash'.length = 20) :
    AlwaysAgrees P e ↔ e.Agrees P e.finish := by
  constructor
  · intro hagrees
    exact hagrees e.finish (reaches_finish h h') e.quiescent_finish
  · intro hagrees s hs hquiescent
    rwa [quiescent_unique hs hquiescent (reaches_finish h h') e.quiescent_finish]

theorem key_eq (h : e.info_hash = e.info_hash') : e.key' = e.key := by
  rw [key', key, h, e.D.commutes]

theorem agrees_finish : e.Agrees P e.finish ↔ e.finalCipher ∈ e.initiator.allowed_ciphers ∧
    (e.info_hash = e.info_hash' → SameStream P e.token e.token' e.key e.finalCipher) := by
  have hkey : e.key.length = 20 := sha1_length _
  have hkey' : e.key'.length = 20 := sha1_length _
  obtain ⟨c, c', hc, hc', htype, htype', hiff⟩ :=
    exists_create (P := P) e.token e.token' hkey e.finalCipher
  obtain ⟨-, d', -, hd', -, hdtype', -⟩ :=
    exists_create (P := P) e.token e.token' hkey' e.finalCipher
  have hright : result e.finish.right = .ok d' := by
    rw [finish, result, createCipher, hd']
  have hmem : e.finalCipher ∈ e.receiver.allowed_ciphers := e.receiver.answerCipher_mem _
  by_cases hallowed : e.finalCipher ∈ e.initiator.allowed_ciphers
  · have hleft : result e.finish.left = .ok c := by
      rw [finish, result, if_pos hallowed, createCipher, hc]
    rw [Agrees, hleft, hright]
    dsimp only
    rw [htype, hdtype']
    constructor
    · rintro ⟨-, -, -, hsame⟩
      refine ⟨hallowed, fun h => ?_⟩
      rw [key_eq h, hc'] at hd'
      exact hiff.mp (Option.some.inj hd' ▸ hsame h)
    · rintro ⟨-, hsame⟩
      refine ⟨rfl, hallowed, hmem, fun h => ?_⟩
      rw [key_eq h, hc'] at hd'
      exact Option.some.inj hd' ▸ hiff.mpr (hsame h)
  · have hleft : result e.finish.left = .error (.disallowed e.finalCipher) := by
      rw [finish, result, if_neg hallowed]
    rw [Agrees, hleft, hright]
    exact iff_of_false id fun h => hallowed h.1

/-- The two roles agree in every run if and only if neither gets anywhere because of an info hash of
another length, or the initiator allows the type with which the receiver answers and, for the same
info hash, the ciphers have the same key stream. -/
theorem alwaysAgrees_iff : AlwaysAgrees P e ↔
    e.info_hash.length ≠ 20 ∨ e.info_hash'.length ≠ 20 ∨
      e.finalCipher ∈ e.initiator.allowed_ciphers ∧
        (e.info_hash = e.info_hash' → SameStream P e.token e.token' e.key e.finalCipher) := by
  by_cases h : e.info_hash.length = 20 ∧ e.info_hash'.length = 20
  · rw [alwaysAgrees_iff_finish h.1 h.2, agrees_finish]
    constructor
    · exact fun h => .inr (.inr h)
    · intro hcond
      exact (hcond.resolve_left (not_not.mpr h.1)).resolve_left (not_not.mpr h.2)
  · have hlength := not_and_or.mp h
    exact iff_of_true (alwaysAgrees_of_length hlength) (or_assoc.mp (.inl hlength))

theorem small_bounds : 0 < 23 ∧ 96 ≤ 128 ∧ 23 ≤ 256 ^ 96 := by decide

/-- The one allows AES alone, and the other RC4 alone. -/
def disjointLists : Encounter where
  D := modular 5 23 96 small_bounds.1 small_bounds.2.1 small_bounds.2.2
  initiator := .new true (some [.AES])
  receiver := .new true (some [.RC4])
  private_key := (3 : Nat)
  private_key' := (7 : Nat)
  token := zeroToken
  token' := zeroToken
  info_hash := List.replicate 20 1
  info_hash' := List.replicate 20 1

/-- The receiver succeeds with RC4, and the initiator refuses it. -/
theorem not_alwaysAgrees_disjointLists : ¬∃ P, AlwaysAgrees P disjointLists := by
  rintro ⟨P, h⟩
  rw [alwaysAgrees_iff_finish List.length_replicate List.length_replicate, agrees_finish] at h
  exact absurd h.1 (by decide)

end Encounter

end Security

end Ccbt
