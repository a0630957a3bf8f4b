import Ccbt.Concurrency.Conversation
import Ccbt.Python.Hashlib
import Ccbt.Python.Bytes
import Ccbt.Security.Ciphers

/-!
# Message stream encryption: `MSEHandshake` of `security/mse_handshake.py`

Both roles of the handshake as processes that write and read octets, with the key exchange and the
derivation of keys of `security/dh_exchange.py`. The streams are not closed, and a read that waits
for ever ends with the timeout. Of the cryptography package there is Diffie-Hellman.
-/

namespace Ccbt

open Python Conversation

namespace Security

/-- Diffie-Hellman over common parameters, with public values of at most `num_bytes` octets. -/
structure DiffieHellman where
  PrivateKey : Type
  /-- `private_key.public_key().public_numbers().y` -/
  y : PrivateKey → Nat
  /-- `private_key.exchange(peer_public_key)` for the public key of this value -/
  exchange : PrivateKey → Nat → Bytes
  /-- `(key_size + 7) // 8` for a key of 768 or 1024 bits -/
  num_bytes : Nat
  num_bytes_le : num_bytes ≤ 128
  y_lt : ∀ private_key, y private_key < 256 ^ num_bytes
  commutes : ∀ a b, exchange a (y b) = exchange b (y a)

namespace DiffieHellman

variable (D : DiffieHellman)

def getPublicKeyBytes (private_key : D.PrivateKey) : Bytes :=
  bigEndian D.num_bytes (D.y private_key)

/-- `compute_shared_secret` with `public_key_from_bytes`. -/
def sharedSecret (private_key : D.PrivateKey) (public_bytes : Bytes) : Bytes :=
  D.exchange private_key (ofBigEndian public_bytes)

end DiffieHellman

/-- `derive_encryption_key` without a pad, for an info hash of 20 octets. -/
def deriveEncryptionKey (shared_secret info_hash : Bytes) : Bytes :=
  sha1 (shared_secret ++ List.replicate 20 0 ++ info_hash)

inductive MSEHandshakeType
  | SKEYE
  | RKEYE
  | CRYPTO
  deriving DecidableEq

namespace MSEHandshakeType

def value : MSEHandshakeType → UInt8
  | SKEYE => 2
  | RKEYE => 3
  | CRYPTO => 4

def ofValue (v : UInt8) : Option MSEHandshakeType :=
  if v = 2 then some SKEYE else if v = 3 then some RKEYE else if v = 4 then some CRYPTO else none

theorem ofValue_value (t : MSEHandshakeType) : ofValue t.value = some t := by
  cases t <;> decide

end MSEHandshakeType

namespace CipherType

def value : CipherType → UInt8
  | RC4 => 1
  | AES => 2
  | CHACHA20 => 3

def ofValue (v : UInt8) : Option CipherType :=
  if v = 1 then some RC4 else if v = 2 then some AES else if v = 3 then some CHACHA20 else none

theorem ofValue_value (t : CipherType) : ofValue t.value = some t := by
  cases t <;> decide

end CipherType

inductive HandshakeError
  | infoHash (length : Nat)
  | decode (expected : MSEHandshakeType)
  | messageType (expected got : MSEHandshakeType)
  | disallowed (cipher_type : CipherType)
  /-- A number that is not in an enumeration. -/
  | value
  /-- A key that the cipher refuses. -/
  | key
  | timeout
  deriving DecidableEq

abbrev MSEHandshakeResult := Except HandshakeError CipherSuite

/-- The settings of a side. -/
structure MSEHandshake where
  prefer_rc4 : Bool
  allowed_ciphers : List CipherType
  allowed_ne : allowed_ciphers ≠ []

namespace MSEHandshake

def allowedOrAll : Option (List CipherType) → List CipherType
  | some (t :: ts) => t :: ts
  | _ => [.RC4, .AES, .CHACHA20]

theorem allowedOrAll_ne (allowed_ciphers : Option (List CipherType)) :
    allowedOrAll allowed_ciphers ≠ [] := by
  unfold allowedOrAll
  split
  · exact List.cons_ne_nil _ _
  · exact List.cons_ne_nil _ _

def new (prefer_rc4 : Bool) (allowed_ciphers : Option (List CipherType)) : MSEHandshake where
  prefer_rc4 := prefer_rc4
  allowed_ciphers := allowedOrAll allowed_ciphers
  allowed_ne := allowedOrAll_ne allowed_ciphers

def encodeMessage (msg_type : MSEHandshakeType) (payload : Bytes) : Bytes :=
  bigEndian 4 (payload.length + 1) ++ msg_type.value :: payload

/-- `_decode_message` and what follows it in both roles, for a message that is expected. -/
def decodeMessage (expected : MSEHandshakeType) (data : Bytes) : Except HandshakeError Bytes :=
  if data.length < 5 then .error (.decode expected)
  else
    let length := ofBigEndian (data.take 4)
    if data.length < length + 4 then .error (.decode expected)
    else
      match MSEHandshakeType.ofValue (data.getD 4 0) with
      | none => .error .value
      | some msg_type =>
        if msg_type = expected then .ok (slice data 5 (5 + length - 1))
        else .error (.messageType expected msg_type)

def encodeCryptoMessage (cipher_type : CipherType) : Bytes :=
  encodeMessage .CRYPTO [cipher_type.value]

def decodeCryptoMessage (data : Bytes) : Except HandshakeError CipherType :=
  match data with
  | [] => .ok .RC4
  | cipher_value :: _ =>
    match CipherType.ofValue cipher_value with
    | some cipher_type => .ok cipher_type
    | none => .error .value

def selectCipher (h : MSEHandshake) : CipherType :=
  if h.prefer_rc4 ∧ .RC4 ∈ h.allowed_ciphers then .RC4
  else if .AES ∈ h.allowed_ciphers then .AES
  else if .CHACHA20 ∈ h.allowed_ciphers then .CHACHA20
  else h.allowed_ciphers.head h.allowed_ne

/-- What a receiver selects when the peer has selected this type. -/
def answerCipher (h : MSEHandshake) (peer_cipher_type : CipherType) : CipherType :=
  if peer_cipher_type ∈ h.allowed_ciphers then peer_cipher_type else h.selectCipher

/-- `_create_cipher` with the IV or nonce that the cipher will make up. -/
def createCipher (token : Token) (cipher_type : CipherType) (key : Bytes) : MSEHandshakeResult :=
  match CipherSuite.create token key cipher_type with
  | some cipher => .ok cipher
  | none => .error .key

/-- A process of the handshake. -/
abbrev Role := Proc UInt8 MSEHandshakeResult

def readMessage (next : Bytes → Role) : Role :=
  .readexactly 4 fun length_bytes =>
    .readexactly (ofBigEndian length_bytes) fun message => next (length_bytes ++ message)

section Roles

variable (D : DiffieHellman) (h : MSEHandshake) (private_key : D.PrivateKey) (token : Token)
  (info_hash : Bytes)

def initiateAsInitiator : Role :=
  if info_hash.length ≠ 20 then .done (.error (.infoHash info_hash.length))
  else
    .write (encodeMessage .SKEYE (D.getPublicKeyBytes private_key)) <|
      readMessage fun rke_message =>
        match decodeMessage .RKEYE rke_message with
        | .error e => .done (.error e)
        | .ok peer_public_key_bytes =>
          let shared_secret := D.sharedSecret private_key peer_public_key_bytes
          .write (encodeCryptoMessage h.selectCipher) <|
            readMessage fun crypto_response =>
              match decodeMessage .CRYPTO crypto_response >>= decodeCryptoMessage with
              | .error e => .done (.error e)
              | .ok peer_cipher_type =>
                if peer_cipher_type ∈ h.allowed_ciphers then
                  .done (createCipher token peer_cipher_type
                    (deriveEncryptionKey shared_secret info_hash))
                else .done (.error (.disallowed peer_cipher_type))

def respondAsReceiver : Role :=
  if info_hash.length ≠ 20 then .done (.error (.infoHash info_hash.length))
  else
    readMessage fun ske_message =>
      match decodeMessage .SKEYE ske_message with
      | .error e => .done (.error e)
      | .ok peer_public_key_bytes =>
        .write (encodeMessage .RKEYE (D.getPublicKeyBytes private_key)) <|
          let shared_secret := D.sharedSecret private_key peer_public_key_bytes
          readMessage fun crypto_message =>
            match decodeMessage .CRYPTO crypto_message >>= decodeCryptoMessage with
            | .error e => .done (.error e)
            | .ok peer_cipher_type =>
              let selected_cipher := h.answerCipher peer_cipher_type
              .write (encodeCryptoMessage selected_cipher) <|
                .done (createCipher token selected_cipher
                  (deriveEncryptionKey shared_secret info_hash))

end Roles

/-- What a role returns when nothing happens any more. -/
def result : Role → MSEHandshakeResult
  | .done r => r
  | _ => .error .timeout

end MSEHandshake

end Security

end Ccbt
