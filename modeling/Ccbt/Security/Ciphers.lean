import Ccbt.Cipher.Stream

/-!
# The cipher suites and encrypted streams of `security`

`RC4Cipher`, `AESCipher` and `ChaCha20Cipher` of `security/ciphers`, and the reader and the writer
of `security/encrypted_stream.py` that use them. Of the cryptography package there are the block
function of AES and the key stream of ChaCha20; its contexts go through a text piece by piece.
-/

namespace Ccbt

open Python Cipher

namespace Security

/-- What the cryptography package computes. -/
structure Primitives where
  /-- AES of a block under a key. -/
  aes : (key block : Bytes) → Bytes
  /-- The octets of the key stream of ChaCha20 under a key and a nonce. -/
  chacha20 : (key nonce : Bytes) → Nat → UInt8

/-- What `secrets.token_bytes(16)` returns. -/
abbrev Token := { b : Bytes // b.length = 16 }

theorem Token.length_val (token : Token) : token.1.length = 16 := token.2

/-- The state `_s`, `_i`, `_j` of RC4 with its key. -/
structure RC4Cipher where
  key : Bytes
  key_ne : key ≠ []
  s : Vector UInt8 256
  i : UInt8
  j : UInt8

namespace RC4Cipher

def swap (s : Vector UInt8 256) (a b : UInt8) : Vector UInt8 256 :=
  s.swap a.toNat b.toNat a.toNat_lt b.toNat_lt

/-- A step of the key scheduling algorithm. -/
def schedule (key : Bytes) (state : Vector UInt8 256 × UInt8) (i : UInt8) :
    Vector UInt8 256 × UInt8 :=
  let j := state.2 + state.1.get i.toFin + key.getD (i.toNat % key.length) 0
  (swap state.1 i j, j)

def new (key : Bytes) (key_ne : key ≠ []) : RC4Cipher where
  key := key
  key_ne := key_ne
  s := (((List.range 256).map UInt8.ofNat).foldl (schedule key)
    (Vector.ofFn fun i => UInt8.ofNat i, 0)).1
  i := 0
  j := 0

/-- A step of the pseudo-random generation algorithm. -/
def next (c : RC4Cipher) : UInt8 × RC4Cipher :=
  let i := c.i + 1
  let j := c.j + c.s.get i.toFin
  let s := swap c.s i j
  (s.get (s.get i.toFin + s.get j.toFin).toFin, { c with s, i, j })

def prga : Nat → RC4Cipher → Bytes × RC4Cipher
  | 0, c => ([], c)
  | length + 1, c =>
    let (k, c) := c.next
    let (result, c) := prga length c
    (k :: result, c)

def encrypt (c : RC4Cipher) (data : Bytes) : Bytes × RC4Cipher :=
  if data.isEmpty then ([], c)
  else
    let (key_stream, c) := c.prga data.length
    (List.zipWith (· ^^^ ·) data key_stream, c)

/-- The decryption begins with a new cipher in every call. -/
def decrypt (c : RC4Cipher) (data : Bytes) : Bytes := ((new c.key c.key_ne).encrypt data).1

end RC4Cipher

/-- The contexts are made by the first call that needs them. -/
structure AESCipher where
  key : Bytes
  key_length : key.length = 16 ∨ key.length = 32
  iv : Bytes
  iv_length : iv.length = 16
  encryptor : Option Feedback := none
  decryptor : Option Feedback := none

namespace AESCipher

variable (P : Primitives)

def encrypt (c : AESCipher) (data : Bytes) : Bytes × AESCipher :=
  if data.isEmpty then ([], c)
  else
    let (out, encryptor) :=
      Feedback.encrypt (P.aes c.key) 16 (c.encryptor.getD { register := c.iv }) data
    (out, { c with encryptor := some encryptor })

def decrypt (c : AESCipher) (data : Bytes) : Bytes × AESCipher :=
  if data.isEmpty then ([], c)
  else
    let (out, decryptor) :=
      Feedback.decrypt (P.aes c.key) 16 (c.decryptor.getD { register := c.iv }) data
    (out, { c with decryptor := some decryptor })

end AESCipher

/-- The contexts are positions in the key stream. -/
structure ChaCha20Cipher where
  key : Bytes
  key_length : key.length = 32
  nonce : Bytes
  nonce_length : nonce.length = 16
  encryptor : Option Nat := none
  decryptor : Option Nat := none

namespace ChaCha20Cipher

variable (P : Primitives)

def encrypt (c : ChaCha20Cipher) (data : Bytes) : Bytes × ChaCha20Cipher :=
  if data.isEmpty then ([], c)
  else
    let encryptor := c.encryptor.getD 0
    (xorFrom (P.chacha20 c.key c.nonce) encryptor data,
      { c with encryptor := some (encryptor + data.length) })

def decrypt (c : ChaCha20Cipher) (data : Bytes) : Bytes × ChaCha20Cipher :=
  if data.isEmpty then ([], c)
  else
    let decryptor := c.decryptor.getD 0
    (xorFrom (P.chacha20 c.key c.nonce) decryptor data,
      { c with decryptor := some (decryptor + data.length) })

end ChaCha20Cipher

inductive CipherType
  | RC4
  | AES
  | CHACHA20
  deriving DecidableEq

inductive CipherSuite
  | rc4 (c : RC4Cipher)
  | aes (c : AESCipher)
  | chacha20 (c : ChaCha20Cipher)

namespace CipherSuite

variable (P : Primitives)

def encrypt : CipherSuite → Bytes → Bytes × CipherSuite
  | rc4 c, data => ((c.encrypt data).1, rc4 (c.encrypt data).2)
  | aes c, data => ((c.encrypt P data).1, aes (c.encrypt P data).2)
  | chacha20 c, data => ((c.encrypt P data).1, chacha20 (c.encrypt P data).2)

def decrypt : CipherSuite → Bytes → Bytes × CipherSuite
  | rc4 c, data => (c.decrypt data, rc4 c)
  | aes c, data => ((c.decrypt P data).1, aes (c.decrypt P data).2)
  | chacha20 c, data => ((c.decrypt P data).1, chacha20 (c.decrypt P data).2)

/-- The key is repeated up to 32 octets. -/
def paddedKey (key : Bytes) : Bytes :=
  if 32 ≤ key.length then key.take 32
  else
    let padding_needed := 32 - key.length
    key ++ (List.replicate (padding_needed / key.length + 1) key).flatten.take padding_needed

/-- `_create_cipher`, unless the key is refused. No IV and no nonce is given to the cipher, which
makes one by itself. -/
def create (token : Token) (key : Bytes) : CipherType → Option CipherSuite
  | .CHACHA20 =>
    if h : (paddedKey key).length = 32 then
      some (chacha20 ⟨paddedKey key, h, token.1, token.length_val, none, none⟩)
    else none
  | .RC4 => if h : key.take 16 = [] then none else some (rc4 (.new (key.take 16) h))
  | .AES =>
    if h : (key.take 16).length = 16 ∨ (key.take 16).length = 32 then
      some (aes ⟨key.take 16, h, token.1, token.length_val, none, none⟩)
    else none

end CipherSuite

/-- `writer` is what has been written to the stream below. -/
structure EncryptedStreamWriter where
  writer : Bytes
  cipher : CipherSuite

def EncryptedStreamWriter.write (P : Primitives) (w : EncryptedStreamWriter) (data : Bytes) :
    EncryptedStreamWriter :=
  if data.isEmpty then w
  else
    { writer := w.writer ++ (w.cipher.encrypt P data).1
      cipher := (w.cipher.encrypt P data).2 }

/-- `reader` is what is left in the stream below. -/
structure EncryptedStreamReader where
  reader : Bytes
  cipher : CipherSuite

/-- A call of the reader. Of the octets that `read` may return, as many are there already as
`arrived` says. -/
inductive ReadCall
  | read (n : Int) (arrived : Nat)
  | readexactly (n : Nat)

namespace ReadCall

/-- How many of the octets that are left are returned by the stream below, and how many it uses up.
A call of `readexactly` for more than there is raises. -/
def taken (left : Nat) : ReadCall → Nat × Nat
  | read n arrived =>
    if n < 0 then (left, left) else (min left (min n.toNat arrived), min left (min n.toNat arrived))
  | readexactly n => if n ≤ left then (n, n) else (0, left)

end ReadCall

/-- A call of `read` or `readexactly`: what it returns. -/
def EncryptedStreamReader.read (P : Primitives) (r : EncryptedStreamReader) (call : ReadCall) :
    Bytes × EncryptedStreamReader :=
  let (returned, used) := call.taken r.reader.length
  let encrypted := r.reader.take returned
  if encrypted.isEmpty then ([], { r with reader := r.reader.drop used })
  else
    ((r.cipher.decrypt P encrypted).1,
      { reader := r.reader.drop used, cipher := (r.cipher.decrypt P encrypted).2 })

def EncryptedStreamReader.readAll (P : Primitives) :
    List ReadCall → EncryptedStreamReader → List Bytes
  | [], _ => []
  | call :: calls, r => (r.read P call).1 :: readAll P calls (r.read P call).2

end Security

end Ccbt
