import Ccbt.Python.Bytes

/-!
# The digests of `hashlib`

`hashlib.sha1(data).digest()` and `hashlib.sha256(data).digest()`. Both pad the
message to blocks of sixteen 32-bit words and fold a compression function over
the blocks. Proofs about the programs that use them never look inside: they rely
on the lengths of the digests only, and name the collision they would need.
-/

namespace Python

namespace Hashlib

def rotl (x : UInt32) (n : UInt32) : UInt32 := (x <<< n) ||| (x >>> (32 - n))

def rotr (x : UInt32) (n : UInt32) : UInt32 := (x >>> n) ||| (x <<< (32 - n))

def pad (data : Bytes) : Bytes :=
  data ++ 0x80 :: List.replicate ((119 - data.length % 64) % 64) 0 ++
    bigEndian 8 (8 * data.length)

/-- Cut octets into big-endian words. -/
def words : Bytes → List UInt32
  | a :: b :: c :: d :: rest =>
    (a.toUInt32 <<< 24 ||| b.toUInt32 <<< 16 ||| c.toUInt32 <<< 8 ||| d.toUInt32) :: words rest
  | _ => []

/-- Fold over the blocks of sixteen words; the number bounds how many there are. -/
def foldBlocks {α : Type} (f : α → List UInt32 → α) : Nat → α → List UInt32 → α
  | 0, h, _ => h
  | n + 1, h, ws => if ws.isEmpty then h else foldBlocks f n (f h (ws.take 16)) (ws.drop 16)

/-- The words of the state, most significant octet first. -/
def digestOf (ws : List UInt32) : Bytes := ws.flatMap (fun w => bigEndian 4 w.toNat)

-- SHA-1

structure State1 where
  a : UInt32
  b : UInt32
  c : UInt32
  d : UInt32
  e : UInt32

def State1.toList (s : State1) : List UInt32 := [s.a, s.b, s.c, s.d, s.e]

def init1 : State1 := ⟨0x67452301, 0xEFCDAB89, 0x98BADCFE, 0x10325476, 0xC3D2E1F0⟩

/-- Round `t` with the word `w`. -/
def round1 (t : Nat) (w : UInt32) (s : State1) : State1 :=
  let f := if t < 20 then (s.b &&& s.c) ||| (~~~s.b &&& s.d)
    else if t < 40 then s.b ^^^ s.c ^^^ s.d
    else if t < 60 then (s.b &&& s.c) ||| (s.b &&& s.d) ||| (s.c &&& s.d)
    else s.b ^^^ s.c ^^^ s.d
  let k : UInt32 := if t < 20 then 0x5A827999 else if t < 40 then 0x6ED9EBA1
    else if t < 60 then 0x8F1BBCDC else 0xCA62C1D6
  ⟨rotl s.a 5 + f + s.e + k + w, s.a, rotl s.b 30, s.c, s.d⟩

/-- The remaining rounds; `ws` holds the next sixteen words of the schedule. -/
def rounds1 : Nat → Nat → List UInt32 → State1 → State1
  | 0, _, _, s => s
  | n + 1, t, ws, s =>
    let next := rotl (ws.getD 13 0 ^^^ ws.getD 8 0 ^^^ ws.getD 2 0 ^^^ ws.getD 0 0) 1
    rounds1 n (t + 1) (ws.tail ++ [next]) (round1 t (ws.headD 0) s)

def compress1 (h : State1) (block : List UInt32) : State1 :=
  let s := rounds1 80 0 block h
  ⟨h.a + s.a, h.b + s.b, h.c + s.c, h.d + s.d, h.e + s.e⟩

-- SHA-256

structure State256 where
  a : UInt32
  b : UInt32
  c : UInt32
  d : UInt32
  e : UInt32
  f : UInt32
  g : UInt32
  h : UInt32

def State256.toList (s : State256) : List UInt32 := [s.a, s.b, s.c, s.d, s.e, s.f, s.g, s.h]

def init256 : State256 :=
  ⟨0x6a09e667, 0xbb67ae85, 0x3c6ef372, 0xa54ff53a, 0x510e527f, 0x9b05688c, 0x1f83d9ab, 0x5be0cd19⟩

def constants256 : List UInt32 :=
  [0x428a2f98, 0x71374491, 0xb5c0fbcf, 0xe9b5dba5, 0x3956c25b, 0x59f111f1, 0x923f82a4, 0xab1c5ed5,
    0xd807aa98, 0x12835b01, 0x243185be, 0x550c7dc3, 0x72be5d74, 0x80deb1fe, 0x9bdc06a7, 0xc19bf174,
    0xe49b69c1, 0xefbe4786, 0x0fc19dc6, 0x240ca1cc, 0x2de92c6f, 0x4a7484aa, 0x5cb0a9dc, 0x76f988da,
    0x983e5152, 0xa831c66d, 0xb00327c8, 0xbf597fc7, 0xc6e00bf3, 0xd5a79147, 0x06ca6351, 0x14292967,
    0x27b70a85, 0x2e1b2138, 0x4d2c6dfc, 0x53380d13, 0x650a7354, 0x766a0abb, 0x81c2c92e, 0x92722c85,
    0xa2bfe8a1, 0xa81a664b, 0xc24b8b70, 0xc76c51a3, 0xd192e819, 0xd6990624, 0xf40e3585, 0x106aa070,
    0x19a4c116, 0x1e376c08, 0x2748774c, 0x34b0bcb5, 0x391c0cb3, 0x4ed8aa4a, 0x5b9cca4f, 0x682e6ff3,
    0x748f82ee, 0x78a5636f, 0x84c87814, 0x8cc70208, 0x90befffa, 0xa4506ceb, 0xbef9a3f7, 0xc67178f2]

/-- A round with the constant `k` and the word `w`. -/
def round256 (k w : UInt32) (s : State256) : State256 :=
  let s1 := rotr s.e 6 ^^^ rotr s.e 11 ^^^ rotr s.e 25
  let ch := (s.e &&& s.f) ^^^ (~~~s.e &&& s.g)
  let t1 := s.h + s1 + ch + k + w
  let s0 := rotr s.a 2 ^^^ rotr s.a 13 ^^^ rotr s.a 22
  let maj := (s.a &&& s.b) ^^^ (s.a &&& s.c) ^^^ (s.b &&& s.c)
  ⟨t1 + s0 + maj, s.a, s.b, s.c, s.d + t1, s.e, s.f, s.g⟩

/-- A round for each constant; `ws` holds the next sixteen words of the schedule. -/
def rounds256 : List UInt32 → List UInt32 → State256 → State256
  | [], _, s => s
  | k :: ks, ws, s =>
    let x := ws.getD 1 0
    let y := ws.getD 14 0
    let s0 := rotr x 7 ^^^ rotr x 18 ^^^ (x >>> 3)
    let s1 := rotr y 17 ^^^ rotr y 19 ^^^ (y >>> 10)
    let next := ws.getD 0 0 + s0 + ws.getD 9 0 + s1
    rounds256 ks (ws.tail ++ [next]) (round256 k (ws.headD 0) s)

def compress256 (h : State256) (block : List UInt32) : State256 :=
  let s := rounds256 constants256 block h
  ⟨h.a + s.a, h.b + s.b, h.c + s.c, h.d + s.d, h.e + s.e, h.f + s.f, h.g + s.g, h.h + s.h⟩

end Hashlib

open Hashlib

/-- `hashlib.sha1(data).digest()` -/
def sha1 (data : Bytes) : Bytes :=
  let ws := words (pad data)
  digestOf (foldBlocks compress1 ws.length init1 ws).toList

/-- `hashlib.sha256(data).digest()` -/
def sha256 (data : Bytes) : Bytes :=
  let ws := words (pad data)
  digestOf (foldBlocks compress256 ws.length init256 ws).toList

@[simp] theorem sha1_length (data : Bytes) : (sha1 data).length = 20 := by
  simp [sha1, digestOf, State1.toList]

@[simp] theorem sha256_length (data : Bytes) : (sha256 data).length = 32 := by
  simp [sha256, digestOf, State256.toList]

example : (sha1 (ascii "abc")).take 4 = [0xA9, 0x99, 0x3E, 0x36] := by decide +kernel

example : (sha256 (ascii "abc")).take 4 = [0xBA, 0x78, 0x16, 0xBF] := by decide +kernel

/-!
## HMAC

`hmac.new(key, msg, hashlib.sha256).digest()`.
-/

/-- The key as one block: a long key is hashed first, a short one is filled up with zeros. -/
def hmacBlock (key : Bytes) : Bytes :=
  let key := if key.length > 64 then sha256 key else key
  key ++ List.replicate (64 - key.length) 0

def hmacSha256 (key msg : Bytes) : Bytes :=
  let inner := sha256 ((hmacBlock key).map (· ^^^ 0x36) ++ msg)
  sha256 ((hmacBlock key).map (· ^^^ 0x5C) ++ inner)

@[simp] theorem length_hmacSha256 (key msg : Bytes) : (hmacSha256 key msg).length = 32 :=
  sha256_length _

end Python
