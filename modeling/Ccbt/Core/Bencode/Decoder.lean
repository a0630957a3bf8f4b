import Ccbt.Core.Bencode.Encoder
import Ccbt.Python.Dict

/-!
# Bencoding: the decoder

`BencodeDecoder` of `core/bencode.py` with its mutable cursor. Positions are
integers, as in the source: a negative string length moves the cursor back, in
front of the data if it is long enough. Calls are counted down by a fuel
argument; `Stop.outOfFuel` is the only way in which the model stops where the
source does not.

The cursor carries one observation that the source does not make: `movedBack`
says that some call has returned with the position at or before the one at which
it began.
-/

namespace Ccbt

open Python

namespace Bencode

/-- The exceptions that leave the decoder. -/
inductive DecodeError
  | bencode (message : String)
  | unicode
  | value
  | index
  deriving DecidableEq

inductive Stop
  | raised (e : DecodeError)
  | outOfFuel
  deriving DecidableEq

structure Cursor where
  pos : Int
  movedBack : Bool
  deriving DecidableEq

abbrev DecodeM (α : Type) := Cursor → Except Stop α × Cursor

namespace DecodeM

variable {α β : Type}

def pure (a : α) : DecodeM α := fun c => (.ok a, c)

def bind (m : DecodeM α) (f : α → DecodeM β) : DecodeM β := fun c =>
  match m c with
  | (.ok a, c') => f a c'
  | (.error e, c') => (.error e, c')

instance : Monad DecodeM where
  pure := pure
  bind := bind

end DecodeM

def raise {α : Type} (e : DecodeError) : DecodeM α := fun c => (.error (.raised e), c)

def outOfFuel {α : Type} : DecodeM α := fun c => (.error .outOfFuel, c)

def getPos : DecodeM Int := fun c => (.ok c.pos, c)

def advance (n : Int) : DecodeM Unit := fun c => (.ok (), { c with pos := c.pos + n })

def peek (data : Bytes) : DecodeM UInt8 := fun c =>
  match item data c.pos with
  | some b => (.ok b, c)
  | none => (.error (.raised .index), c)

def tracked {α : Type} (m : DecodeM α) : DecodeM α := fun c =>
  match m c with
  | (.ok a, c') => (.ok a, { c' with movedBack := c'.movedBack || decide (c'.pos ≤ c.pos) })
  | (.error e, c') => (.error e, c')

/-- `while self.pos < len(self.data) and chr(self.data[self.pos]) != c: self.pos += 1`,
with the number of steps that the data leaves room for. -/
def skipToAux (data : Bytes) (c : UInt8) : Nat → DecodeM Unit
  | 0 => pure ()
  | n + 1 => do
    if (← getPos) < data.length then
      if (← peek data) ≠ c then
        advance 1
        skipToAux data c n

def skipTo (data : Bytes) (c : UInt8) : DecodeM Unit := do
  let p ← getPos
  skipToAux data c (data.length - p).toNat

/-- `chr(b).isdigit()`, which holds of superscript digits too. -/
def isdigit (b : UInt8) : Bool :=
  (48 ≤ b.toNat && b.toNat ≤ 57) || b.toNat == 0xB2 || b.toNat == 0xB3 || b.toNat == 0xB9

def parseNumber (numberStr : Str) : Except DecodeError Int :=
  match numberStr with
  | ['-'] => .error (.bencode "Invalid negative integer")
  | '-' :: rest =>
    match parseInt rest with
    | some n => .ok (-n)
    | none => .error .value
  | s =>
    if s.head? = some '0' ∧ 1 < s.length then
      .error (.bencode "Invalid integer with leading zero")
    else
      match parseInt s with
      | some n => .ok n
      | none => .error .value

/-- The text of `data[i:j].decode("utf-8")`. -/
def decodeText (b : Bytes) : Except DecodeError Str :=
  match utf8Decode b with
  | some s => .ok s
  | none => .error .unicode

def liftExcept {α : Type} : Except DecodeError α → DecodeM α
  | .ok a => pure a
  | .error e => raise e

/-- Search for a terminator and decode the text in front of it. -/
def textUntil (data : Bytes) (c : UInt8) (missing : String) : DecodeM Str := do
  let start ← getPos
  skipTo data c
  let p ← getPos
  if p ≥ data.length then
    raise (.bencode missing)
  liftExcept (decodeText (slice data start p))

def decodeInteger (data : Bytes) : DecodeM Int := do
  advance 1
  let numberStr ← textUntil data 0x65 "Missing 'e' terminator for integer"
  advance 1
  liftExcept (parseNumber numberStr)

/-- `int(length_str)` with its `ValueError` reported as a decoding error. -/
def parseLength (lengthStr : Str) : Except DecodeError Int :=
  match parseInt lengthStr with
  | some n => .ok n
  | none => .error (.bencode ("Invalid string length: " ++ String.ofList lengthStr))

/-- The part of `_decode_string` after the length. Nothing looks at its sign. -/
def cutString (data : Bytes) (length : Int) : DecodeM Bytes := do
  advance 1
  let p ← getPos
  if p + length > data.length then
    raise (.bencode "String length exceeds available data")
  advance length
  return slice data p (p + length)

def decodeString (data : Bytes) : DecodeM Bytes := tracked do
  let lengthStr ← textUntil data 0x3A "Missing colon in string"
  let length ← liftExcept (parseLength lengthStr)
  cutString data length

/-- The condition of the loops of `_decode_list` and `_decode_dict`. -/
def moreItems (data : Bytes) : DecodeM Bool := do
  if (← getPos) < data.length then
    return (← peek data) ≠ 0x65
  else
    return false

/-- What follows the loops of `_decode_list` and `_decode_dict`. -/
def closeWith (data : Bytes) (message : String) : DecodeM Unit := do
  if (← getPos) ≥ data.length then
    raise (.bencode message)
  advance 1

mutual

def decode (data : Bytes) : Nat → DecodeM PyObj
  | 0 => outOfFuel
  | n + 1 => tracked do
    if (← getPos) ≥ data.length then
      raise (.bencode "Unexpected end of data")
    let char ← peek data
    if char = 0x69 then
      return .int (← decodeInteger data)
    else if char = 0x6C then
      return .list (← decodeList data n)
    else if char = 0x64 then
      return .dict (← decodeDict data n)
    else if isdigit char then
      return .bytes (← decodeString data)
    else
      raise (.bencode ("Invalid bencode character: " ++ String.singleton (Char.ofNat char.toNat)))

def decodeList (data : Bytes) : Nat → DecodeM (List PyObj)
  | 0 => outOfFuel
  | n + 1 => tracked do
    advance 1
    let result ← decodeItems data n []
    closeWith data "Missing 'e' terminator for list"
    return result

def decodeItems (data : Bytes) : Nat → List PyObj → DecodeM (List PyObj)
  | 0, _ => outOfFuel
  | n + 1, result => do
    if ← moreItems data then
      let x ← decode data n
      decodeItems data n (result ++ [x])
    else
      return result

def decodeDict (data : Bytes) : Nat → DecodeM (List (Key × PyObj))
  | 0 => outOfFuel
  | n + 1 => tracked do
    advance 1
    let result ← decodeEntries data n []
    closeWith data "Missing 'e' terminator for dictionary"
    return result

/-- The loop of `_decode_dict`. The key is read without a look at its first
character. -/
def decodeEntries (data : Bytes) : Nat → List (Key × PyObj) → DecodeM (List (Key × PyObj))
  | 0, _ => outOfFuel
  | n + 1, result => do
    if ← moreItems data then
      let key ← decodeString data
      let value ← decode data n
      decodeEntries data n (setEntry (.bytes key) value result)
    else
      return result

end

end Bencode

end Ccbt
