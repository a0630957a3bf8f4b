import Ccbt.Python.Text

/-!
# Bencoding: Python objects and the encoder

`PyObj` is the part of the Python object universe that the bencode module tells
apart; everything else it can be handed is `other`. `encode` is
`BencodeEncoder.encode` of `core/bencode.py`.

A dictionary's values are encoded before its entries are sorted. The results,
errors included, are only looked at in sorted order, so the first error that is
raised is the one the source raises.
-/

namespace Ccbt

open Python

/-- A dictionary key. `other` carries the name of its type. -/
inductive Key
  | bytes (b : Bytes)
  | str (s : Str)
  | other (typeName : Str)
  deriving DecidableEq

/-- A Python object as the bencode module sees it. `other` carries the name of
its type. -/
inductive PyObj
  | bytes (b : Bytes)
  | str (s : Str)
  | int (n : Int)
  | bool (b : Bool)
  | list (items : List PyObj)
  | dict (entries : List (Key × PyObj))
  | other (typeName : Str)

namespace Key

/-- `type(key).__name__`. -/
def typeName : Key → Str
  | bytes _ => "bytes".toList
  | str _ => "str".toList
  | other t => t

/-- What the encoder sorts by: the key itself, or its UTF-8 encoding. -/
def sortKey : Key → Bytes
  | bytes b => b
  | str s => utf8Encode s
  | other _ => []

/-- Only `str` and `bytes` can be sorted by `sortKey`. -/
def isText : Key → Bool
  | other _ => false
  | _ => true

end Key

namespace Bencode

inductive EncodeError
  /-- `Cannot encode type: {type(obj)}` -/
  | cannotEncode (typeName : Str)
  /-- `Dictionary key must be string or bytes, got {...}` -/
  | badKey (typeName : Str)
  deriving DecidableEq

def encodeString (data : Bytes) : Bytes := utf8Encode (strInt data.length ++ [':']) ++ data

def encodeInteger (num : Int) : Bytes := utf8Encode (('i' :: strInt num) ++ ['e'])

/-- `_encode_integer` of a `bool`, which Python prints by name. -/
def encodeBool (b : Bool) : Bytes := ascii (if b then "iTruee" else "iFalsee")

/-- The loop of `_encode_dict` over the sorted entries. -/
def joinEntries : List (Key × Except EncodeError Bytes) → Except EncodeError Bytes
  | [] => .ok []
  | (key, value) :: es => do
    let value ← value
    let rest ← joinEntries es
    return encodeString key.sortKey ++ value ++ rest

/-- `_encode_dict`, given the encodings of the values. A key that cannot be
sorted is reported with the type of the first key of the dictionary. -/
def encodeDict (es : List (Key × Except EncodeError Bytes)) : Except EncodeError Bytes :=
  if es.all (fun e => e.1.isText) then do
    let body ← joinEntries (sortOn (fun e => e.1.sortKey) es)
    return ascii "d" ++ body ++ ascii "e"
  else .error (.badKey ((es.head?.map (fun e => e.1.typeName)).getD []))

mutual

def encode : PyObj → Except EncodeError Bytes
  | .bytes b => .ok (encodeString b)
  | .str s => .ok (encodeString (utf8Encode s))
  | .int n => .ok (encodeInteger n)
  | .bool b => .ok (encodeBool b)
  | .list items => do
    let body ← encodeItems items
    return ascii "l" ++ body ++ ascii "e"
  | .dict entries => encodeDict (encodeEntries entries)
  | .other t => .error (.cannotEncode t)

def encodeItems : List PyObj → Except EncodeError Bytes
  | [] => .ok []
  | x :: xs => do
    let item ← encode x
    let rest ← encodeItems xs
    return item ++ rest

/-- The encodings of a dictionary's values, under their keys. -/
def encodeEntries : List (Key × PyObj) → List (Key × Except EncodeError Bytes)
  | [] => []
  | (key, value) :: es => (key, encode value) :: encodeEntries es

end

mutual

/-- The values bencoding is for: text, numbers other than `bool`, lists, and
dictionaries whose keys are text with pairwise distinct encodings. -/
def Bencodable : PyObj → Prop
  | .bytes _ => True
  | .str _ => True
  | .int _ => True
  | .bool _ => False
  | .list items => BencodableItems items
  | .dict entries =>
    (∀ e ∈ entries, e.1.isText = true) ∧ (entries.map (fun e => e.1.sortKey)).Nodup ∧
      BencodableEntries entries
  | .other _ => False

/-- Every item is bencodable. -/
def BencodableItems : List PyObj → Prop
  | [] => True
  | x :: xs => Bencodable x ∧ BencodableItems xs

/-- Every value is bencodable. -/
def BencodableEntries : List (Key × PyObj) → Prop
  | [] => True
  | (_, v) :: es => Bencodable v ∧ BencodableEntries es

end

mutual

/-- The value with every `str` replaced by its UTF-8 encoding. -/
def strToBytes : PyObj → PyObj
  | .bytes b => .bytes b
  | .str s => .bytes (utf8Encode s)
  | .int n => .int n
  | .bool b => .bool b
  | .list items => .list (strToBytesItems items)
  | .dict entries => .dict (strToBytesEntries entries)
  | .other t => .other t

def strToBytesItems : List PyObj → List PyObj
  | [] => []
  | x :: xs => strToBytes x :: strToBytesItems xs

def strToBytesEntries : List (Key × PyObj) → List (Key × PyObj)
  | [] => []
  | (k, v) :: es => (.bytes k.sortKey, strToBytes v) :: strToBytesEntries es

end

mutual

/-- Python's `==` on decoded values: dictionaries are compared as maps. -/
def Same : PyObj → PyObj → Prop
  | .bytes b, w => w = .bytes b
  | .str s, w => w = .str s
  | .int n, w => w = .int n
  | .bool b, w => w = .bool b
  | .list items, w => ∃ items', w = .list items' ∧ SameItems items items'
  | .dict entries, w => ∃ entries', w = .dict entries' ∧ entries'.length = entries.length ∧
      SameEntries entries entries'
  | .other t, w => w = .other t

/-- Item by item. -/
def SameItems : List PyObj → List PyObj → Prop
  | [], ys => ys = []
  | x :: xs, ys => ∃ y ys', ys = y :: ys' ∧ Same x y ∧ SameItems xs ys'

def SameEntries : List (Key × PyObj) → List (Key × PyObj) → Prop
  | [], _ => True
  | (k, v) :: es, es' => (∃ v', es'.lookup k = some v' ∧ Same v v') ∧ SameEntries es es'

end

end Bencode

end Ccbt
