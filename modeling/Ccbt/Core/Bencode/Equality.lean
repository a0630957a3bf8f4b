import Ccbt.Core.Bencode.Encoder
import Ccbt.Python.Dict
import Mathlib.Data.List.Perm.Subperm

/-!
# Bencoding: what Python compares and prints

`==` on decoded values: comparing dictionaries as maps is comparing their entries by lookup, and
every value whose dictionaries have no key twice is equal to itself. `repr`, `str` and the type of a
value are as the messages of the parsers show them. A decoded value is built from octets, numbers,
lists and dictionaries; below its top it holds no `str`, whose `repr` is only given for printable
text.
-/

namespace Ccbt

open Python

namespace Bencode

theorem sameEntries_iff {es es' : List (Key × PyObj)} : SameEntries es es' ↔
    ∀ e ∈ es, ∃ v', es'.lookup e.1 = some v' ∧ Same e.2 v' := by
  induction es with
  | nil => simp [SameEntries]
  | cons e es ih => rw [SameEntries, ih, List.forall_mem_cons]

mutual

/-- No dictionary of the value has a key twice, as in every Python object. -/
def Distinct : PyObj → Prop
  | .list items => DistinctItems items
  | .dict entries => (entries.map Prod.fst).Nodup ∧ DistinctEntries entries
  | _ => True

def DistinctItems : List PyObj → Prop
  | [] => True
  | x :: xs => Distinct x ∧ DistinctItems xs

def DistinctEntries : List (Key × PyObj) → Prop
  | [] => True
  | (_, v) :: es => Distinct v ∧ DistinctEntries es

end

mutual

theorem same_refl : ∀ {v : PyObj}, Distinct v → Same v v
  | .bytes _, _ => by rw [Same]
  | .str _, _ => by rw [Same]
  | .int _, _ => by rw [Same]
  | .bool _, _ => by rw [Same]
  | .other _, _ => by rw [Same]
  | .list items, h => by
    rw [Distinct] at h
    rw [Same]
    exact ⟨items, rfl, sameItems_refl h⟩
  | .dict entries, h => by
    rw [Distinct] at h
    rw [Same]
    refine ⟨entries, rfl, rfl, sameEntries_iff.mpr fun e he => ?_⟩
    exact ⟨e.2, (lookup_eq_some_iff h.1).mpr he, same_entries_refl h.2 e he⟩

theorem sameItems_refl : ∀ {xs : List PyObj}, DistinctItems xs → SameItems xs xs
  | [], _ => by rw [SameItems]
  | x :: xs, h => by
    rw [SameItems]
    exact ⟨x, xs, rfl, same_refl h.1, sameItems_refl h.2⟩

theorem same_entries_refl : ∀ {es : List (Key × PyObj)}, DistinctEntries es →
    ∀ e ∈ es, Same e.2 e.2
  | [], _, _, he => absurd he List.not_mem_nil
  | (_, _) :: _, h, e, he => by
    rcases List.mem_cons.mp he with rfl | he
    · exact same_refl h.1
    · exact same_entries_refl h.2 e he

end

/-- A dictionary equals another one when they have as many entries and each of its entries is
found in the other one. -/
theorem same_dict_iff {es : List (Key × PyObj)} {w : PyObj} : Same (.dict es) w ↔
    ∃ es', w = .dict es' ∧ es'.length = es.length ∧
      ∀ e ∈ es, ∃ v', es'.lookup e.1 = some v' ∧ Same e.2 v' := by
  rw [Same]
  simp only [sameEntries_iff]

/-- Equal dictionaries have the same keys. -/
theorem Same.keys_perm {es es' : List (Key × PyObj)} (hes : (es.map Prod.fst).Nodup)
    (h : Same (.dict es) (.dict es')) : (es.map Prod.fst).Perm (es'.map Prod.fst) := by
  obtain ⟨_, ⟨⟩, hlength, hlookup⟩ := same_dict_iff.mp h
  have hsub : es.map Prod.fst ⊆ es'.map Prod.fst := by
    intro k hk
    obtain ⟨e, he, rfl⟩ := List.mem_map.mp hk
    obtain ⟨v', hv', -⟩ := hlookup e he
    by_contra hno
    rw [lookup_eq_none_iff.mpr hno] at hv'
    cases hv'
  refine (List.Nodup.subperm hes hsub).perm_of_length_le ?_
  rw [List.length_map, List.length_map, hlength]

end Bencode

namespace PyObj

def hexDigit (n : Nat) : Char := "0123456789abcdef".toList.getD n '0'

/-- An octet within the quotes of a `repr`. -/
def reprByte (quote : Char) (b : UInt8) : Str :=
  let c := Char.ofNat b.toNat
  if c = quote ∨ c = '\\' then ['\\', c]
  else if c = '\t' then ['\\', 't']
  else if c = '\n' then ['\\', 'n']
  else if c = '\r' then ['\\', 'r']
  else if 0x20 ≤ b.toNat ∧ b.toNat < 0x7F then [c]
  else ['\\', 'x', hexDigit (b.toNat / 16), hexDigit (b.toNat % 16)]

/-- The quote that `repr` uses: the single one, unless that would have to be escaped. -/
def quoteFor (single double : Bool) : Char := if single ∧ ¬double then '\x22' else '\x27'

def reprBytes (b : Bytes) : Str :=
  let quote := quoteFor (0x27 ∈ b) (0x22 ∈ b)
  'b' :: quote :: b.flatMap (reprByte quote) ++ [quote]

def reprStr (s : Str) : Str :=
  let quote := quoteFor ('\x27' ∈ s) ('\x22' ∈ s)
  quote :: s.flatMap (fun c => if c = quote ∨ c = '\\' then ['\\', c] else [c]) ++ [quote]

def joinComma (items : List Str) : Str := [',', ' '].intercalate items

end PyObj

/-- `repr(key)` -/
def Key.repr : Key → Str
  | bytes b => PyObj.reprBytes b
  | str s => PyObj.reprStr s
  | other t => '<' :: t ++ ['>']

namespace PyObj

mutual

def repr : PyObj → Str
  | bytes b => reprBytes b
  | str s => reprStr s
  | int n => strInt n
  | bool b => (if b then "True" else "False").toList
  | list items => '[' :: joinComma (reprItems items) ++ [']']
  | dict entries => '\x7b' :: joinComma (reprEntries entries) ++ ['\x7d']
  | other t => '<' :: t ++ ['>']

def reprItems : List PyObj → List Str
  | [] => []
  | x :: xs => repr x :: reprItems xs

def reprEntries : List (Key × PyObj) → List Str
  | [] => []
  | (k, v) :: es => (k.repr ++ ": ".toList ++ repr v) :: reprEntries es

end

def toStr : PyObj → Str
  | str s => s
  | obj => repr obj

def typeStr (obj : PyObj) : Str :=
  let name := match obj with
    | bytes _ => "bytes".toList
    | str _ => "str".toList
    | int _ => "int".toList
    | bool _ => "bool".toList
    | list _ => "list".toList
    | dict _ => "dict".toList
    | other t => t
  "<class '".toList ++ name ++ "'>".toList

def getStr (o : Option PyObj) : Str :=
  match o with
  | none => "None".toList
  | some obj => obj.toStr

example : (PyObj.list [.int (-3), .bytes [0x41, 0xFF]]).toStr = "[-3, b'A\\xff']".toList := by
  decide +kernel

end PyObj

end Ccbt
