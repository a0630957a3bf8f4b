import Ccbt.Storage.Checkpoint.Formats
import Mathlib.Logic.Encodable.Basic
import Mathlib.Logic.Equiv.List
import Mathlib.Data.Nat.Pairing

/-!
# Libraries that do what is relied on

Stand-ins for the serialisers and compressors, which show that what is assumed of them can be had: a
value is numbered, its text is as many ones as the number says and a zero, and a compressor puts one
octet in front.
-/

namespace Python

def PyFloat.code : PyFloat → Nat
  | finite q => Nat.pair 0 (Nat.pair (Encodable.encode q.num) q.den)
  | inf negative => Nat.pair 1 (Encodable.encode negative)
  | nan => Nat.pair 2 0

def strCode (s : Str) : Nat := Encodable.encode (s.map Char.toNat)

def bytesCode (b : Bytes) : Nat := Encodable.encode (b.map UInt8.toNat)

def DictKey.code : DictKey → Nat
  | none => Nat.pair 0 0
  | bool b => Nat.pair 1 (Encodable.encode b)
  | int n => Nat.pair 2 (Encodable.encode n)
  | float x => Nat.pair 3 x.code
  | str s => Nat.pair 4 (strCode s)
  | bytes b => Nat.pair 5 (bytesCode b)
  | other n => Nat.pair 6 n

namespace Value

mutual

/-- The number of a value. -/
def code : Value → Nat
  | none => Nat.pair 0 0
  | bool b => Nat.pair 1 (Encodable.encode b)
  | int n => Nat.pair 2 (Encodable.encode n)
  | float x => Nat.pair 3 x.code
  | str s => Nat.pair 4 (strCode s)
  | bytes b => Nat.pair 5 (bytesCode b)
  | list items => Nat.pair 6 (itemsCode items)
  | tuple items => Nat.pair 7 (itemsCode items)
  | dict entries => Nat.pair 8 (entriesCode entries)
  | other n => Nat.pair 9 n

def itemsCode : List Value → Nat
  | [] => 0
  | v :: items => Nat.pair (code v) (itemsCode items) + 1

def entriesCode : List (DictKey × Value) → Nat
  | [] => 0
  | (k, v) :: entries => Nat.pair k.code (Nat.pair (code v) (entriesCode entries)) + 1

end

end Value

section Injective

theorem strCode_injective {s t : Str} (h : strCode s = strCode t) : s = t := by
  have hmap := Encodable.encode_injective h
  exact List.map_injective_iff.mpr (fun _ _ hc => Char.toNat_inj.mp hc) hmap

theorem bytesCode_injective {a b : Bytes} (h : bytesCode a = bytesCode b) : a = b := by
  have hmap := Encodable.encode_injective h
  exact List.map_injective_iff.mpr (fun _ _ hc => UInt8.toNat_inj.mp hc) hmap

theorem PyFloat.code_injective {x y : PyFloat} (h : x.code = y.code) : x = y := by
  cases x <;> cases y <;> simp [PyFloat.code, Nat.pair_eq_pair] at h ⊢
  · exact Rat.ext h.1 h.2
  · exact h

theorem DictKey.code_injective {k j : DictKey} (h : k.code = j.code) : k = j := by
  cases k <;> cases j <;> simp [DictKey.code, Nat.pair_eq_pair] at h ⊢
  · exact h
  · exact h
  · exact PyFloat.code_injective h
  · exact strCode_injective h
  · exact bytesCode_injective h
  · exact h

namespace Value

mutual

theorem code_injective : ∀ v w : Value, code v = code w → v = w := by
  intro v w h
  cases v <;> cases w <;> simp [code, Nat.pair_eq_pair] at h ⊢
  · exact h
  · exact h
  · exact PyFloat.code_injective h
  · exact strCode_injective h
  · exact bytesCode_injective h
  · exact itemsCode_injective _ _ h
  · exact itemsCode_injective _ _ h
  · exact entriesCode_injective _ _ h
  · exact h

theorem itemsCode_injective : ∀ l m : List Value, itemsCode l = itemsCode m → l = m
  | [], [], _ => rfl
  | [], _ :: _, h => by simp [itemsCode] at h
  | _ :: _, [], h => by simp [itemsCode] at h
  | v :: l, w :: m, h => by
    simp only [itemsCode, Nat.add_right_cancel_iff, Nat.pair_eq_pair] at h
    rw [code_injective v w h.1, itemsCode_injective l m h.2]

theorem entriesCode_injective :
    ∀ l m : List (DictKey × Value), entriesCode l = entriesCode m → l = m
  | [], [], _ => rfl
  | [], (_, _) :: _, h => by simp [entriesCode] at h
  | (_, _) :: _, [], h => by simp [entriesCode] at h
  | (k, v) :: l, (j, w) :: m, h => by
    simp only [entriesCode, Nat.add_right_cancel_iff, Nat.pair_eq_pair] at h
    rw [DictKey.code_injective h.1, code_injective v w h.2.1, entriesCode_injective l m h.2.2]

end

end Value

end Injective

end Python

namespace Ccbt

open Python

namespace Checkpoint

def tally (n : Nat) : Bytes := List.replicate n 1 ++ [0]

theorem length_tally (n : Nat) : (tally n).length = n + 1 := by
  rw [tally, List.length_append, List.length_replicate, List.length_singleton]

/-- The value whose number it is. -/
noncomputable def readTally (data : Bytes) : Option Value :=
  if data = tally (data.length - 1) then Function.partialInv Value.code (data.length - 1) else none

theorem readTally_tally (v : Value) : readTally (tally v.code) = some v := by
  have hlength : (tally v.code).length - 1 = v.code := by
    rw [length_tally, Nat.add_sub_cancel]
  rw [readTally, hlength, if_pos rfl]
  exact Function.partialInv_left Value.code_injective v

theorem readTally_take {n m : Nat} (h : m < (tally n).length) :
    readTally ((tally n).take m) = none := by
  rw [length_tally] at h
  have htake : (tally n).take m = List.replicate m 1 := by
    rw [tally, List.take_append_of_le_length (by rw [List.length_replicate]; omega),
      List.take_replicate, min_eq_left (by omega)]
  rw [htake, readTally, if_neg]
  intro heq
  have hzero : (0 : UInt8) ∈ List.replicate m 1 := by
    rw [heq, tally]
    exact List.mem_append_right _ (List.mem_singleton_self 0)
  exact absurd (List.eq_of_mem_replicate hzero) (by decide)

/-- What is behind the octet that `gzip` puts in front. -/
def gunzipOctet : Bytes → Option Bytes
  | [] => some []
  | b :: data => if b = 0x1f then some data else none

def plainRepr (x : PyFloat) : Str := strInt x.code

def tallyDump (v : Value) : Bytes × Bool :=
  if (jsonImage plainRepr v).isSome then (tally v.code, true) else ([], false)

noncomputable def tallyLoads (data : Bytes) : Option Value :=
  (readTally data).bind (jsonImage plainRepr)

noncomputable def tallyUnpackb (data : Bytes) : Option Value := (readTally data).bind msgpackImage

theorem tallyDump_refused (entries : List (DictKey × Value))
    (h : jsonImage plainRepr (.dict entries) = none) : (tallyDump (.dict entries)).2 = false ∧
      ∀ n, tallyLoads ((tallyDump (.dict entries)).1.take n) = none := by
  rw [tallyDump, h]
  refine ⟨rfl, fun n => ?_⟩
  rw [if_neg (by decide), List.take_nil]
  rfl

theorem tallyDump_accepted (entries : List (DictKey × Value)) (v : Value)
    (h : jsonImage plainRepr (.dict entries) = some v) : (tallyDump (.dict entries)).2 = true ∧
      tallyLoads (tallyDump (.dict entries)).1 = some v ∧
        ∀ n < (tallyDump (.dict entries)).1.length,
          tallyLoads ((tallyDump (.dict entries)).1.take n) = none := by
  have hsome : (jsonImage plainRepr (.dict entries)).isSome = true := by rw [h]; rfl
  rw [tallyDump, if_pos hsome]
  refine ⟨rfl, ?_, fun n hn => ?_⟩
  · rw [tallyLoads, readTally_tally, Option.bind_some, h]
  · rw [tallyLoads, readTally_take hn, Option.bind_none]

theorem tallyUnpackb_packb (v : Value) (data : Bytes) (h : some (tally v.code) = some data) :
    tallyUnpackb data = msgpackImage v ∧
      ∀ n < data.length, tallyUnpackb (data.take n) = none := by
  obtain rfl := Option.some.inj h
  refine ⟨by rw [tallyUnpackb, readTally_tally, Option.bind_some], fun n hn => ?_⟩
  rw [tallyUnpackb, readTally_take hn, Option.bind_none]

theorem gunzipOctet_gzip (data : Bytes) : gunzipOctet (0x1f :: data) = some data := rfl

theorem gunzipOctet_gzip_take (data : Bytes) (n : Nat) :
    gunzipOctet ((0x1f :: data).take n) = none ∨
      ∃ m, gunzipOctet ((0x1f :: data).take n) = some (data.take m) := by
  cases n with
  | zero => exact .inr ⟨0, rfl⟩
  | succ n => exact .inr ⟨n, rfl⟩

theorem gunzipOctet_zstd_take (data : Bytes) (n : Nat) :
    gunzipOctet ((0x28 :: data).take n) = none ∨
      gunzipOctet ((0x28 :: data).take n) = some [] := by
  cases n with
  | zero => exact .inr rfl
  | succ n => exact .inl rfl

noncomputable def standIns : Libraries where
  repr := plainRepr
  dump := tallyDump
  loads := tallyLoads
  sortedDumps v := tally v.code
  packb v := some (tally v.code)
  unpackb := tallyUnpackb
  gzip data := 0x1f :: data
  gunzip := gunzipOctet
  zstd data := 0x28 :: data
  has_zstd := true
  dump_refused := tallyDump_refused
  dump_accepted := tallyDump_accepted
  unpackb_packb := tallyUnpackb_packb
  gunzip_gzip := gunzipOctet_gzip
  gunzip_gzip_take := gunzipOctet_gzip_take
  gunzip_zstd_take := gunzipOctet_zstd_take

end Checkpoint

end Ccbt
