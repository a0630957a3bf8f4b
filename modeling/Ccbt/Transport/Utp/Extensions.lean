import Ccbt.Python.Bytes
import Mathlib.Data.Nat.Cast.Basic

/-!
# uTP extensions: `transport/utp_extensions.py`

An extension travels as `[type][length][data]`, and a packet carries a chain of
them between its header and its payload. `parseExtensions` takes the octets after
the header and returns the extensions with the octets that the chain leaves over.
-/

namespace Ccbt

open Python

namespace Utp

/-- The extension types that have a class of their own. -/
inductive UTPExtensionType
  | SACK
  | WINDOW_SCALING
  | ECN
  deriving DecidableEq

def UTPExtensionType.toByte : UTPExtensionType → UInt8
  | SACK => 1
  | WINDOW_SCALING => 2
  | ECN => 4

/-- A range of received sequence numbers, the end excluded. -/
structure SACKBlock where
  start_seq : UInt16
  end_seq : UInt16
  start_lt_end : start_seq < end_seq
  deriving DecidableEq

namespace SACKBlock

/-- `SACKBlock(start_seq, end_seq)`, or `none` where `__post_init__` raises. -/
def new (start_seq end_seq : UInt16) : Option SACKBlock :=
  if h : start_seq < end_seq then some ⟨start_seq, end_seq, h⟩ else none

def pack (b : SACKBlock) : Bytes := packH b.start_seq ++ packH b.end_seq

theorem new_eq (b : SACKBlock) : new b.start_seq b.end_seq = some b := dif_pos b.start_lt_end

end SACKBlock

/-- Shift counts of the window, as `WindowScalingExtension.__post_init__` checks them. -/
abbrev ScaleFactor := Fin 15

instance ScaleFactor.instNeZero : NeZero 15 := ⟨Nat.succ_ne_zero 14⟩

inductive UTPExtension
  | sack (blocks : List SACKBlock) (length_le : blocks.length ≤ 4)
  | windowScaling (scale_factor : ScaleFactor)
  | ecn (ecn_echo ecn_cwr : Bool)
  deriving DecidableEq

namespace UTPExtension

/-- `SACKExtension(blocks)` keeps the first four blocks. -/
def newSack (blocks : List SACKBlock) : UTPExtension :=
  .sack (blocks.take 4) (List.length_take_le 4 blocks)

def extension_type : UTPExtension → UTPExtensionType
  | sack _ _ => .SACK
  | windowScaling _ => .WINDOW_SCALING
  | ecn _ _ => .ECN

def pack : UTPExtension → Bytes
  | sack blocks _ => blocks.length.toUInt8 :: blocks.flatMap SACKBlock.pack
  | windowScaling k => [k.val.toUInt8]
  | ecn echo cwr => [(if echo then 1 else 0) + (if cwr then 2 else 0)]

/-- The blocks that `SACKExtension.unpack` reads, `none` where one is invalid. -/
def unpackBlocks : Nat → Bytes → Option (List SACKBlock)
  | 0, _ => some []
  | n + 1, data => do
    let b ← SACKBlock.new (unpackH (data.take 2)) (unpackH ((data.drop 2).take 2))
    let bs ← unpackBlocks n (data.drop 4)
    return b :: bs

/-- The `unpack` of the class for a type octet, `none` where it raises and where
no class has the type: the chain skips the extension in both cases. -/
def unpack (ext_type : UInt8) (data : Bytes) : Option UTPExtension :=
  match data with
  | [] => none
  | b :: rest =>
    if ext_type = UTPExtensionType.SACK.toByte then
      if rest.length < b.toNat * 4 then none
      else (unpackBlocks b.toNat rest).map newSack
    else if ext_type = UTPExtensionType.WINDOW_SCALING.toByte then
      if h : b.toNat < 15 then some (.windowScaling ⟨b.toNat, h⟩) else none
    else if ext_type = UTPExtensionType.ECN.toByte then
      some (.ecn (b &&& 1 ≠ 0) (b &&& 2 ≠ 0))
    else none

end UTPExtension

/-- The loop of `parse_extensions`, at most `n` rounds of it. -/
def parseChain : Nat → Bytes → List UTPExtension × Bytes
  | 0, data => ([], data)
  | _ + 1, [] => ([], [])
  | _ + 1, [t] => if t = 0 then ([], []) else ([], [t])
  | n + 1, t :: ext_length :: rest =>
    if t = 0 then ([], ext_length :: rest)
    else if rest.length < ext_length.toNat then ([], t :: ext_length :: rest)
    else
      let (exts, payload) := parseChain n (rest.drop ext_length.toNat)
      match UTPExtension.unpack t (rest.take ext_length.toNat) with
      | some e => (e :: exts, payload)
      | none => (exts, payload)

def parseExtensions (data : Bytes) : List UTPExtension × Bytes := parseChain data.length data

def encodeExtension (e : UTPExtension) : Bytes :=
  e.extension_type.toByte :: e.pack.length.toUInt8 :: e.pack

def encodeExtensions (exts : List UTPExtension) : Bytes :=
  if exts = [] then [0] else exts.flatMap encodeExtension

namespace UTPExtension

private theorem unpackBlocks_pack (blocks : List SACKBlock) :
    unpackBlocks blocks.length (blocks.flatMap SACKBlock.pack) = some blocks := by
  induction blocks with
  | nil => rfl
  | cons b bs ih =>
    have hs : ((packH b.start_seq ++ (packH b.end_seq ++ bs.flatMap SACKBlock.pack)).take 2) =
        packH b.start_seq := List.take_left' (packH_length _)
    have hd : ((packH b.start_seq ++ (packH b.end_seq ++ bs.flatMap SACKBlock.pack)).drop 2) =
        packH b.end_seq ++ bs.flatMap SACKBlock.pack := List.drop_left' (packH_length _)
    have he : ((packH b.end_seq ++ bs.flatMap SACKBlock.pack).take 2) = packH b.end_seq :=
      List.take_left' (packH_length _)
    have hr : ((packH b.start_seq ++ (packH b.end_seq ++ bs.flatMap SACKBlock.pack)).drop 4) =
        bs.flatMap SACKBlock.pack := by
      rw [← List.append_assoc]
      exact List.drop_left' (by simp)
    simp only [List.length_cons, List.flatMap_cons, SACKBlock.pack, List.append_assoc,
      unpackBlocks] at ih ⊢
    simp [hs, hd, he, hr, SACKBlock.new_eq, ih]

theorem pack_length_le (e : UTPExtension) : e.pack.length ≤ 17 := by
  cases e with
  | sack blocks h =>
    have hl : (blocks.flatMap SACKBlock.pack).length = blocks.length * 4 := by
      simp [List.length_flatMap, SACKBlock.pack]
    simp only [pack, List.length_cons, hl]
    omega
  | windowScaling k => exact Nat.le_of_ble_eq_true rfl
  | ecn a b => exact Nat.le_of_ble_eq_true rfl

theorem toByte_extension_type_ne_zero (e : UTPExtension) : e.extension_type.toByte ≠ 0 := by
  generalize e.extension_type = t
  revert t
  rintro (_ | _ | _) <;> decide

/-- An extension read back from its own octets. -/
theorem unpack_pack (e : UTPExtension) : unpack e.extension_type.toByte e.pack = some e := by
  cases e with
  | sack blocks h =>
    have hn : (blocks.length.toUInt8).toNat = blocks.length := by
      simp only [Nat.toUInt8, UInt8.toNat_ofNat']
      omega
    have hl : (blocks.flatMap SACKBlock.pack).length = blocks.length * 4 := by
      simp [List.length_flatMap, SACKBlock.pack]
    simp only [pack, unpack, extension_type, if_true, hn, hl, lt_irrefl, if_false,
      unpackBlocks_pack, Option.map_some, newSack, List.take_of_length_le h]
  | windowScaling k => revert k; decide
  | ecn a b => revert a b; decide

end UTPExtension

theorem encodeExtension_length (e : UTPExtension) :
    (encodeExtension e).length = e.pack.length + 2 := rfl

theorem parseChain_cons (e : UTPExtension) (n : Nat) (rest : Bytes) :
    parseChain (n + 1) (encodeExtension e ++ rest) =
      (e :: (parseChain n rest).1, (parseChain n rest).2) := by
  have hl : (e.pack.length.toUInt8).toNat = e.pack.length := by
    have := e.pack_length_le
    simp only [Nat.toUInt8, UInt8.toNat_ofNat']
    omega
  have hlt : ¬(e.pack ++ rest).length < e.pack.length := by simp
  simp only [encodeExtension, List.cons_append, parseChain, if_neg e.toByte_extension_type_ne_zero,
    hl, if_neg hlt, List.drop_left, List.take_left, e.unpack_pack]

theorem parseChain_flatMap (exts : List UTPExtension) {n : Nat}
    (hn : (exts.flatMap encodeExtension).length ≤ n) :
    parseChain n (exts.flatMap encodeExtension) = (exts, []) := by
  induction exts generalizing n with
  | nil => cases n <;> rfl
  | cons e exts ih =>
    rw [List.flatMap_cons, List.length_append, encodeExtension_length] at hn
    obtain ⟨m, rfl⟩ : ∃ m, n = m + 1 := ⟨n - 1, by omega⟩
    rw [List.flatMap_cons, parseChain_cons, ih (by omega)]

/-- A chain that ends with the packet is read back as it was written. -/
theorem parseExtensions_encodeExtensions {exts : List UTPExtension} (h : exts ≠ []) :
    parseExtensions (encodeExtensions exts) = (exts, []) := by
  rw [encodeExtensions, if_neg h]
  exact parseChain_flatMap exts le_rfl

end Utp

end Ccbt
