import Mathlib.Algebra.Ring.Int.Defs
import Mathlib.Algebra.Ring.Nat
import Mathlib.Data.Char
import Mathlib.Data.List.Induction
import Mathlib.Data.List.Lex
import Mathlib.Data.List.Sort
import Mathlib.Order.Defs.LinearOrder
import Mathlib.Order.Lattice.Nat

/-!
# Python byte strings

`bytes` values are lists of octets. This file gives the operations on them that
Python programs rely on: literals, ordering, indexing and slicing with signed
positions (negative ones count from the end), big-endian integers and cutting
into pieces of a fixed size, and `struct.pack` and `struct.unpack` of unsigned integers.
`sortOn` is `sorted(_, key=...)`.
-/

/-- Octets are ordered by value, as Python orders the items of a byte string. -/
instance UInt8.instLinearOrder : LinearOrder UInt8 where
  le_refl := UInt8.le_refl
  le_trans _ _ _ := UInt8.le_trans
  le_antisymm _ _ := UInt8.le_antisymm
  le_total := UInt8.le_total
  lt_iff_le_not_ge a b := by
    simp only [UInt8.lt_iff_toNat_lt, UInt8.le_iff_toNat_le]
    omega
  toDecidableLE := inferInstance
  toDecidableLT := inferInstance

namespace Python

/-- A Python `bytes` value. -/
abbrev Bytes := List UInt8

instance Bytes.instLawfulBEq : LawfulBEq Bytes := inferInstance

/-- A Python `str` value without lone surrogates. -/
abbrev Str := List Char

/-- A property of the characters of a text is tried on these, and not on all that there are. -/
instance (priority := high) Str.decidableBAll (s : Str) (P : Char → Prop) [DecidablePred P] :
    Decidable (∀ c ∈ s, P c) :=
  List.decidableBAll P s

/-- The literal `b"..."` of an ASCII text. -/
def ascii (s : String) : Bytes := s.toList.map (fun c => c.toNat.toUInt8)

section Sorting

variable {α κ : Type*} [LinearOrder κ]

/-- `sorted(l, key=key)`: stable, ascending. -/
def sortOn (key : α → κ) (l : List α) : List α :=
  l.insertionSort (fun a b => key a ≤ key b)

theorem sortOn_perm (key : α → κ) (l : List α) : (sortOn key l).Perm l :=
  List.perm_insertionSort _ l

theorem sortOn_pairwise (key : α → κ) (l : List α) :
    (sortOn key l).Pairwise (fun a b => key a ≤ key b) := by
  have : IsTrans α (fun a b => key a ≤ key b) := ⟨fun _ _ _ => le_trans⟩
  have : Std.Total (fun a b : α => key a ≤ key b) := ⟨fun a b => le_total (key a) (key b)⟩
  exact List.pairwise_insertionSort _ l

theorem sortOn_eq_self (key : α → κ) {l : List α}
    (h : l.Pairwise (fun a b => key a ≤ key b)) : sortOn key l = l :=
  List.Pairwise.insertionSort_eq h

/-- Distinct keys leave a sorted list strictly ascending. -/
theorem sortOn_pairwise_lt (key : α → κ) {l : List α} (h : (l.map key).Nodup) :
    (sortOn key l).Pairwise (fun a b => key a < key b) := by
  have hn : ((sortOn key l).map key).Nodup := ((sortOn_perm key l).map key).nodup_iff.mpr h
  have hne : (sortOn key l).Pairwise (fun a b => key a ≠ key b) := List.pairwise_map.mp hn
  exact (sortOn_pairwise key l).imp₂ (fun _ _ hle hne => lt_of_le_of_ne hle hne) hne

private theorem orderedInsert_map {β : Type*} (f : α → β) (key : β → κ) (a : α) (l : List α) :
    (l.orderedInsert (fun a b => key (f a) ≤ key (f b)) a).map f =
      (l.map f).orderedInsert (fun a b => key a ≤ key b) (f a) := by
  induction l with
  | nil => rfl
  | cons b l ih =>
    simp only [List.orderedInsert, List.map_cons]
    split
    · rfl
    · rw [List.map_cons, ih]

/-- Sorting commutes with a map that leaves the sort keys alone. -/
theorem sortOn_map {β : Type*} (f : α → β) (key : β → κ) (l : List α) :
    sortOn key (l.map f) = (sortOn (fun a => key (f a)) l).map f := by
  induction l with
  | nil => rfl
  | cons a l ih =>
    simp only [sortOn, List.insertionSort, List.map_cons, List.foldr_cons] at ih ⊢
    rw [orderedInsert_map, ← ih]

end Sorting

/-- `data[i]`, or `none` where Python raises `IndexError`. -/
def item (data : Bytes) (i : Int) : Option UInt8 :=
  let j := if i < 0 then data.length + i else i
  if j < 0 then none else data[j.toNat]?

/-- Where a slice bound lands: negative bounds count from the end, and bounds
beyond either end are clamped. -/
def sliceBound (data : Bytes) (i : Int) : Nat :=
  if i < 0 then (data.length + i).toNat else min i.toNat data.length

/-- `data[i:j]`. -/
def slice (data : Bytes) (i j : Int) : Bytes :=
  (data.take (sliceBound data j)).drop (sliceBound data i)

@[simp] theorem item_natCast (data : Bytes) (i : Nat) : item data i = data[i]? := by
  have hi : ¬(i : Int) < 0 := by omega
  simp [item, hi]

theorem slice_natCast (data : Bytes) {i j : Nat} (hi : i ≤ j) (hj : j ≤ data.length) :
    slice data i j = (data.drop i).take (j - i) := by
  have hi' : min i data.length = i := by omega
  have hj' : min j data.length = j := by omega
  have hi0 : ¬(i : Int) < 0 := by omega
  have hj0 : ¬(j : Int) < 0 := by omega
  simp [slice, sliceBound, hi', hj', hi0, hj0, List.drop_take]

/-- Slicing the middle out of a concatenation. -/
theorem slice_append (pre mid post : Bytes) :
    slice (pre ++ mid ++ post) pre.length (pre.length + mid.length : Nat) = mid := by
  rw [slice_natCast _ (by omega) (by simp)]
  simp [List.append_assoc]

theorem slice_empty (data : Bytes) {i j : Int} (hj : 0 ≤ j) (h : j ≤ i) : slice data i j = [] := by
  have hle : sliceBound data j ≤ sliceBound data i := by
    unfold sliceBound
    split <;> split <;> omega
  simp only [slice, List.drop_eq_nil_iff, List.length_take]
  omega

/-- `n.to_bytes(k, "big")` for a value that fits: `k` octets, most significant
first. -/
def bigEndian : Nat → Nat → Bytes
  | 0, _ => []
  | k + 1, n => bigEndian k (n / 256) ++ [n.toUInt8]

/-- `int.from_bytes(data, "big")`. -/
def ofBigEndian (data : Bytes) : Nat := data.foldl (fun n b => 256 * n + b.toNat) 0

@[simp] theorem bigEndian_length (k n : Nat) : (bigEndian k n).length = k := by
  induction k generalizing n with
  | zero => rfl
  | succ k ih => simp [bigEndian, ih]

theorem ofBigEndian_append_singleton (data : Bytes) (b : UInt8) :
    ofBigEndian (data ++ [b]) = 256 * ofBigEndian data + b.toNat := by
  simp [ofBigEndian]

theorem ofBigEndian_bigEndian {k n : Nat} (h : n < 256 ^ k) : ofBigEndian (bigEndian k n) = n := by
  induction k generalizing n with
  | zero =>
    have : n = 0 := by simpa using h
    simp [bigEndian, ofBigEndian, this]
  | succ k ih =>
    have hdiv : n / 256 < 256 ^ k := Nat.div_lt_of_lt_mul (by rwa [Nat.pow_succ'] at h)
    rw [bigEndian, ofBigEndian_append_singleton, ih hdiv]
    simp only [Nat.toUInt8, UInt8.toNat_ofNat']
    omega

theorem ofBigEndian_lt (data : Bytes) : ofBigEndian data < 256 ^ data.length := by
  induction data using List.reverseRecOn with
  | nil => simp [ofBigEndian]
  | append_singleton data b ih =>
    have hb : b.toNat < 256 := b.toNat_lt
    rw [ofBigEndian_append_singleton, List.length_append, List.length_singleton, Nat.pow_succ]
    omega

@[simp] theorem bigEndian_ofBigEndian (data : Bytes) :
    bigEndian data.length (ofBigEndian data) = data := by
  induction data using List.reverseRecOn with
  | nil => rfl
  | append_singleton data b ih =>
    have hb : b.toNat < 256 := b.toNat_lt
    have hdiv : (256 * ofBigEndian data + b.toNat) / 256 = ofBigEndian data := by omega
    have hlow : (256 * ofBigEndian data + b.toNat).toUInt8 = b := by
      rw [← UInt8.toNat_inj, Nat.toUInt8, UInt8.toNat_ofNat']
      omega
    rw [ofBigEndian_append_singleton, List.length_append, List.length_singleton, bigEndian, hdiv,
      ih, hlow]

/-- Big-endian numbers that fit are told apart by their octets. -/
theorem bigEndian_injective {k m n : Nat} (hm : m < 256 ^ k) (hn : n < 256 ^ k)
    (h : bigEndian k m = bigEndian k n) : m = n := by
  rw [← ofBigEndian_bigEndian hm, ← ofBigEndian_bigEndian hn, h]

/-- Cut a list into consecutive pieces of `p` items, the last one shorter. The
number bounds how many pieces are cut. -/
def piecesAux {α : Type*} (p : Nat) : Nat → List α → List (List α)
  | 0, _ => []
  | _ + 1, [] => []
  | n + 1, x :: xs => (x :: xs).take p :: piecesAux p n ((x :: xs).drop p)

/-- The consecutive pieces of `p` items of a list, the last one shorter. -/
def pieces {α : Type*} (p : Nat) (l : List α) : List (List α) := piecesAux p l.length l

/-!
## Cutting a list into pieces

What `pieces` gives for lists that are put together from full pieces and a rest.
-/

section Pieces

variable {α : Type*} {p : Nat}

theorem piecesAux_fuel (hp : 0 < p) {n m : Nat} {l : List α} (hn : l.length ≤ n)
    (hm : l.length ≤ m) : piecesAux p n l = piecesAux p m l := by
  induction n generalizing m l with
  | zero =>
    have hnil : l = [] := List.length_eq_zero_iff.mp (Nat.le_zero.mp hn)
    subst hnil
    cases m <;> rfl
  | succ n ih =>
    cases l with
    | nil => cases m <;> rfl
    | cons x l =>
      cases m with
      | zero => simp at hm
      | succ m =>
        rw [piecesAux, piecesAux]
        congr 1
        apply ih
        · rw [List.length_drop]
          omega
        · rw [List.length_drop]
          omega

@[simp] theorem pieces_nil : pieces p ([] : List α) = [] := rfl

/-- A full piece in front is the first piece. -/
theorem pieces_append (hp : 0 < p) {piece : List α} (hpiece : piece.length = p) (l : List α) :
    pieces p (piece ++ l) = piece :: pieces p l := by
  cases piece with
  | nil => exact absurd hpiece (by simp; omega)
  | cons x piece =>
    have hlen : ((x :: piece) ++ l).length = (piece ++ l).length + 1 := rfl
    rw [pieces, hlen, List.cons_append, piecesAux, ← List.cons_append, List.take_left' hpiece,
      List.drop_left' hpiece]
    congr 1
    exact piecesAux_fuel hp (by simp) le_rfl

/-- What is not longer than a piece is one piece. -/
theorem pieces_of_length_le {l : List α} (hl : l ≠ []) (hle : l.length ≤ p) :
    pieces p l = [l] := by
  cases l with
  | nil => exact absurd rfl hl
  | cons x l =>
    rw [pieces, List.length_cons, piecesAux, List.take_of_length_le hle,
      List.drop_eq_nil_of_le hle]
    cases l <;> rfl

/-- The first piece is what stands in front. -/
theorem pieces_of_ne_nil (hp : 0 < p) {l : List α} (hl : l ≠ []) :
    pieces p l = l.take p :: pieces p (l.drop p) := by
  by_cases hle : l.length ≤ p
  · rw [pieces_of_length_le hl hle, List.take_of_length_le hle, List.drop_eq_nil_of_le hle,
      pieces_nil]
  · have htake : (l.take p).length = p := by
      rw [List.length_take]
      omega
    have happend := pieces_append hp htake (l.drop p)
    rwa [List.take_append_drop] at happend

/-- The pieces one by one. -/
theorem getElem?_pieces (hp : 0 < p) (l : List α) (j : Nat) :
    (pieces p l)[j]? = if j * p < l.length then some ((l.drop (j * p)).take p) else none := by
  induction j generalizing l with
  | zero =>
    by_cases hl : l = []
    · rw [hl, pieces_nil, Nat.zero_mul]
      rfl
    · rw [pieces_of_ne_nil hp hl, Nat.zero_mul, if_pos (List.length_pos_of_ne_nil hl),
        List.drop_zero, List.getElem?_cons_zero]
  | succ j ih =>
    by_cases hl : l = []
    · rw [hl, pieces_nil, List.length_nil, if_neg (Nat.not_lt_zero _)]
      rfl
    · rw [pieces_of_ne_nil hp hl, List.getElem?_cons_succ, ih, List.length_drop, List.drop_drop,
        Nat.add_mul, Nat.one_mul, Nat.add_comm p]
      refine if_congr ?_ rfl rfl
      omega

/-- The first pieces together are the items in front. -/
theorem flatten_take_pieces (hp : 0 < p) (l : List α) (n : Nat) :
    ((pieces p l).take n).flatten = l.take (n * p) := by
  induction n generalizing l with
  | zero => rw [List.take_zero, Nat.zero_mul, List.take_zero, List.flatten_nil]
  | succ n ih =>
    by_cases hl : l = []
    · rw [hl, pieces_nil, List.take_nil, List.take_nil, List.flatten_nil]
    · rw [pieces_of_ne_nil hp hl, List.take_succ_cons, List.flatten_cons, ih, Nat.succ_mul,
        Nat.add_comm (n * p), List.take_add]

theorem pieces_flatten_append (hp : 0 < p) {full : List (List α)}
    (hfull : ∀ piece ∈ full, piece.length = p) (l : List α) :
    pieces p (full.flatten ++ l) = full ++ pieces p l := by
  induction full with
  | nil => rfl
  | cons piece full ih =>
    have ih' := ih fun piece hp => hfull piece (List.mem_cons_of_mem _ hp)
    rw [List.flatten_cons, List.append_assoc, pieces_append hp (hfull piece List.mem_cons_self),
      ih', List.cons_append]

theorem flatten_piecesAux (hp : 0 < p) {n : Nat} {l : List α} (hl : l.length ≤ n) :
    (piecesAux p n l).flatten = l := by
  induction n generalizing l with
  | zero =>
    rw [List.length_eq_zero_iff.mp (Nat.le_zero.mp hl)]
    rfl
  | succ n ih =>
    cases l with
    | nil => rfl
    | cons x l =>
      have hdrop : ((x :: l).drop p).length ≤ n := by
        rw [List.length_drop]
        simp only [List.length_cons] at hl ⊢
        omega
      rw [piecesAux, List.flatten_cons, ih hdrop, List.take_append_drop]

/-- Nothing is lost by cutting. -/
theorem flatten_pieces (hp : 0 < p) (l : List α) : (pieces p l).flatten = l :=
  flatten_piecesAux hp le_rfl

theorem length_piecesAux {n : Nat} {l : List α} (hl : l.length ≤ n) (hp : 0 < p) :
    (piecesAux p n l).length = (l.length + p - 1) / p := by
  induction n generalizing l with
  | zero =>
    rw [List.length_eq_zero_iff.mp (Nat.le_zero.mp hl), List.length_nil, Nat.zero_add,
      Nat.div_eq_of_lt (Nat.sub_lt hp Nat.one_pos)]
    rfl
  | succ n ih =>
    cases l with
    | nil =>
      rw [List.length_nil, Nat.zero_add, Nat.div_eq_of_lt (Nat.sub_lt hp Nat.one_pos)]
      rfl
    | cons x l =>
      have hdrop : ((x :: l).drop p).length ≤ n := by
        rw [List.length_drop]
        simp only [List.length_cons] at hl ⊢
        omega
      rw [piecesAux, List.length_cons, ih hdrop, List.length_drop]
      by_cases hle : p ≤ (x :: l).length
      · have hsplit : (x :: l).length + p - 1 = (x :: l).length - p + p - 1 + p := by omega
        rw [hsplit, Nat.add_div_right _ hp]
      · have hzero : (x :: l).length - p = 0 := by omega
        have hone : (x :: l).length + p - 1 = (x :: l).length - 1 + p := by
          simp only [List.length_cons]
          omega
        rw [hzero, hone, Nat.zero_add, Nat.add_div_right _ hp,
          Nat.div_eq_of_lt (Nat.sub_lt hp Nat.one_pos), Nat.div_eq_of_lt (by omega)]

/-- The number of pieces is the length divided by `p`, rounded up. -/
theorem length_pieces (hp : 0 < p) (l : List α) :
    (pieces p l).length = (l.length + p - 1) / p :=
  length_piecesAux le_rfl hp

theorem length_of_mem_piecesAux {n : Nat} {l x : List α} (hl : l.length ≤ n) (hp : 0 < p)
    (hd : p ∣ l.length) (hx : x ∈ piecesAux p n l) : x.length = p := by
  induction n generalizing l with
  | zero => exact absurd hx List.not_mem_nil
  | succ n ih =>
    cases l with
    | nil => exact absurd hx List.not_mem_nil
    | cons b l =>
      have hle : p ≤ (b :: l).length := Nat.le_of_dvd (Nat.succ_pos _) hd
      rw [piecesAux] at hx
      obtain rfl | hx := List.mem_cons.mp hx
      · exact List.length_take_of_le hle
      · apply ih _ _ hx
        · rw [List.length_drop]
          omega
        · rw [List.length_drop]
          exact Nat.dvd_sub hd (Nat.dvd_refl p)

/-- All pieces of a list of a multiple of `p` items are full. -/
theorem length_of_mem_pieces {l x : List α} (hp : 0 < p) (hd : p ∣ l.length)
    (hx : x ∈ pieces p l) : x.length = p :=
  length_of_mem_piecesAux le_rfl hp hd hx

end Pieces

/-! ### `struct` -/

section Struct

/-- `struct.pack("!H", w)` -/
def packH (w : UInt16) : Bytes := bigEndian 2 w.toNat

/-- `struct.unpack("!H", data)` -/
def unpackH (data : Bytes) : UInt16 := UInt16.ofNat (ofBigEndian data)

/-- `struct.pack("!I", w)` -/
def packI (w : UInt32) : Bytes := bigEndian 4 w.toNat

/-- `struct.unpack("!I", data)` -/
def unpackI (data : Bytes) : UInt32 := UInt32.ofNat (ofBigEndian data)

@[simp] theorem packH_length (w : UInt16) : (packH w).length = 2 := bigEndian_length 2 _

@[simp] theorem packI_length (w : UInt32) : (packI w).length = 4 := bigEndian_length 4 _

@[simp] theorem unpackH_packH (w : UInt16) : unpackH (packH w) = w := by
  have hw : w.toNat < 256 ^ 2 := w.toNat_lt
  rw [unpackH, packH, ofBigEndian_bigEndian hw, UInt16.ofNat_toNat]

@[simp] theorem unpackI_packI (w : UInt32) : unpackI (packI w) = w := by
  have hw : w.toNat < 256 ^ 4 := w.toNat_lt
  rw [unpackI, packI, ofBigEndian_bigEndian hw, UInt32.ofNat_toNat]

theorem packI_unpackI {data : Bytes} (h : data.length = 4) : packI (unpackI data) = data := by
  have hlt : ofBigEndian data < 2 ^ 32 := by
    have := ofBigEndian_lt data
    rwa [h] at this
  rw [packI, unpackI, UInt32.toNat_ofNat', Nat.mod_eq_of_lt hlt, ← h, bigEndian_ofBigEndian]


/-- `n.to_bytes(k, "little")` for a value that fits. -/
def littleEndian (k n : Nat) : Bytes := (bigEndian k n).reverse

/-- `int.from_bytes(data, "little")`. -/
def ofLittleEndian (data : Bytes) : Nat := ofBigEndian data.reverse

@[simp] theorem littleEndian_length (k n : Nat) : (littleEndian k n).length = k := by
  rw [littleEndian, List.length_reverse, bigEndian_length]

theorem ofLittleEndian_littleEndian {k n : Nat} (h : n < 256 ^ k) :
    ofLittleEndian (littleEndian k n) = n := by
  rw [ofLittleEndian, littleEndian, List.reverse_reverse, ofBigEndian_bigEndian h]

theorem ofLittleEndian_lt (data : Bytes) : ofLittleEndian data < 256 ^ data.length := by
  have hlt := ofBigEndian_lt data.reverse
  rwa [List.length_reverse] at hlt

@[simp] theorem littleEndian_ofLittleEndian (data : Bytes) :
    littleEndian data.length (ofLittleEndian data) = data := by
  have heq := bigEndian_ofBigEndian data.reverse
  rw [List.length_reverse] at heq
  rw [littleEndian, ofLittleEndian, heq, List.reverse_reverse]

end Struct

end Python
