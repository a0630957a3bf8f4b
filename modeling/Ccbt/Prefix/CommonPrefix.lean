import Mathlib.Data.List.Infix
import Mathlib.Data.Nat.Bitwise
import Mathlib.Data.Nat.Size
import Mathlib.Tactic.Ring

/-!
# Common prefixes

How many leading items two lists share. On bit strings of one length this measures nearness:
the longer the common prefix, the lower the highest bit in which the numbers they write
differ. When the items of two lists are replaced by blocks that are told apart by their first
items, one concatenation begins the other exactly if the items with a block do.
-/

namespace Prefix

section CommonPrefix

variable {α : Type*} [DecidableEq α]

/-- The number of leading items that two lists share. -/
def commonPrefix : List α → List α → Nat
  | a :: l, b :: m => if a = b then commonPrefix l m + 1 else 0
  | _, _ => 0

theorem commonPrefix_cons_self (a : α) (l m : List α) :
    commonPrefix (a :: l) (a :: m) = commonPrefix l m + 1 := by
  rw [commonPrefix, if_pos rfl]

theorem commonPrefix_cons_ne {a b : α} (h : a ≠ b) (l m : List α) :
    commonPrefix (a :: l) (b :: m) = 0 := by
  rw [commonPrefix, if_neg h]

@[simp] theorem commonPrefix_self (l : List α) : commonPrefix l l = l.length := by
  induction l with
  | nil => rfl
  | cons a l ih => rw [commonPrefix_cons_self, ih, List.length_cons]

theorem commonPrefix_le (l m : List α) : commonPrefix l m ≤ l.length := by
  induction l generalizing m with
  | nil => simp [commonPrefix]
  | cons a l ih =>
    cases m with
    | nil => simp [commonPrefix]
    | cons b m =>
      rw [commonPrefix, List.length_cons]
      have := ih m
      split <;> omega

/-- Two lists of one length that share all their items are the same. -/
theorem eq_of_commonPrefix_eq_length {l m : List α} (hlen : l.length = m.length)
    (h : commonPrefix l m = l.length) : l = m := by
  induction l generalizing m with
  | nil => exact (List.eq_nil_of_length_eq_zero hlen.symm).symm
  | cons a l ih =>
    cases m with
    | nil => simp at hlen
    | cons b m =>
      simp only [List.length_cons, Nat.add_right_cancel_iff] at hlen h
      by_cases hab : a = b
      · subst hab
        rw [commonPrefix_cons_self, Nat.add_right_cancel_iff] at h
        rw [ih hlen h]
      · rw [commonPrefix_cons_ne hab] at h
        omega

/-- The common prefix goes on behind a first part only if the first parts are the same. -/
theorem commonPrefix_append {l₁ m₁ : List α} (hlen : l₁.length = m₁.length) (l₂ m₂ : List α) :
    commonPrefix (l₁ ++ l₂) (m₁ ++ m₂) =
      if l₁ = m₁ then l₁.length + commonPrefix l₂ m₂ else commonPrefix l₁ m₁ := by
  induction l₁ generalizing m₁ with
  | nil =>
    have hm : m₁ = [] := List.eq_nil_of_length_eq_zero hlen.symm
    simp [hm]
  | cons a l ih =>
    cases m₁ with
    | nil => simp at hlen
    | cons b m =>
      rw [List.length_cons, List.length_cons, Nat.add_right_cancel_iff] at hlen
      by_cases hab : a = b
      · subst hab
        rw [List.cons_append, List.cons_append, commonPrefix_cons_self, commonPrefix_cons_self,
          ih hlen, List.length_cons]
        by_cases hlm : l = m
        · rw [if_pos hlm, if_pos (congrArg _ hlm)]
          omega
        · rw [if_neg hlm, if_neg fun h => hlm (List.cons.inj h).2]
      · rw [List.cons_append, List.cons_append, commonPrefix_cons_ne hab,
          if_neg fun h => hab (List.cons.inj h).1, commonPrefix_cons_ne hab]

end CommonPrefix

section Bits

/-- Two bit strings that leave a third one at its last position are the same. -/
theorem eq_of_commonPrefix_last {l m t : List Bool} {n : Nat} (hl : l.length = n + 1)
    (hm : m.length = n + 1) (ht : t.length = n + 1) (hlt : commonPrefix l t = n)
    (hmt : commonPrefix m t = n) : l = m := by
  induction n generalizing l m t with
  | zero =>
    obtain ⟨a, rfl⟩ := List.length_eq_one_iff.mp hl
    obtain ⟨b, rfl⟩ := List.length_eq_one_iff.mp hm
    obtain ⟨c, rfl⟩ := List.length_eq_one_iff.mp ht
    -- both differ from the third bit, and there are only two
    revert hlt hmt
    cases a <;> cases b <;> cases c <;> simp [commonPrefix]
  | succ n ih =>
    obtain ⟨a, l, rfl⟩ := List.exists_cons_of_length_eq_add_one hl
    obtain ⟨b, m, rfl⟩ := List.exists_cons_of_length_eq_add_one hm
    obtain ⟨c, t, rfl⟩ := List.exists_cons_of_length_eq_add_one ht
    have hac : a = c := by
      by_contra hne
      rw [commonPrefix_cons_ne hne] at hlt
      omega
    have hbc : b = c := by
      by_contra hne
      rw [commonPrefix_cons_ne hne] at hmt
      omega
    subst hac hbc
    rw [commonPrefix_cons_self, Nat.add_right_cancel_iff] at hlt hmt
    rw [ih (by simpa using hl) (by simpa using hm) (by simpa using ht) hlt hmt]

/-- The number that a bit string writes, its most significant bit first. -/
def ofBits : List Bool → Nat
  | [] => 0
  | b :: l => 2 ^ l.length * b.toNat + ofBits l

theorem ofBits_lt (l : List Bool) : ofBits l < 2 ^ l.length := by
  induction l with
  | nil => simp [ofBits]
  | cons b l ih =>
    rw [ofBits, List.length_cons, Nat.pow_succ]
    cases b <;> simp only [Bool.toNat_true, Bool.toNat_false] <;> omega

theorem ofBits_append (l m : List Bool) :
    ofBits (l ++ m) = 2 ^ m.length * ofBits l + ofBits m := by
  induction l with
  | nil => simp [ofBits]
  | cons b l ih =>
    rw [List.cons_append, ofBits, ofBits, ih, List.length_append, Nat.pow_add]
    ring

/-- Exclusive or of two numbers goes on separately above and below a bit. -/
theorem two_pow_mul_add_xor (a b : Nat) {n x y : Nat} (hx : x < 2 ^ n) (hy : y < 2 ^ n) :
    (2 ^ n * a + x) ^^^ (2 ^ n * b + y) = 2 ^ n * (a ^^^ b) + (x ^^^ y) := by
  refine Nat.eq_of_testBit_eq fun i => ?_
  rw [Nat.testBit_xor, Nat.testBit_two_pow_mul_add a hx, Nat.testBit_two_pow_mul_add b hy,
    Nat.testBit_two_pow_mul_add _ (Nat.xor_lt_two_pow hx hy)]
  by_cases hi : i < n
  · simp only [if_pos hi, Nat.testBit_xor]
  · simp only [if_neg hi, Nat.testBit_xor]

/-- The position of the highest bit in which two numbers of one width differ is what their
common prefix leaves of the width. -/
theorem size_xor_ofBits {l m : List Bool} (hlen : l.length = m.length) :
    Nat.size (ofBits l ^^^ ofBits m) = l.length - commonPrefix l m := by
  induction l generalizing m with
  | nil =>
    have hm : m = [] := List.eq_nil_of_length_eq_zero hlen.symm
    simp [hm, ofBits]
  | cons a l ih =>
    cases m with
    | nil => simp at hlen
    | cons b m =>
      rw [List.length_cons, List.length_cons, Nat.add_right_cancel_iff] at hlen
      have hl : ofBits l < 2 ^ l.length := ofBits_lt l
      have hm : ofBits m < 2 ^ l.length := hlen ▸ ofBits_lt m
      have hxor : ofBits l ^^^ ofBits m < 2 ^ l.length := Nat.xor_lt_two_pow hl hm
      have hvalue : ofBits (a :: l) ^^^ ofBits (b :: m) =
          2 ^ l.length * (a.toNat ^^^ b.toNat) + (ofBits l ^^^ ofBits m) := by
        rw [ofBits, ofBits, ← hlen, two_pow_mul_add_xor _ _ hl hm]
      rw [hvalue, List.length_cons]
      by_cases hab : a = b
      · rw [hab, Nat.xor_self, Nat.mul_zero, Nat.zero_add, ih hlen, commonPrefix_cons_self]
        omega
      · have hone : a.toNat ^^^ b.toNat = 1 := by
          revert hab
          cases a <;> cases b <;> decide
        rw [commonPrefix_cons_ne hab, hone, Nat.mul_one, Nat.sub_zero]
        apply le_antisymm
        · rw [Nat.size_le, Nat.pow_succ]
          omega
        · rw [Nat.add_one_le_iff, Nat.lt_size]
          omega

end Bits

/-! ### Lists that are put together from blocks -/

section Blocks

variable {α β : Type*}

variable (β) in
/-- A list begins another if it does so under every map to a type with two values. -/
theorem map_prefix_map_iff [Nontrivial β] {l m : List α} :
    (∀ g : α → β, l.map g <+: m.map g) ↔ l <+: m := by
  constructor
  · intro h
    induction l generalizing m with
    | nil => exact List.nil_prefix
    | cons a l ih =>
      cases m with
      | nil =>
        obtain ⟨x, -, -⟩ := exists_pair_ne β
        exact absurd (h fun _ => x) (by simp)
      | cons b m =>
        have hcons (g : α → β) : g a = g b ∧ l.map g <+: m.map g := List.cons_prefix_cons.mp (h g)
        refine List.cons_prefix_cons.mpr ⟨?_, ih fun g => (hcons g).2⟩
        -- two items that differ are told apart by the map that marks the first
        by_contra hab
        classical
        obtain ⟨x, y, hxy⟩ := exists_pair_ne β
        have hmark := (hcons fun c => if c = a then x else y).1
        rw [if_pos rfl, if_neg (Ne.symm hab)] at hmark
        exact hxy hmark
  · intro h g
    exact h.map g

theorem flatMap_filter_isEmpty (f : α → List β) (l : List α) :
    (l.filter fun a => !(f a).isEmpty).flatMap f = l.flatMap f := by
  induction l with
  | nil => rfl
  | cons a l ih =>
    cases hf : f a with
    | nil =>
      rw [List.filter_cons_of_neg (by simp [hf]), ih, List.flatMap_cons, hf]
      rfl
    | cons b bs =>
      rw [List.filter_cons_of_pos (by simp [hf]), List.flatMap_cons, List.flatMap_cons, ih]

/-- Concatenations of blocks that are not empty. -/
theorem flatMap_prefix_flatMap_of_ne_nil {f : α → List β}
    (hinj : ∀ a b x, (f a).head? = some x → (f b).head? = some x → a = b) {l m : List α}
    (hl : ∀ a ∈ l, f a ≠ []) (hm : ∀ a ∈ m, f a ≠ []) :
    l.flatMap f <+: m.flatMap f ↔ l <+: m := by
  constructor
  · intro h
    induction l generalizing m with
    | nil => exact List.nil_prefix
    | cons a l ih =>
      obtain ⟨x, xs, hx⟩ := List.exists_cons_of_ne_nil (hl a List.mem_cons_self)
      cases m with
      | nil =>
        rw [List.flatMap_cons, hx] at h
        exact absurd h (by simp)
      | cons b m =>
        obtain ⟨y, ys, hy⟩ := List.exists_cons_of_ne_nil (hm b List.mem_cons_self)
        have hxy : x = y := by
          rw [List.flatMap_cons, List.flatMap_cons, hx, hy, List.cons_append, List.cons_append] at h
          exact (List.cons_prefix_cons.mp h).1
        have hab : a = b := hinj a b x (by rw [hx]; rfl) (by rw [hy, hxy]; rfl)
        subst hab
        rw [List.flatMap_cons, List.flatMap_cons, List.prefix_append_right_inj] at h
        refine List.cons_prefix_cons.mpr ⟨rfl, ih ?_ ?_ h⟩
        · exact fun c hc => hl c (List.mem_cons_of_mem _ hc)
        · exact fun c hc => hm c (List.mem_cons_of_mem _ hc)
  · intro h
    exact h.flatMap f

/-- Items without a block do not count. -/
theorem flatMap_prefix_flatMap_iff {f : α → List β}
    (hinj : ∀ a b x, (f a).head? = some x → (f b).head? = some x → a = b) (l m : List α) :
    l.flatMap f <+: m.flatMap f ↔
      (l.filter fun a => !(f a).isEmpty) <+: m.filter fun a => !(f a).isEmpty := by
  rw [← flatMap_filter_isEmpty f l, ← flatMap_filter_isEmpty f m]
  refine flatMap_prefix_flatMap_of_ne_nil hinj ?_ ?_
  · intro a ha
    simpa using (List.mem_filter.mp ha).2
  · intro a ha
    simpa using (List.mem_filter.mp ha).2

/-- A list begins another exactly if each of its items stands there at its position. -/
theorem prefix_iff_forall_getElem? {l m : List α} :
    l <+: m ↔ ∀ (i : Nat) (a : α), l[i]? = some a → m[i]? = some a := by
  rw [List.prefix_iff_getElem?]
  constructor
  · intro h i a ha
    obtain ⟨hi, rfl⟩ := List.getElem?_eq_some_iff.mp ha
    exact h i hi
  · intro h i hi
    exact h i _ (List.getElem?_eq_getElem hi)

/-- The same, where items may be missing behind the end of the second list. -/
theorem prefix_append_replicate_iff {l : List (Option α)} {m : List α} :
    l <+: m.map some ++ List.replicate l.length none ↔
      ∀ (i : Nat) (o : Option α), l[i]? = some o → m[i]? = o := by
  rw [prefix_iff_forall_getElem?]
  refine forall_congr' fun i => forall_congr' fun o => imp_congr_right fun ho => ?_
  have hi := (List.getElem?_eq_some_iff.mp ho).1
  have hpadded : (m.map some ++ List.replicate l.length none)[i]? = some m[i]? := by
    by_cases him : i < m.length
    · rw [List.getElem?_append_left (by simpa using him), List.getElem?_map,
        List.getElem?_eq_getElem him, Option.map_some]
    · have hrest : i - (m.map some).length < l.length := by omega
      rw [List.getElem?_append_right (by simpa using him), List.getElem?_replicate, if_pos hrest,
        List.getElem?_eq_none (by simpa using him)]
  rw [hpadded, Option.some.injEq]

/-- Nothing is missing. -/
theorem map_some_prefix_iff {l m : List α} :
    l.map some <+: m.map some ++ List.replicate (l.map some).length none ↔ l <+: m := by
  rw [prefix_append_replicate_iff, prefix_iff_forall_getElem?]
  constructor
  · intro h i a ha
    exact h i (some a) (by rw [List.getElem?_map, ha, Option.map_some])
  · intro h i o ho
    rw [List.getElem?_map, Option.map_eq_some_iff] at ho
    obtain ⟨a, ha, rfl⟩ := ho
    exact h i a ha

end Blocks

end Prefix
