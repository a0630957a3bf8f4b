import Ccbt.Hash.MerkleTree
import Ccbt.Python.Hashlib

/-!
# Piece layers: `piece/hash_v2.py`

The Merkle root of a piece layer and what it binds. An odd level duplicates its
last node, so a list and the list that spells this duplication out share their
root: the root determines the list for a given length only.
-/

namespace Ccbt

open Python MerkleTree

namespace HashV2

abbrev ValueError := String

def combine (left right : Bytes) : Bytes := sha256 (left ++ right)

/-- `_calculate_merkle_root`; the list of no hashes has no first item at the end. -/
def calculateMerkleRoot (hashes : List Bytes) : Option Bytes := root combine hashes

/-- The position and length of the first hash that is not 32 octets long. -/
def firstBadHash : Nat → List Bytes → Option (Nat × Nat)
  | _, [] => none
  | i, h :: hs => if h.length ≠ 32 then some (i, h.length) else firstBadHash (i + 1) hs

def hashPieceLayer (pieceHashes : List Bytes) : Except ValueError Bytes :=
  if pieceHashes.isEmpty then .error "Cannot hash empty piece layer"
  else
    match firstBadHash 0 pieceHashes with
    | some (i, n) => .error ("Piece hash " ++ toString i ++ " must be 32 bytes (SHA-256), got " ++
        toString n)
    | none =>
      match pieceHashes with
      | [h] => .ok h
      | _ =>
        match calculateMerkleRoot pieceHashes with
        | some r => .ok r
        | none => .error "list index out of range"

def verifyPieceLayer (pieceHashes : List Bytes) (expectedRoot : Bytes) : Except ValueError Bool :=
  if expectedRoot.length ≠ 32 then
    .error ("Expected root must be 32 bytes (SHA-256), got " ++ toString expectedRoot.length ++
      " bytes")
  else do
    let actualRoot ← hashPieceLayer pieceHashes
    return actualRoot == expectedRoot

theorem firstBadHash_eq_none {i : Nat} {hs : List Bytes} :
    firstBadHash i hs = none ↔ ∀ h ∈ hs, h.length = 32 := by
  induction hs generalizing i with
  | nil => simp [firstBadHash]
  | cons h hs ih =>
    rw [firstBadHash, List.forall_mem_cons]
    by_cases hh : h.length = 32
    · rw [if_neg (by simp [hh]), ih]
      simp [hh]
    · rw [if_pos hh]
      simp [hh]

/-- A layer is accepted if it has a hash and all hashes have 32 octets, and its
root is that of the tree over it. -/
theorem hashPieceLayer_eq_ok {hs : List Bytes} {r : Bytes} :
    hashPieceLayer hs = .ok r ↔ (∀ h ∈ hs, h.length = 32) ∧ root combine hs = some r := by
  unfold hashPieceLayer
  cases hs with
  | nil => simp [root, climb]
  | cons h hs =>
    rw [if_neg (by simp)]
    cases hbad : firstBadHash 0 (h :: hs) with
    | some p =>
      have hnot : ¬∀ x ∈ h :: hs, x.length = 32 := by
        intro hall
        rw [firstBadHash_eq_none.mpr hall] at hbad
        cases hbad
      constructor
      · intro herror
        cases herror
      · exact fun hr => absurd hr.1 hnot
    | none =>
      have hall := firstBadHash_eq_none.mp hbad
      obtain ⟨top, htop, -⟩ := root_isSome combine (List.cons_ne_nil h hs)
      have hcalculate : calculateMerkleRoot (h :: hs) = some top := htop
      rw [htop]
      cases hs with
      | nil =>
        rw [root_singleton] at htop
        cases htop
        simp only [Except.ok.injEq, Option.some.injEq]
        exact ⟨fun heq => ⟨hall, heq⟩, And.right⟩
      | cons h' hs =>
        simp only [hcalculate, Except.ok.injEq, Option.some.injEq]
        exact ⟨fun heq => ⟨hall, heq⟩, And.right⟩

def hashedInputs (hs : List Bytes) : List Bytes :=
  (combined combine hs.length hs).map (fun p => p.1 ++ p.2)

/-- The bottom row of the tree over a layer: the layer, followed by what the
duplication of last nodes adds. -/
def paddedRow (hs : List Bytes) : List Bytes := (root (· ++ ·) (hs.map ([·]))).getD []

/-- A collision among what is hashed for two layers: two different inputs of 64
octets with one digest, or a hash of one layer that is the digest of an input of
the other. -/
inductive LayerCollision (xs ys : List Bytes) : Prop
  | inputs (a b : Bytes) (ha : a ∈ hashedInputs xs) (hb : b ∈ hashedInputs ys)
      (hlen : a.length = 64 ∧ b.length = 64) (hne : a ≠ b) (h : sha256 a = sha256 b)
  | leafLeft (x b : Bytes) (hx : x ∈ xs) (hb : b ∈ hashedInputs ys) (h : x = sha256 b)
  | leafRight (a y : Bytes) (ha : a ∈ hashedInputs xs) (hy : y ∈ ys) (h : sha256 a = y)

section Binding

/-- The tree over the hashes of a layer, with nothing computed. -/
def layerTree (hs : List Bytes) : Option (HashTree Bytes) := treeOver (hs.map HashTree.leaf)

theorem root_eq_layerTree (hs : List Bytes) :
    root combine hs = (layerTree hs).map (HashTree.eval id combine) := by
  rw [layerTree, ← root_eq_eval, List.map_map]
  exact congrArg _ (List.map_id hs).symm

theorem paddedRow_eq_leaves {hs : List Bytes} {t : HashTree Bytes} (h : layerTree hs = some t) :
    paddedRow hs = t.leaves := by
  have hleaves : ∀ s : HashTree Bytes, s.eval ([·]) (· ++ ·) = s.leaves := by
    intro s
    induction s with
    | leaf a => rfl
    | node l r ihl ihr => rw [HashTree.eval, ihl, ihr, HashTree.leaves]
  have hrow := root_eq_eval ([·]) (· ++ ·) (hs.map HashTree.leaf)
  rw [List.map_map] at hrow
  rw [paddedRow,
    show hs.map ([·]) = hs.map (HashTree.eval ([·]) (· ++ ·) ∘ HashTree.leaf) from rfl, hrow,
    show treeOver (hs.map HashTree.leaf) = some t from h, Option.map_some, Option.getD_some,
    hleaves]

theorem prefix_paddedRow {hs : List Bytes} {t : HashTree Bytes} (h : layerTree hs = some t) :
    hs <+: paddedRow hs := by
  rw [paddedRow_eq_leaves h]
  have hleaves := leaves_isPrefix h
  rwa [List.flatMap_map, show (fun a : Bytes => (HashTree.leaf a).leaves) = ([·]) from rfl,
    List.flatMap_singleton'] at hleaves

theorem layerTree_mem_climb {hs : List Bytes} {t : HashTree Bytes} (h : layerTree hs = some t) :
    t ∈ climb HashTree.node hs.length (hs.map HashTree.leaf) := by
  have hhead : (climb HashTree.node hs.length (hs.map HashTree.leaf)).head? = some t := by
    rwa [layerTree, treeOver, root, List.length_map] at h
  exact List.mem_of_head? hhead

theorem mem_of_mem_leaves {hs : List Bytes} {t : HashTree Bytes} (h : layerTree hs = some t)
    {a : Bytes}
    (ha : a ∈ t.leaves) : a ∈ hs := by
  obtain ⟨s, hs, has⟩ := mem_leaves_climb (layerTree_mem_climb h) ha
  obtain ⟨x, hx, rfl⟩ := List.mem_map.mp hs
  obtain rfl := List.mem_singleton.mp has
  exact hx

theorem mem_hashedInputs {hs : List Bytes} {t : HashTree Bytes} (h : layerTree hs = some t)
    {p : Bytes × Bytes} (hp : p ∈ t.hashed id combine) : p.1 ++ p.2 ∈ hashedInputs hs := by
  obtain ⟨q, hq, rfl⟩ := List.mem_map.mp hp
  rcases inner_climb (layerTree_mem_climb h) hq with ⟨s, hs, hqs⟩ | hcombined
  · obtain ⟨x, -, rfl⟩ := List.mem_map.mp hs
    cases hqs
  · have hmap := combined_map (c := HashTree.node) (d := combine) (f := HashTree.eval id combine)
      (fun _ _ => rfl) hs.length (hs.map HashTree.leaf)
    have hid : (hs.map HashTree.leaf).map (HashTree.eval id combine) = hs := by
      rw [List.map_map]
      exact List.map_id hs
    rw [hid] at hmap
    rw [hashedInputs, hmap]
    exact List.mem_map.mpr ⟨_, List.mem_map.mpr ⟨q, hcombined, rfl⟩, rfl⟩

/-- Leaves of 32 octets make digests of 32 octets. -/
theorem eval_length {t : HashTree Bytes} (h : ∀ a ∈ t.leaves, a.length = 32) :
    (t.eval id combine).length = 32 := by
  cases t with
  | leaf a => exact h a List.mem_cons_self
  | node l r => exact sha256_length _

theorem hashed_length {t : HashTree Bytes} (h : ∀ a ∈ t.leaves, a.length = 32) {p : Bytes × Bytes}
    (hp : p ∈ t.hashed id combine) : p.1.length = 32 ∧ p.2.length = 32 := by
  induction t with
  | leaf a => cases hp
  | node l r ihl ihr =>
    have hl : ∀ a ∈ l.leaves, a.length = 32 := fun a ha => h a (List.mem_append_left _ ha)
    have hr : ∀ a ∈ r.leaves, a.length = 32 := fun a ha => h a (List.mem_append_right _ ha)
    rw [HashTree.hashed_node] at hp
    rcases List.mem_cons.mp hp with rfl | hp
    · exact ⟨eval_length hl, eval_length hr⟩
    · rcases List.mem_append.mp hp with hp | hp
      · exact ihl hl hp
      · exact ihr hr hp

theorem layerCollision_of_clash {xs ys : List Bytes} {s t : HashTree Bytes}
    (hxs : ∀ x ∈ xs, x.length = 32) (hys : ∀ y ∈ ys, y.length = 32) (hs : layerTree xs = some s)
    (ht : layerTree ys = some t) (h : Clash id combine s t) : LayerCollision xs ys := by
  have hsleaves : ∀ a ∈ s.leaves, a.length = 32 := fun a ha => hxs a (mem_of_mem_leaves hs ha)
  have htleaves : ∀ a ∈ t.leaves, a.length = 32 := fun a ha => hys a (mem_of_mem_leaves ht ha)
  cases h with
  | leaves a b _ _ hne h => exact absurd h hne
  | nodes p q hp hq hne h =>
    obtain ⟨hp₁, hp₂⟩ := hashed_length hsleaves hp
    obtain ⟨hq₁, hq₂⟩ := hashed_length htleaves hq
    refine .inputs _ _ (mem_hashedInputs hs hp) (mem_hashedInputs ht hq) ?_ ?_ h
    · simp [hp₁, hp₂, hq₁, hq₂]
    · intro heq
      obtain ⟨h₁, h₂⟩ := List.append_inj heq (by rw [hp₁, hq₁])
      exact hne (Prod.ext h₁ h₂)
  | leafNode a q ha hq h =>
    exact .leafLeft a _ (mem_of_mem_leaves hs ha) (mem_hashedInputs ht hq) h
  | nodeLeaf p b hp hb h =>
    exact .leafRight _ b (mem_hashedInputs hs hp) (mem_of_mem_leaves ht hb) h

/-- Two accepted layers with one root have the same bottom row, and so are equal
if they have the same length, or show a collision. -/
theorem hashPieceLayer_binding {xs ys : List Bytes} {r : Bytes} (hx : hashPieceLayer xs = .ok r)
    (hy : hashPieceLayer ys = .ok r) :
    (paddedRow xs = paddedRow ys ∧ (xs.length = ys.length → xs = ys)) ∨ LayerCollision xs ys := by
  obtain ⟨hxs, hxroot⟩ := hashPieceLayer_eq_ok.mp hx
  obtain ⟨hys, hyroot⟩ := hashPieceLayer_eq_ok.mp hy
  rw [root_eq_layerTree] at hxroot hyroot
  obtain ⟨s, hs, hsr⟩ := Option.map_eq_some_iff.mp hxroot
  obtain ⟨t, ht, htr⟩ := Option.map_eq_some_iff.mp hyroot
  rcases eq_or_clash (hsr.trans htr.symm) with rfl | hclash
  · have hrow : paddedRow xs = paddedRow ys := by
      rw [paddedRow_eq_leaves hs, paddedRow_eq_leaves ht]
    refine Or.inl ⟨hrow, fun hlen => ?_⟩
    have hxp := prefix_paddedRow hs
    have hyp := prefix_paddedRow ht
    rw [← hrow] at hyp
    exact (List.prefix_of_prefix_length_le hxp hyp hlen.le).eq_of_length hlen
  · exact Or.inr (layerCollision_of_clash hxs hys hs ht hclash)

theorem hashPieceLayer_length {hs : List Bytes} {r : Bytes} (h : hashPieceLayer hs = .ok r) :
    r.length = 32 := by
  obtain ⟨hhs, hroot⟩ := hashPieceLayer_eq_ok.mp h
  rw [root_eq_layerTree] at hroot
  obtain ⟨t, ht, rfl⟩ := Option.map_eq_some_iff.mp hroot
  exact eval_length (fun a ha => hhs a (mem_of_mem_leaves ht ha))

theorem verifyPieceLayer_eq_true {hs : List Bytes} {r : Bytes} :
    verifyPieceLayer hs r = .ok true ↔ hashPieceLayer hs = .ok r := by
  unfold verifyPieceLayer
  constructor
  · intro h
    split at h
    · cases h
    · cases hr : hashPieceLayer hs with
      | error e =>
        rw [hr] at h
        cases h
      | ok actual =>
        rw [hr] at h
        have heq : (actual == r) = true := Except.ok.inj h
        rw [beq_iff_eq.mp heq]
  · intro h
    rw [if_neg (by simp [hashPieceLayer_length h]), h]
    show Except.ok (r == r) = Except.ok true
    rw [beq_self_eq_true]

/-- A root binds its layer up to the spelling out of duplicated nodes, and up to
collisions it is the root of one accepted list of a length. -/
theorem pieceLayer_binding {xs ys : List Bytes} {r : Bytes} (hx : hashPieceLayer xs = .ok r)
    (hy : hashPieceLayer ys = .ok r) :
    ((paddedRow xs = paddedRow ys ∧ (xs.length = ys.length → xs = ys)) ∨ LayerCollision xs ys) ∧
      ∀ zs, verifyPieceLayer zs r = .ok true → zs.length = xs.length →
        zs = xs ∨ LayerCollision zs xs := by
  refine ⟨hashPieceLayer_binding hx hy, ?_⟩
  intro zs hz hlen
  rcases hashPieceLayer_binding (verifyPieceLayer_eq_true.mp hz) hx with ⟨-, heq⟩ | hcollision
  · exact Or.inl (heq hlen)
  · exact Or.inr hcollision

end Binding

def zeroHash : Bytes := List.replicate 32 0

private theorem zeroHash_layers : hashPieceLayer [zeroHash, zeroHash, zeroHash] =
    hashPieceLayer [zeroHash, zeroHash, zeroHash, zeroHash] := by
  decide +kernel

/-- Three hashes and four, the last one twice. -/
theorem pieceLayer_binding_duplicate : ∃ r, hashPieceLayer [zeroHash, zeroHash, zeroHash] = .ok r ∧
    (((paddedRow [zeroHash, zeroHash, zeroHash] =
          paddedRow [zeroHash, zeroHash, zeroHash, zeroHash] ∧ (3 = 4 →
        [zeroHash, zeroHash, zeroHash] = [zeroHash, zeroHash, zeroHash, zeroHash])) ∨
      LayerCollision [zeroHash, zeroHash, zeroHash] [zeroHash, zeroHash, zeroHash, zeroHash]) ∧
      ∀ zs, verifyPieceLayer zs r = .ok true → zs.length = 3 →
        zs = [zeroHash, zeroHash, zeroHash] ∨
          LayerCollision zs [zeroHash, zeroHash, zeroHash]) := by
  obtain ⟨r, hr, -⟩ := root_isSome combine
    (List.cons_ne_nil zeroHash [zeroHash, zeroHash])
  have hlengths : ∀ h ∈ [zeroHash, zeroHash, zeroHash], h.length = 32 := by decide
  have hlayer := hashPieceLayer_eq_ok.mpr ⟨hlengths, hr⟩
  exact ⟨r, hlayer, pieceLayer_binding hlayer (zeroHash_layers.symm.trans hlayer)⟩

/-- Two different layers have one root, and nothing that is hashed for them
collides. -/
theorem pieceLayer_not_binding :
    hashPieceLayer [zeroHash, zeroHash, zeroHash] =
        hashPieceLayer [zeroHash, zeroHash, zeroHash, zeroHash] ∧
      (hashPieceLayer [zeroHash, zeroHash, zeroHash]).isOk = true ∧
      [zeroHash, zeroHash, zeroHash] ≠ [zeroHash, zeroHash, zeroHash, zeroHash] ∧
      ¬LayerCollision [zeroHash, zeroHash, zeroHash]
        [zeroHash, zeroHash, zeroHash, zeroHash] := by
  refine ⟨zeroHash_layers, by decide +kernel, by decide, ?_⟩
  have hinputs : ∀ a ∈ hashedInputs [zeroHash, zeroHash, zeroHash],
      ∀ b ∈ hashedInputs [zeroHash, zeroHash, zeroHash, zeroHash],
      sha256 a = sha256 b → a = b := by
    decide +kernel
  have hleft : ∀ b ∈ hashedInputs [zeroHash, zeroHash, zeroHash, zeroHash],
      zeroHash ≠ sha256 b := by
    decide +kernel
  have hright : ∀ a ∈ hashedInputs [zeroHash, zeroHash, zeroHash], sha256 a ≠ zeroHash := by
    decide +kernel
  rintro (⟨a, b, ha, hb, -, hne, h⟩ | ⟨x, b, hx, hb, h⟩ | ⟨a, y, ha, hy, h⟩)
  · exact hne (hinputs a ha b hb h)
  · have hzero : x = zeroHash := by simpa using hx
    exact hleft b hb (hzero ▸ h)
  · have hzero : y = zeroHash := by simpa using hy
    exact hright a ha (hzero ▸ h)

end HashV2

end Ccbt
