import Ccbt.Piece.HashV2
import Ccbt.Python.Hashlib

/-!
# Xet hashes

`XetHasher` of `ccbt/storage/xet_hashing.py` and what a file's root binds. A chunk may be as long as
two hashes, and a last node without a neighbour is combined with itself: lists of chunks of different
lengths can have one root although nothing collides.
-/

namespace Ccbt.Xet

open Python MerkleTree

abbrev HASH_SIZE : Nat := 32

/-- `compute_chunk_hash`: BLAKE3 where its package is installed, otherwise SHA-256. -/
structure XetHasher where
  computeChunkHash : Bytes → Bytes
  length_hash : ∀ chunk_data, (computeChunkHash chunk_data).length = HASH_SIZE

namespace XetHasher

variable (X : XetHasher)

def combine (left right : Bytes) : Bytes := X.computeChunkHash (left ++ right)

/-- `hashes[0]` behind the loop that builds the levels. -/
def buildUp (hashes : List Bytes) : Bytes := (root X.combine hashes).getD []

def buildMerkleTree (chunks : List Bytes) : Bytes :=
  if chunks = [] then List.replicate HASH_SIZE 0
  else X.buildUp (chunks.map X.computeChunkHash)

def buildMerkleTreeFromHashes (chunk_hashes : List Bytes) : Except String Bytes :=
  if chunk_hashes = [] then .ok (List.replicate HASH_SIZE 0)
  else
    match chunk_hashes.find? fun h => h.length ≠ HASH_SIZE with
    | some h =>
      let n := h.length
      .error s!"Invalid hash size: expected 32, got {n}"
    | none => .ok (X.buildUp chunk_hashes)

def verifyChunkHash (chunk_data expected_hash : Bytes) : Bool :=
  if expected_hash.length ≠ HASH_SIZE then false else X.computeChunkHash chunk_data = expected_hash

/-- The pairs of hashes that are hashed for a list of chunks. -/
def nodes (chunks : List Bytes) : List (Bytes × Bytes) :=
  combined X.combine chunks.length (chunks.map X.computeChunkHash)

def inputs (chunks : List Bytes) : List Bytes := chunks ++ (X.nodes chunks).map fun p => p.1 ++ p.2

/-- Different octets that are hashed for two lists have one hash. -/
def Collision (xs ys : List Bytes) : Prop :=
  ∃ a ∈ X.inputs xs, ∃ b ∈ X.inputs ys, a ≠ b ∧ X.computeChunkHash a = X.computeChunkHash b

/-- A chunk of one list is two hashes of the other, one behind the other. -/
def ChunkIsNode (xs ys : List Bytes) : Prop := ∃ x ∈ xs, ∃ p ∈ X.nodes ys, x = p.1 ++ p.2

section Binding

variable {X} {xs ys chunks : List Bytes} {t : HashTree Bytes}

theorem root_eq_tree (X : XetHasher) (chunks : List Bytes) :
    root X.combine (chunks.map X.computeChunkHash) =
      (HashV2.layerTree chunks).map (HashTree.eval X.computeChunkHash X.combine) := by
  rw [HashV2.layerTree, ← root_eq_eval, List.map_map]
  rfl

theorem exists_tree (hne : chunks ≠ []) : ∃ t, HashV2.layerTree chunks = some t ∧
    X.buildMerkleTree chunks = t.eval X.computeChunkHash X.combine := by
  have hleaves : chunks.map HashTree.leaf ≠ [] := by simpa using hne
  obtain ⟨t, ht, -⟩ := root_isSome HashTree.node hleaves
  refine ⟨t, ht, ?_⟩
  rw [buildMerkleTree, if_neg hne, buildUp, root_eq_tree,
    show HashV2.layerTree chunks = some t from ht]
  rfl

theorem length_eval (t : HashTree Bytes) :
    (t.eval X.computeChunkHash X.combine).length = HASH_SIZE := by
  cases t with
  | leaf a => exact X.length_hash a
  | node l r => exact X.length_hash _

theorem length_hashed {p : Bytes × Bytes} (hp : p ∈ t.hashed X.computeChunkHash X.combine) :
    p.1.length = HASH_SIZE ∧ p.2.length = HASH_SIZE := by
  obtain ⟨q, -, rfl⟩ := List.mem_map.mp hp
  exact ⟨length_eval q.1, length_eval q.2⟩

theorem mem_nodes (ht : HashV2.layerTree chunks = some t) {p : Bytes × Bytes}
    (hp : p ∈ t.hashed X.computeChunkHash X.combine) : p ∈ X.nodes chunks := by
  obtain ⟨q, hq, rfl⟩ := List.mem_map.mp hp
  rcases inner_climb (HashV2.layerTree_mem_climb ht) hq with ⟨s, hs, hqs⟩ | hcombined
  · -- a leaf has no inner nodes
    obtain ⟨x, -, rfl⟩ := List.mem_map.mp hs
    cases hqs
  · have hmap := combined_map (c := HashTree.node) (d := X.combine)
      (f := HashTree.eval X.computeChunkHash X.combine) (fun _ _ => rfl) chunks.length
      (chunks.map HashTree.leaf)
    rw [List.map_map] at hmap
    rw [nodes]
    exact hmap ▸ List.mem_map_of_mem hcombined

theorem append_ne_of_ne {s t : HashTree Bytes} {p q : Bytes × Bytes}
    (hp : p ∈ s.hashed X.computeChunkHash X.combine) (hq : q ∈ t.hashed X.computeChunkHash X.combine)
    (hne : p ≠ q) : p.1 ++ p.2 ≠ q.1 ++ q.2 := by
  intro heq
  have hlength := (length_hashed hp).1.trans (length_hashed hq).1.symm
  obtain ⟨h1, h2⟩ := List.append_inj heq hlength
  exact hne (Prod.ext h1 h2)

theorem mem_inputs_of_node {p : Bytes × Bytes} (hp : p ∈ X.nodes chunks) :
    p.1 ++ p.2 ∈ X.inputs chunks :=
  List.mem_append_right _ (List.mem_map.mpr ⟨p, hp, rfl⟩)

theorem mem_inputs_of_chunk {x : Bytes} (hx : x ∈ chunks) : x ∈ X.inputs chunks :=
  List.mem_append_left _ hx

/-- The trees over lists of one length have one shape. -/
theorem shape_eq {s : HashTree Bytes} (hlength : xs.length = ys.length)
    (hs : HashV2.layerTree xs = some s) (ht : HashV2.layerTree ys = some t) : s.shape = t.shape := by
  have hx := shape_treeOver xs
  have hy := shape_treeOver ys
  rw [show treeOver (xs.map .leaf) = some s from hs, hlength] at hx
  rw [show treeOver (ys.map .leaf) = some t from ht, ← hx] at hy
  exact (Option.some.inj hy).symm

/-- Lists of chunks with one root have the same bottom row, which is the list itself and what the
duplication of last nodes adds, or something that is hashed for them collides, or a chunk of one is
two hashes of the other. Lists of one length are equal, or there is a collision. -/
theorem merkle_tree_binds (X : XetHasher) (xs ys : List Bytes)
    (h : X.buildMerkleTree xs = X.buildMerkleTree ys) (hxs : xs ≠ []) (hys : ys ≠ []) :
    (HashV2.paddedRow xs = HashV2.paddedRow ys ∨ X.Collision xs ys ∨ X.ChunkIsNode xs ys ∨
      X.ChunkIsNode ys xs) ∧ (xs.length = ys.length → xs = ys ∨ X.Collision xs ys) := by
  obtain ⟨s, hs, hsroot⟩ := exists_tree (X := X) hxs
  obtain ⟨t, ht, htroot⟩ := exists_tree (X := X) hys
  have heval : s.eval X.computeChunkHash X.combine = t.eval X.computeChunkHash X.combine :=
    hsroot.symm.trans (h.trans htroot)
  have hsleaf {a : Bytes} (ha : a ∈ s.leaves) : a ∈ xs := HashV2.mem_of_mem_leaves hs ha
  have htleaf {b : Bytes} (hb : b ∈ t.leaves) : b ∈ ys := HashV2.mem_of_mem_leaves ht hb
  -- different nodes of the trees are different octets
  have hnodes {p q : Bytes × Bytes} (hp : p ∈ s.hashed X.computeChunkHash X.combine)
      (hq : q ∈ t.hashed X.computeChunkHash X.combine) (hne : p ≠ q)
      (hhash : X.combine p.1 p.2 = X.combine q.1 q.2) : X.Collision xs ys :=
    ⟨_, mem_inputs_of_node (mem_nodes hs hp), _, mem_inputs_of_node (mem_nodes ht hq),
      append_ne_of_ne hp hq hne, hhash⟩
  constructor
  · rcases eq_or_clash heval with rfl | hclash
    · exact .inl ((HashV2.paddedRow_eq_leaves hs).trans (HashV2.paddedRow_eq_leaves ht).symm)
    · right
      cases hclash with
      | leaves a b ha hb hne hhash =>
        exact .inl ⟨a, mem_inputs_of_chunk (hsleaf ha), b, mem_inputs_of_chunk (htleaf hb), hne, hhash⟩
      | nodes p q hp hq hne hhash => exact .inl (hnodes hp hq hne hhash)
      | leafNode a q ha hq hhash =>
        by_cases heq : a = q.1 ++ q.2
        · exact .inr (.inl ⟨a, hsleaf ha, q, mem_nodes ht hq, heq⟩)
        · exact .inl ⟨a, mem_inputs_of_chunk (hsleaf ha), _, mem_inputs_of_node (mem_nodes ht hq),
            heq, hhash⟩
      | nodeLeaf p b hp hb hhash =>
        by_cases heq : b = p.1 ++ p.2
        · exact .inr (.inr ⟨b, htleaf hb, p, mem_nodes hs hp, heq⟩)
        · exact .inl ⟨_, mem_inputs_of_node (mem_nodes hs hp), b, mem_inputs_of_chunk (htleaf hb),
            Ne.symm heq, hhash⟩
  · intro hlength
    rcases eq_or_collides (shape_eq hlength hs ht) heval with rfl | hcollides
    · have hx := HashV2.prefix_paddedRow hs
      have hy := HashV2.prefix_paddedRow ht
      rw [HashV2.paddedRow_eq_leaves ht, ← HashV2.paddedRow_eq_leaves hs] at hy
      exact .inl ((List.prefix_of_prefix_length_le hx hy hlength.le).eq_of_length hlength)
    · rcases hcollides with ⟨a, ha, b, hb, hne, hhash⟩ | ⟨p, hp, q, hq, hne, hhash⟩
      · exact .inr ⟨a, mem_inputs_of_chunk (hsleaf ha), b, mem_inputs_of_chunk (htleaf hb), hne, hhash⟩
      · exact .inr (hnodes hp hq hne hhash)

/-- Either exception happens whatever the hash: the last chunk twice, and a chunk that is two hashes. -/
theorem merkle_tree_exceptions (X : XetHasher) (a b c : Bytes) :
    X.buildMerkleTree [a, b, c] = X.buildMerkleTree [a, b, c, c] ∧
      X.buildMerkleTree [X.computeChunkHash a ++ X.computeChunkHash b] = X.buildMerkleTree [a, b] :=
  ⟨rfl, rfl⟩

/-- From the hashes of chunks the same root is built as from the chunks. -/
theorem buildMerkleTreeFromHashes_map (X : XetHasher) (chunks : List Bytes) :
    X.buildMerkleTreeFromHashes (chunks.map X.computeChunkHash) = .ok (X.buildMerkleTree chunks) := by
  unfold buildMerkleTreeFromHashes buildMerkleTree
  by_cases hne : chunks = []
  · simp [hne]
  · have hlengths : (chunks.map X.computeChunkHash).find? (fun h => h.length ≠ HASH_SIZE) = none := by
      simp [List.find?_eq_none, X.length_hash]
    rw [if_neg (by simpa using hne), if_neg hne, hlengths]

/-- SHA-256, where the package for BLAKE3 is not installed. -/
def fallback : XetHasher := ⟨sha256, sha256_length⟩

theorem merkle_tree_binds_duplicate :
    fallback.buildMerkleTree [[1], [2], [3]] = fallback.buildMerkleTree [[1], [2], [3], [3]] ∧
      (([[1], [2], [3]] : List Bytes) ≠ [] ∧ ([[1], [2], [3], [3]] : List Bytes) ≠ []) ∧
      (HashV2.paddedRow [[1], [2], [3]] = HashV2.paddedRow [[1], [2], [3], [3]] ∨
        fallback.Collision [[1], [2], [3]] [[1], [2], [3], [3]] ∨
        fallback.ChunkIsNode [[1], [2], [3]] [[1], [2], [3], [3]] ∨
        fallback.ChunkIsNode [[1], [2], [3], [3]] [[1], [2], [3]]) ∧
      (3 = 4 → ([[1], [2], [3]] : List Bytes) = [[1], [2], [3], [3]] ∨
        fallback.Collision [[1], [2], [3]] [[1], [2], [3], [3]]) :=
  ⟨(merkle_tree_exceptions fallback [1] [2] [3]).1, ⟨by simp, by simp⟩,
    merkle_tree_binds fallback [[1], [2], [3]] [[1], [2], [3], [3]]
      (merkle_tree_exceptions fallback [1] [2] [3]).1 (by simp) (by simp)⟩

end Binding

end XetHasher

end Ccbt.Xet
