import Mathlib.Data.List.Basic
import Mathlib.Data.List.Infix

/-!
# Hash trees that are built level by level

A level is built from the one below by combining neighbours, and a last node
without a neighbour is combined with itself. `root` climbs to the level of one
node. The construction is natural in the combining operation, and so everything
about it can be said once of the free one: `HashTree` keeps what was combined, `eval`
computes the digest. Two trees with the same digest are the same tree or contain
two nodes that clash; when they have the same shape, the clash is a collision.
-/

namespace MerkleTree

variable {α β γ : Type*}

section Levels

variable (c : α → α → α)

/-- The pairs that are combined to build the next level. -/
def pairs : List α → List (α × α)
  | [] => []
  | [a] => [(a, a)]
  | a :: b :: l => (a, b) :: pairs l

def nextLevel (l : List α) : List α := (pairs l).map (fun p => c p.1 p.2)

/-- Build levels until one of at most one node; the number bounds how many. -/
def climb : Nat → List α → List α
  | 0, l => l
  | n + 1, l => if 1 < l.length then climb n (nextLevel c l) else l

/-- The node at the top of the tree over a level, if the level is not empty. -/
def root (l : List α) : Option α := (climb c l.length l).head?

/-- All pairs that are combined on the way to the top. -/
def combined : Nat → List α → List (α × α)
  | 0, _ => []
  | n + 1, l => if 1 < l.length then pairs l ++ combined n (nextLevel c l) else []

theorem pairs_length : ∀ l : List α, (pairs l).length = (l.length + 1) / 2
  | [] => by simp [pairs]
  | [a] => by simp [pairs]
  | a :: b :: l => by
    rw [pairs, List.length_cons, pairs_length l]
    simp only [List.length_cons]
    omega

theorem mem_of_mem_pairs {l : List α} {q : α × α} (h : q ∈ pairs l) : q.1 ∈ l ∧ q.2 ∈ l := by
  induction l using pairs.induct with
  | case1 => cases h
  | case2 a =>
    obtain rfl := List.mem_singleton.mp h
    exact ⟨List.mem_cons_self, List.mem_cons_self⟩
  | case3 a b l ih =>
    rcases List.mem_cons.mp h with rfl | h
    · exact ⟨List.mem_cons_self, List.mem_cons_of_mem _ List.mem_cons_self⟩
    · obtain ⟨h₁, h₂⟩ := ih h
      exact ⟨List.mem_cons_of_mem _ (List.mem_cons_of_mem _ h₁),
        List.mem_cons_of_mem _ (List.mem_cons_of_mem _ h₂)⟩

theorem nextLevel_length (l : List α) : (nextLevel c l).length = (l.length + 1) / 2 := by
  rw [nextLevel, List.length_map, pairs_length]

theorem climb_length {n : Nat} {l : List α} (h : l.length ≤ n + 1) (hne : l ≠ []) :
    (climb c n l).length = 1 := by
  induction n generalizing l with
  | zero =>
    have := List.length_pos_of_ne_nil hne
    rw [climb]
    omega
  | succ n ih =>
    have hpos := List.length_pos_of_ne_nil hne
    rw [climb]
    split
    · have hlen := nextLevel_length c l
      apply ih
      · omega
      · apply List.ne_nil_of_length_pos
        omega
    · omega

/-- The tree over a level that is not empty has a top. -/
theorem root_isSome {l : List α} (hne : l ≠ []) :
    ∃ a, root c l = some a ∧ climb c l.length l = [a] := by
  obtain ⟨a, ha⟩ := List.length_eq_one_iff.mp (climb_length c (Nat.le_succ l.length) hne)
  exact ⟨a, by rw [root, ha]; rfl, ha⟩

theorem root_singleton (a : α) : root c [a] = some a := rfl

end Levels

section Naturality

variable {c : α → α → α} {d : β → β → β} {f : α → β}

theorem pairs_map (f : α → β) : ∀ l : List α, pairs (l.map f) = (pairs l).map (Prod.map f f)
  | [] => rfl
  | [a] => rfl
  | a :: b :: l => by
    rw [List.map_cons, List.map_cons, pairs, pairs, pairs_map f l]
    rfl

theorem nextLevel_map (hf : ∀ a b, f (c a b) = d (f a) (f b)) (l : List α) :
    nextLevel d (l.map f) = (nextLevel c l).map f := by
  simp only [nextLevel, pairs_map, List.map_map]
  apply List.map_congr_left
  intro p _
  exact (hf p.1 p.2).symm

theorem climb_map (hf : ∀ a b, f (c a b) = d (f a) (f b)) (n : Nat) (l : List α) :
    climb d n (l.map f) = (climb c n l).map f := by
  induction n generalizing l with
  | zero => rfl
  | succ n ih =>
    rw [climb, climb, List.length_map]
    split
    · rw [nextLevel_map hf, ih]
    · rfl

/-- A map that respects the combining operations maps the top to the top. -/
theorem root_map (hf : ∀ a b, f (c a b) = d (f a) (f b)) (l : List α) :
    root d (l.map f) = (root c l).map f := by
  rw [root, List.length_map, climb_map hf, List.head?_map, root]

theorem combined_map (hf : ∀ a b, f (c a b) = d (f a) (f b)) (n : Nat) (l : List α) :
    combined d n (l.map f) = (combined c n l).map (Prod.map f f) := by
  induction n generalizing l with
  | zero => rfl
  | succ n ih =>
    rw [combined, combined, List.length_map]
    split
    · rw [nextLevel_map hf, ih, pairs_map, List.map_append]
    · rfl

end Naturality

/-- What was combined, with nothing computed. -/
inductive HashTree (α : Type*)
  | leaf (a : α)
  | node (l r : HashTree α)
  deriving DecidableEq

namespace HashTree

def leaves : HashTree α → List α
  | leaf a => [a]
  | node l r => l.leaves ++ r.leaves

/-- The pairs of subtrees under the inner nodes. -/
def inner : HashTree α → List (HashTree α × HashTree α)
  | leaf _ => []
  | node l r => (l, r) :: (l.inner ++ r.inner)

def eval (f : α → β) (c : β → β → β) : HashTree α → β
  | leaf a => f a
  | node l r => c (l.eval f c) (r.eval f c)

def hashed (f : α → β) (c : β → β → β) (t : HashTree α) : List (β × β) :=
  t.inner.map (Prod.map (eval f c) (eval f c))

theorem hashed_node (f : α → β) (c : β → β → β) (l r : HashTree α) :
    (node l r).hashed f c = (l.eval f c, r.eval f c) :: (l.hashed f c ++ r.hashed f c) := by
  simp [hashed, inner]

end HashTree

/-- Two trees clash: different leaves or different nodes have the same digest, or
a leaf of one has the digest of a node of the other. -/
inductive Clash (f : α → β) (c : β → β → β) (s t : HashTree α) : Prop
  | leaves (a b : α) (ha : a ∈ s.leaves) (hb : b ∈ t.leaves) (hne : a ≠ b) (h : f a = f b)
  | nodes (p q : β × β) (hp : p ∈ s.hashed f c) (hq : q ∈ t.hashed f c) (hne : p ≠ q)
      (h : c p.1 p.2 = c q.1 q.2)
  | leafNode (a : α) (q : β × β) (ha : a ∈ s.leaves) (hq : q ∈ t.hashed f c)
      (h : f a = c q.1 q.2)
  | nodeLeaf (p : β × β) (b : α) (hp : p ∈ s.hashed f c) (hb : b ∈ t.leaves)
      (h : c p.1 p.2 = f b)

section Clash

variable {f : α → β} {c : β → β → β}

theorem Clash.left {s s' t t' : HashTree α} (h : Clash f c s t) :
    Clash f c (.node s s') (.node t t') := by
  cases h with
  | leaves a b ha hb hne h =>
    exact .leaves a b (List.mem_append_left _ ha) (List.mem_append_left _ hb) hne h
  | nodes p q hp hq hne h =>
    refine .nodes p q ?_ ?_ hne h <;> rw [HashTree.hashed_node]
    · exact List.mem_cons_of_mem _ (List.mem_append_left _ hp)
    · exact List.mem_cons_of_mem _ (List.mem_append_left _ hq)
  | leafNode a q ha hq h =>
    refine .leafNode a q (List.mem_append_left _ ha) ?_ h
    rw [HashTree.hashed_node]
    exact List.mem_cons_of_mem _ (List.mem_append_left _ hq)
  | nodeLeaf p b hp hb h =>
    refine .nodeLeaf p b ?_ (List.mem_append_left _ hb) h
    rw [HashTree.hashed_node]
    exact List.mem_cons_of_mem _ (List.mem_append_left _ hp)

theorem Clash.right {s s' t t' : HashTree α} (h : Clash f c s' t') :
    Clash f c (.node s s') (.node t t') := by
  cases h with
  | leaves a b ha hb hne h =>
    exact .leaves a b (List.mem_append_right _ ha) (List.mem_append_right _ hb) hne h
  | nodes p q hp hq hne h =>
    refine .nodes p q ?_ ?_ hne h <;> rw [HashTree.hashed_node]
    · exact List.mem_cons_of_mem _ (List.mem_append_right _ hp)
    · exact List.mem_cons_of_mem _ (List.mem_append_right _ hq)
  | leafNode a q ha hq h =>
    refine .leafNode a q (List.mem_append_right _ ha) ?_ h
    rw [HashTree.hashed_node]
    exact List.mem_cons_of_mem _ (List.mem_append_right _ hq)
  | nodeLeaf p b hp hb h =>
    refine .nodeLeaf p b ?_ (List.mem_append_right _ hb) h
    rw [HashTree.hashed_node]
    exact List.mem_cons_of_mem _ (List.mem_append_right _ hp)

theorem HashTree.mem_hashed_self (l r : HashTree α) :
    (l.eval f c, r.eval f c) ∈ (HashTree.node l r).hashed f c := by
  rw [HashTree.hashed_node]
  exact List.mem_cons_self

/-- A digest binds its tree up to clashes. -/
theorem eq_or_clash {s t : HashTree α} (h : s.eval f c = t.eval f c) : s = t ∨ Clash f c s t := by
  induction s generalizing t with
  | leaf a =>
    cases t with
    | leaf b =>
      by_cases hab : a = b
      · exact Or.inl (by rw [hab])
      · exact Or.inr (.leaves a b List.mem_cons_self List.mem_cons_self hab h)
    | node t t' =>
      exact Or.inr (.leafNode a _ List.mem_cons_self (HashTree.mem_hashed_self t t') h)
  | node s s' ih ih' =>
    cases t with
    | leaf b =>
      exact Or.inr (.nodeLeaf _ b (HashTree.mem_hashed_self s s') List.mem_cons_self h)
    | node t t' =>
      by_cases hp : (s.eval f c, s'.eval f c) = (t.eval f c, t'.eval f c)
      · obtain ⟨hl, hr⟩ := Prod.mk.inj hp
        rcases ih hl with rfl | hclash
        · rcases ih' hr with rfl | hclash
          · exact Or.inl rfl
          · exact Or.inr hclash.right
        · exact Or.inr hclash.left
      · exact Or.inr
          (.nodes _ _ (HashTree.mem_hashed_self s s') (HashTree.mem_hashed_self t t') hp h)

end Clash

section Shape

/-- A tree without what is in its leaves. -/
def HashTree.shape : HashTree α → HashTree Unit := HashTree.eval (fun _ => .leaf ()) .node

/-- Different leaves of two trees have one digest, or different nodes have. -/
def Collides (f : α → β) (c : β → β → β) (s t : HashTree α) : Prop :=
  (∃ a ∈ s.leaves, ∃ b ∈ t.leaves, a ≠ b ∧ f a = f b) ∨
    ∃ p ∈ s.hashed f c, ∃ q ∈ t.hashed f c, p ≠ q ∧ c p.1 p.2 = c q.1 q.2

variable {f : α → β} {c : β → β → β}

theorem Collides.of_children {s s' t t' : HashTree α}
    (h : Collides f c s t ∨ Collides f c s' t') : Collides f c (.node s s') (.node t t') := by
  have hleft {u u' : HashTree α} {p : β × β} (hp : p ∈ u.hashed f c) :
      p ∈ (HashTree.node u u').hashed f c := by
    rw [HashTree.hashed_node]
    exact List.mem_cons_of_mem _ (List.mem_append_left _ hp)
  have hright {u u' : HashTree α} {p : β × β} (hp : p ∈ u'.hashed f c) :
      p ∈ (HashTree.node u u').hashed f c := by
    rw [HashTree.hashed_node]
    exact List.mem_cons_of_mem _ (List.mem_append_right _ hp)
  rcases h with (⟨a, ha, b, hb, hab⟩ | ⟨p, hp, q, hq, hpq⟩) |
    (⟨a, ha, b, hb, hab⟩ | ⟨p, hp, q, hq, hpq⟩)
  · exact .inl ⟨a, List.mem_append_left _ ha, b, List.mem_append_left _ hb, hab⟩
  · exact .inr ⟨p, hleft hp, q, hleft hq, hpq⟩
  · exact .inl ⟨a, List.mem_append_right _ ha, b, List.mem_append_right _ hb, hab⟩
  · exact .inr ⟨p, hright hp, q, hright hq, hpq⟩

/-- A digest binds its tree among those of one shape, up to collisions: there a leaf is never taken
for a node. -/
theorem eq_or_collides {s t : HashTree α} (hshape : s.shape = t.shape)
    (h : s.eval f c = t.eval f c) : s = t ∨ Collides f c s t := by
  induction s generalizing t with
  | leaf a =>
    cases t with
    | leaf b =>
      by_cases hab : a = b
      · exact .inl (by rw [hab])
      · exact .inr (.inl ⟨a, List.mem_cons_self, b, List.mem_cons_self, hab, h⟩)
    | node t t' => cases hshape
  | node s s' ih ih' =>
    cases t with
    | leaf b => cases hshape
    | node t t' =>
      obtain ⟨hleft, hright⟩ := HashTree.node.inj hshape
      by_cases hp : (s.eval f c, s'.eval f c) = (t.eval f c, t'.eval f c)
      · obtain ⟨hl, hr⟩ := Prod.mk.inj hp
        rcases ih hleft hl with rfl | hcollides
        · rcases ih' hright hr with rfl | hcollides
          · exact .inl rfl
          · exact .inr (.of_children (.inr hcollides))
        · exact .inr (.of_children (.inl hcollides))
      · exact .inr (.inr
          ⟨_, HashTree.mem_hashed_self s s', _, HashTree.mem_hashed_self t t', hp, h⟩)

end Shape

section TreeOver

def treeOver (l : List (HashTree α)) : Option (HashTree α) := root HashTree.node l

theorem root_eq_eval (f : α → β) (c : β → β → β) (l : List (HashTree α)) :
    root c (l.map (HashTree.eval f c)) = (treeOver l).map (HashTree.eval f c) :=
  root_map (fun _ _ => rfl) l

/-- The shape of the tree over a level depends on the length of the level only. -/
theorem shape_treeOver (l : List α) : (treeOver (l.map .leaf)).map HashTree.shape =
    treeOver (List.replicate l.length (.leaf ())) := by
  have hroot := root_eq_eval (fun _ : α => HashTree.leaf ()) .node (l.map .leaf)
  rw [List.map_map] at hroot
  refine hroot.symm.trans (congrArg _ ?_)
  exact List.map_const'

/-- The inner nodes of the top are those of the level or were combined above it. -/
theorem inner_climb {n : Nat} {l : List (HashTree α)} {t : HashTree α}
    (ht : t ∈ climb HashTree.node n l)
    {p : HashTree α × HashTree α} (hp : p ∈ t.inner) :
    (∃ s ∈ l, p ∈ s.inner) ∨ p ∈ combined HashTree.node n l := by
  induction n generalizing l with
  | zero => exact Or.inl ⟨t, ht, hp⟩
  | succ n ih =>
    rw [climb] at ht
    rw [combined]
    split at ht
    · next hlen =>
      rw [if_pos hlen]
      rcases ih ht with ⟨s, hs, hps⟩ | hcombined
      · obtain ⟨q, hq, rfl⟩ := List.mem_map.mp hs
        rcases List.mem_cons.mp hps with rfl | hps
        · exact Or.inr (List.mem_append_left _ hq)
        · refine Or.inl ?_
          have hmem := mem_of_mem_pairs hq
          rcases List.mem_append.mp hps with hps | hps
          · exact ⟨q.1, hmem.1, hps⟩
          · exact ⟨q.2, hmem.2, hps⟩
      · exact Or.inr (List.mem_append_right _ hcombined)
    · exact Or.inl ⟨t, ht, hp⟩

theorem leaves_nextLevel_isPrefix (l : List (HashTree α)) :
    l.flatMap HashTree.leaves <+: (nextLevel HashTree.node l).flatMap HashTree.leaves := by
  induction l using pairs.induct with
  | case1 => exact List.prefix_rfl
  | case2 a => exact ⟨a.leaves, by simp [nextLevel, pairs, HashTree.leaves]⟩
  | case3 a b l ih =>
    obtain ⟨rest, hrest⟩ := ih
    refine ⟨rest, ?_⟩
    simp only [nextLevel] at hrest
    simp only [nextLevel, pairs, List.map_cons, List.flatMap_cons, HashTree.leaves, ← hrest,
      List.append_assoc]

theorem leaves_climb_isPrefix (n : Nat) (l : List (HashTree α)) :
    l.flatMap HashTree.leaves <+: (climb HashTree.node n l).flatMap HashTree.leaves := by
  induction n generalizing l with
  | zero => exact List.prefix_rfl
  | succ n ih =>
    rw [climb]
    split
    · exact (leaves_nextLevel_isPrefix l).trans (ih _)
    · exact List.prefix_rfl

/-- The leaves of the level come first among the leaves of the top; what follows
repeats last nodes. -/
theorem leaves_isPrefix {l : List (HashTree α)} {t : HashTree α} (h : treeOver l = some t) :
    l.flatMap HashTree.leaves <+: t.leaves := by
  have hne : l ≠ [] := by
    rintro rfl
    cases h
  obtain ⟨t', ht', hclimb⟩ := root_isSome HashTree.node hne
  obtain rfl : t' = t := Option.some.inj (ht'.symm.trans h)
  simpa [hclimb] using leaves_climb_isPrefix l.length l

/-- A leaf of the top is a leaf of the level. -/
theorem mem_leaves_climb {n : Nat} {l : List (HashTree α)} {t : HashTree α}
    (ht : t ∈ climb HashTree.node n l)
    {a : α} (ha : a ∈ t.leaves) : ∃ s ∈ l, a ∈ s.leaves := by
  induction n generalizing l with
  | zero => exact ⟨t, ht, ha⟩
  | succ n ih =>
    rw [climb] at ht
    split at ht
    · obtain ⟨s, hs, has⟩ := ih ht
      obtain ⟨q, hq, rfl⟩ := List.mem_map.mp hs
      have hmem := mem_of_mem_pairs hq
      rcases List.mem_append.mp has with has | has
      · exact ⟨q.1, hmem.1, has⟩
      · exact ⟨q.2, hmem.2, has⟩
    · exact ⟨t, ht, ha⟩

end TreeOver

end MerkleTree
