import Mathlib.Data.List.Nodup
import Mathlib.Data.Nat.Size
import Mathlib.Logic.Function.Basic
import Ccbt.Python.Dict
import Ccbt.Transition.Run

/-!
# The Kademlia routing table

A table files the same node objects twice: in one of 160 buckets of at most `k` nodes and in
a dictionary under their ids. Objects are references here, since the table updates them in
place and both structures see it. An operation files or removes an object in both, with the
exception of the replacement of a bad node in a full bucket, which leaves the bad node in the
dictionary.
-/

namespace Ccbt

open Python Transition

namespace Discovery

abbrev Time := Rat

/-- Ids of nodes, and what is looked up among them, have 20 bytes. -/
abbrev NodeId := { id : Bytes // id.length = 20 }

structure DHTNode where
  node_id : NodeId
  ip : Str
  port : Nat
  last_seen : Time
  last_ping : Time := 0
  is_good : Bool := true
  failed_queries : Nat := 0
  successful_queries : Nat := 0

def DHTNode.eq (self other : DHTNode) : Bool :=
  self.node_id = other.node_id && self.ip = other.ip && self.port = other.port

def distanceLoop : Bytes → Bytes → Nat
  | a :: l, b :: m =>
    let xor := a.toNat ^^^ b.toNat
    -- the first byte that differs ends the loop
    if xor = 0 then 8 + distanceLoop l m else 8 - (Nat.size xor - 1)
  | _, _ => 0

def distance (node_id1 node_id2 : Bytes) : Nat :=
  if node_id1.length ≠ node_id2.length then 0 else distanceLoop node_id1 node_id2

variable {Ref : Type*}

/-- The table and, for each node object, its attributes now. -/
structure KademliaRoutingTable (Ref : Type*) where
  node_id : NodeId
  k : Nat
  node : Ref → DHTNode
  buckets : Fin 160 → List Ref
  nodes : Dict NodeId Ref
  keyed : ∀ id r, nodes.get? id = some r → (node r).node_id = id

namespace KademliaRoutingTable

def new (node_id : NodeId) (k : Nat) (node : Ref → DHTNode) : KademliaRoutingTable Ref where
  node_id := node_id
  k := k
  node := node
  buckets := fun _ => []
  nodes := .empty
  keyed := fun _ _ h => nomatch h

def bucketIndex (t : KademliaRoutingTable Ref) (node_id : NodeId) : Fin 160 :=
  ⟨min (distance t.node_id.1 node_id.1) 159, by omega⟩

/-- Attributes of a node object are set; its id is not among them. -/
def modify [DecidableEq Ref] (t : KademliaRoutingTable Ref) (r : Ref)
    (f : DHTNode → DHTNode) (hf : ∀ n, (f n).node_id = n.node_id) :
    KademliaRoutingTable Ref where
  node_id := t.node_id
  k := t.k
  node := Function.update t.node r (f (t.node r))
  buckets := t.buckets
  nodes := t.nodes
  keyed := fun id e h => by
    by_cases he : e = r
    · subst he
      rw [Function.update_self, hf, t.keyed id e h]
    · rw [Function.update_of_ne he, t.keyed id e h]

/-- A node object is made; nothing refers to it before. -/
def create [DecidableEq Ref] (t : KademliaRoutingTable Ref) (r : Ref) (node : DHTNode)
    (hr : ∀ id, t.nodes.get? id ≠ some r) : KademliaRoutingTable Ref where
  node_id := t.node_id
  k := t.k
  node := Function.update t.node r node
  buckets := t.buckets
  nodes := t.nodes
  keyed := fun id e h => by
    have he : e ≠ r := fun he => hr id (he ▸ h)
    rw [Function.update_of_ne he, t.keyed id e h]

/-- `self.nodes[node.node_id] = node` after a bucket has been changed. -/
def file (t : KademliaRoutingTable Ref) (r : Ref) (bucket : List Ref) :
    KademliaRoutingTable Ref where
  node_id := t.node_id
  k := t.k
  node := t.node
  buckets := Function.update t.buckets (t.bucketIndex (t.node r).node_id) bucket
  nodes := t.nodes.set (t.node r).node_id r
  keyed := fun id e h => by
    rw [Dict.get?_set] at h
    split at h
    · next hid => rw [← Option.some.inj h, hid]
    · exact t.keyed id e h

/-- `add_node`, with what it returns. -/
def addNode [DecidableEq Ref] (t : KademliaRoutingTable Ref) (r : Ref) :
    Bool × KademliaRoutingTable Ref :=
  let node := t.node r
  if node.node_id = t.node_id then (false, t)
  else
    let bucket := t.buckets (t.bucketIndex node.node_id)
    match t.nodes.get? node.node_id with
    | some existing_node => (true, t.modify existing_node (fun n => { n with
        ip := node.ip
        port := node.port
        last_seen := node.last_seen
        is_good := node.is_good }) fun _ => rfl)
    | none =>
      if bucket.length < t.k then (true, t.file r (bucket ++ [r]))
      else
        match bucket.findIdx? fun e => !(t.node e).is_good with
        -- the entry of the bad node in `nodes` is not taken out
        | some i => (true, t.file r (bucket.set i r))
        | none => (false, t)

def removeNode (t : KademliaRoutingTable Ref) (node_id : NodeId) : KademliaRoutingTable Ref :=
  match t.nodes.get? node_id with
  | none => t
  | some r =>
    let i := t.bucketIndex node_id
    -- the bucket is searched with `__eq__`, not by identity
    { t with
      buckets := Function.update t.buckets i
        ((t.buckets i).eraseP fun e => (t.node r).eq (t.node e))
      nodes := t.nodes.erase node_id
      keyed := fun id e h => by
        rw [Dict.get?_erase] at h
        split at h
        · exact nomatch h
        · exact t.keyed id e h }

def markNodeBad [DecidableEq Ref] (t : KademliaRoutingTable Ref) (node_id : NodeId) :
    KademliaRoutingTable Ref :=
  match t.nodes.get? node_id with
  | none => t
  | some r => t.modify r (fun n => { n with
      is_good := false
      failed_queries := n.failed_queries + 1 }) fun _ => rfl

def markNodeGood [DecidableEq Ref] (t : KademliaRoutingTable Ref) (node_id : NodeId) :
    KademliaRoutingTable Ref :=
  match t.nodes.get? node_id with
  | none => t
  | some r => t.modify r (fun n => { n with
      is_good := true
      successful_queries := n.successful_queries + 1 }) fun _ => rfl

end KademliaRoutingTable

/-- The calls that change a table. -/
inductive TableCall (Ref : Type*)
  | add_node (node : Ref)
  | remove_node (node_id : NodeId)
  | mark_node_bad (node_id : NodeId)
  | mark_node_good (node_id : NodeId)

namespace KademliaRoutingTable

def step [DecidableEq Ref] (t : KademliaRoutingTable Ref) :
    TableCall Ref → KademliaRoutingTable Ref
  | .add_node r => (t.addNode r).2
  | .remove_node id => t.removeNode id
  | .mark_node_bad id => t.markNodeBad id
  | .mark_node_good id => t.markNodeGood id

/-- Both structures hold the same nodes, each once and where it belongs. -/
structure Coherent (t : KademliaRoutingTable Ref) : Prop where
  bounded : ∀ i, (t.buckets i).length ≤ t.k
  nodup : ∀ i, (t.buckets i).Nodup
  nodup_values : t.nodes.values.Nodup
  filed : ∀ r, (∃ i, r ∈ t.buckets i) ↔ r ∈ t.nodes.values
  placed : ∀ i, ∀ r ∈ t.buckets i, t.bucketIndex (t.node r).node_id = i
  keyed : ∀ id r, t.nodes.get? id = some r → (t.node r).node_id = id
  foreign : t.node_id ∉ t.nodes.keys ∧ ∀ i, ∀ r ∈ t.buckets i, (t.node r).node_id ≠ t.node_id

/-- The call puts a new node into the place of a bad one. -/
def ReplacesBad (t : KademliaRoutingTable Ref) : TableCall Ref → Prop
  | .add_node r =>
    let id := (t.node r).node_id
    let bucket := t.buckets (t.bucketIndex id)
    id ≠ t.node_id ∧ t.nodes.get? id = none ∧ t.k ≤ bucket.length ∧
      ∃ e ∈ bucket, (t.node e).is_good = false
  | _ => False

section Objects

variable [DecidableEq Ref] {t : KademliaRoutingTable Ref} {r : Ref} {f : DHTNode → DHTNode}
  {hf : ∀ n, (f n).node_id = n.node_id}

@[simp] theorem modify_nodes : (t.modify r f hf).nodes = t.nodes := rfl

@[simp] theorem modify_buckets : (t.modify r f hf).buckets = t.buckets := rfl

@[simp] theorem modify_k : (t.modify r f hf).k = t.k := rfl

@[simp] theorem modify_own : (t.modify r f hf).node_id = t.node_id := rfl

@[simp] theorem modify_bucketIndex (id : NodeId) :
    (t.modify r f hf).bucketIndex id = t.bucketIndex id := rfl

@[simp] theorem modify_id (e : Ref) : ((t.modify r f hf).node e).node_id = (t.node e).node_id := by
  change (Function.update t.node r (f (t.node r)) e).node_id = _
  by_cases he : e = r
  · rw [he, Function.update_self, hf]
  · rw [Function.update_of_ne he]

end Objects

section Entries

variable {t : KademliaRoutingTable Ref} {r : Ref}

/-- A dictionary of nodes holds none of them twice. -/
theorem values_nodup (t : KademliaRoutingTable Ref) : t.nodes.values.Nodup := by
  refine t.nodes.nodup_values fun i j r hi hj => ?_
  rw [← t.keyed i r hi, ← t.keyed j r hj]

/-- A node is in the dictionary exactly if it stands there under its own id. -/
theorem mem_values_iff (t : KademliaRoutingTable Ref) {r : Ref} :
    r ∈ t.nodes.values ↔ t.nodes.get? (t.node r).node_id = some r := by
  rw [Dict.mem_values_iff]
  constructor
  · rintro ⟨id, h⟩
    rwa [t.keyed id r h]
  · exact fun h => ⟨_, h⟩

/-- Two nodes of the dictionary with one id are the same. -/
theorem eq_of_mem_values {e : Ref} (hr : r ∈ t.nodes.values) (he : e ∈ t.nodes.values)
    (h : (t.node r).node_id = (t.node e).node_id) : r = e := by
  rw [mem_values_iff] at hr he
  rw [h, he] at hr
  exact (Option.some.inj hr).symm

theorem file_bucket_self (r : Ref) (bucket : List Ref) :
    (t.file r bucket).buckets (t.bucketIndex (t.node r).node_id) = bucket :=
  Function.update_self ..

theorem file_bucket_ne (bucket : List Ref) {i : Fin 160}
    (h : i ≠ t.bucketIndex (t.node r).node_id) : (t.file r bucket).buckets i = t.buckets i :=
  Function.update_of_ne h ..

/-- Of a table that changes, what it holds afterwards under which id. -/
theorem mem_values_file {e : Ref} {bucket : List Ref}
    (hfresh : t.nodes.get? (t.node r).node_id = none) :
    e ∈ (t.file r bucket).nodes.values ↔ e = r ∨ e ∈ t.nodes.values := by
  rw [mem_values_iff, mem_values_iff]
  change (t.nodes.set (t.node r).node_id r).get? (t.node e).node_id = some e ↔ _
  rw [Dict.get?_set]
  by_cases hid : (t.node e).node_id = (t.node r).node_id
  · rw [if_pos hid, hid, hfresh]
    simp [eq_comm]
  · have hne : e ≠ r := fun h => hid (h ▸ rfl)
    rw [if_neg hid]
    simp [hne]

/-- What the calls leave in the dictionary. -/
theorem get?_addNode [DecidableEq Ref] {id : NodeId} {e : Ref}
    (h : (t.addNode r).2.nodes.get? id = some e) : e = r ∨ t.nodes.get? id = some e := by
  have hfile : ∀ bucket, (t.file r bucket).nodes.get? id = some e →
      e = r ∨ t.nodes.get? id = some e := by
    intro bucket hb
    change (t.nodes.set (t.node r).node_id r).get? id = some e at hb
    rw [Dict.get?_set] at hb
    split at hb
    · exact Or.inl (Option.some.inj hb).symm
    · exact Or.inr hb
  rw [addNode] at h
  split at h
  · exact Or.inr h
  · split at h
    · exact Or.inr h
    · dsimp only at h
      split at h
      · exact hfile _ h
      · split at h
        · exact hfile _ h
        · exact Or.inr h

theorem get?_removeNode {node_id id : NodeId} {e : Ref}
    (h : (t.removeNode node_id).nodes.get? id = some e) : t.nodes.get? id = some e := by
  rw [removeNode] at h
  split at h
  · exact h
  · rw [Dict.get?_erase] at h
    split at h
    · exact nomatch h
    · exact h

@[simp] theorem nodes_markNodeBad [DecidableEq Ref] (node_id : NodeId) :
    (t.markNodeBad node_id).nodes = t.nodes := by
  rw [markNodeBad]
  split <;> rfl

@[simp] theorem nodes_markNodeGood [DecidableEq Ref] (node_id : NodeId) :
    (t.markNodeGood node_id).nodes = t.nodes := by
  rw [markNodeGood]
  split <;> rfl

end Entries

section Lists

/-- Taking out the first match takes out an item that alone matches. -/
theorem eraseP_eq_erase [DecidableEq Ref] {l : List Ref} {p : Ref → Bool} {r : Ref}
    (h : ∀ e ∈ l, p e = true ↔ e = r) : l.eraseP p = l.erase r := by
  induction l with
  | nil => rfl
  | cons a l ih =>
    have hl : ∀ e ∈ l, p e = true ↔ e = r := fun e he => h e (List.mem_cons_of_mem _ he)
    by_cases ha : a = r
    · rw [List.eraseP_cons_of_pos ((h a List.mem_cons_self).mpr ha), ha, List.erase_cons_head]
    · rw [List.eraseP_cons_of_neg (mt (h a List.mem_cons_self).mp ha), ih hl,
        List.erase_cons_tail (by simpa using ha)]

/-- An item of a list without repetitions is not there any more once another one is stored in
its place. -/
theorem notMem_set {l : List Ref} (hl : l.Nodup) {i : Nat} (hi : i < l.length) {r : Ref}
    (h : l[i] ≠ r) : l[i] ∉ l.set i r := by
  intro hmem
  obtain ⟨j, hj, heq⟩ := List.getElem_of_mem hmem
  rw [List.length_set] at hj
  rw [List.getElem_set] at heq
  split at heq
  · exact h heq.symm
  · next hij => exact hij ((hl.getElem_inj_iff).mp heq).symm

end Lists

namespace Coherent

variable {t : KademliaRoutingTable Ref} {r : Ref}

theorem new (node_id : NodeId) (k : Nat) (node : Ref → DHTNode) :
    (new node_id k node).Coherent where
  bounded := fun _ => Nat.zero_le _
  nodup := fun _ => List.nodup_nil
  nodup_values := List.nodup_nil
  filed := fun _ => ⟨fun ⟨_, h⟩ => (nomatch h), fun h => (nomatch h)⟩
  placed := fun _ _ h => nomatch h
  keyed := (KademliaRoutingTable.new node_id k node).keyed
  foreign := ⟨fun h => (nomatch h), fun _ _ h => (nomatch h)⟩

theorem mem_values (h : t.Coherent) {i : Fin 160} (hr : r ∈ t.buckets i) : r ∈ t.nodes.values :=
  (h.filed r).mp ⟨i, hr⟩

theorem modify [DecidableEq Ref] (h : t.Coherent) (r : Ref) (f : DHTNode → DHTNode)
    (hf : ∀ n, (f n).node_id = n.node_id) : (t.modify r f hf).Coherent where
  bounded := h.bounded
  nodup := h.nodup
  nodup_values := h.nodup_values
  filed := h.filed
  placed := fun i e he => by
    rw [modify_bucketIndex, modify_id, h.placed i e he]
  keyed := (t.modify r f hf).keyed
  foreign := ⟨h.foreign.1, fun i e he => by
    rw [modify_id, modify_own]
    exact h.foreign.2 i e he⟩

/-- A node with a new id goes into a bucket that has space for it. -/
theorem append (h : t.Coherent) (hown : (t.node r).node_id ≠ t.node_id)
    (hfresh : t.nodes.get? (t.node r).node_id = none)
    (hspace : (t.buckets (t.bucketIndex (t.node r).node_id)).length < t.k) :
    (t.file r (t.buckets (t.bucketIndex (t.node r).node_id) ++ [r])).Coherent := by
  have hnew : r ∉ t.nodes.values := by
    rw [mem_values_iff, hfresh]
    exact fun h => nomatch h
  have hmem : ∀ i e,
      e ∈ (t.file r (t.buckets (t.bucketIndex (t.node r).node_id) ++ [r])).buckets i ↔
        e ∈ t.buckets i ∨ e = r ∧ i = t.bucketIndex (t.node r).node_id := by
    intro i e
    by_cases hi : i = t.bucketIndex (t.node r).node_id
    · subst hi
      rw [file_bucket_self, List.mem_append, List.mem_singleton, and_iff_left rfl]
    · rw [file_bucket_ne _ hi]
      simp [hi]
  constructor
  case bounded =>
    intro i
    by_cases hi : i = t.bucketIndex (t.node r).node_id
    · rw [hi, file_bucket_self, List.length_append, List.length_singleton]
      exact hspace
    · rw [file_bucket_ne _ hi]
      exact h.bounded i
  case nodup =>
    intro i
    by_cases hi : i = t.bucketIndex (t.node r).node_id
    · rw [hi, file_bucket_self]
      refine List.nodup_append.mpr ⟨h.nodup _, List.nodup_singleton r, ?_⟩
      rintro e he _ hr rfl
      exact hnew (h.mem_values (List.mem_singleton.mp hr ▸ he))
    · rw [file_bucket_ne _ hi]
      exact h.nodup i
  case nodup_values => exact values_nodup _
  case filed =>
    intro e
    rw [mem_values_file hfresh, ← h.filed]
    constructor
    · rintro ⟨i, he⟩
      rcases (hmem i e).mp he with he | he
      · exact Or.inr ⟨i, he⟩
      · exact Or.inl he.1
    · rintro (rfl | ⟨i, he⟩)
      · exact ⟨_, (hmem _ _).mpr (Or.inr ⟨rfl, rfl⟩)⟩
      · exact ⟨i, (hmem i e).mpr (Or.inl he)⟩
  case placed =>
    intro i e he
    rcases (hmem i e).mp he with he | ⟨rfl, rfl⟩
    · exact h.placed i e he
    · rfl
  case keyed => exact (t.file r _).keyed
  case foreign =>
    constructor
    · change t.node_id ∉ (t.nodes.set (t.node r).node_id r).keys
      rw [Dict.mem_keys_iff, Dict.get?_set, if_neg (Ne.symm hown), ← Dict.mem_keys_iff]
      exact h.foreign.1
    · intro i e he
      rcases (hmem i e).mp he with he | ⟨rfl, -⟩
      · exact h.foreign.2 i e he
      · exact hown

/-- Of the nodes of its bucket a node of the dictionary equals only itself. -/
theorem eq_iff (h : t.Coherent) {i : Fin 160} (hr : r ∈ t.nodes.values) {e : Ref}
    (he : e ∈ t.buckets i) : (t.node r).eq (t.node e) = true ↔ e = r := by
  constructor
  · intro heq
    simp only [DHTNode.eq, Bool.and_eq_true, decide_eq_true_eq] at heq
    exact (eq_of_mem_values hr (h.mem_values he) heq.1.1).symm
  · rintro rfl
    simp [DHTNode.eq]

theorem removeNode (h : t.Coherent) (node_id : NodeId) : (t.removeNode node_id).Coherent := by
  classical
  rw [KademliaRoutingTable.removeNode]
  split
  · exact h
  · next r hget =>
    have hid : (t.node r).node_id = node_id := t.keyed _ _ hget
    have hr : r ∈ t.nodes.values := t.nodes.mem_values_iff.mpr ⟨_, hget⟩
    have hbucket : ((t.buckets (t.bucketIndex node_id)).eraseP fun e => (t.node r).eq (t.node e)) =
        (t.buckets (t.bucketIndex node_id)).erase r :=
      eraseP_eq_erase fun e he => h.eq_iff hr he
    have hmem : ∀ i e, e ∈ Function.update t.buckets (t.bucketIndex node_id)
        ((t.buckets (t.bucketIndex node_id)).eraseP fun e => (t.node r).eq (t.node e)) i ↔
        e ∈ t.buckets i ∧ e ≠ r := by
      intro i e
      by_cases hi : i = t.bucketIndex node_id
      · subst hi
        rw [Function.update_self, hbucket, (h.nodup _).mem_erase_iff, and_comm]
      · rw [Function.update_of_ne hi]
        refine ⟨fun he => ⟨he, ?_⟩, And.left⟩
        rintro rfl
        exact hi (hid ▸ (h.placed i e he).symm)
    have hsub : ∀ i, (Function.update t.buckets (t.bucketIndex node_id)
        ((t.buckets (t.bucketIndex node_id)).eraseP fun e => (t.node r).eq (t.node e)) i).Sublist
        (t.buckets i) := by
      intro i
      by_cases hi : i = t.bucketIndex node_id
      · subst hi
        rw [Function.update_self]
        exact List.eraseP_sublist
      · rw [Function.update_of_ne hi]
    constructor
    case bounded => exact fun i => (hsub i).length_le.trans (h.bounded i)
    case nodup => exact fun i => (hsub i).nodup (h.nodup i)
    case nodup_values => exact values_nodup _
    case filed =>
      intro e
      rw [mem_values_iff]
      -- the node with the removed id is the one that both structures lose
      change _ ↔ (t.nodes.erase node_id).get? (t.node e).node_id = some e
      rw [Dict.get?_erase]
      simp only [hmem]
      have hfiled := (h.filed e).trans t.mem_values_iff
      by_cases he : (t.node e).node_id = node_id
      · rw [if_pos he]
        refine ⟨fun ⟨i, hi, hne⟩ => absurd ?_ hne, fun h => nomatch h⟩
        exact eq_of_mem_values (h.mem_values hi) hr (he.trans hid.symm)
      · have hne : e ≠ r := fun heq => he (heq ▸ hid)
        rw [if_neg he, ← hfiled]
        exact ⟨fun ⟨i, hi, _⟩ => ⟨i, hi⟩, fun ⟨i, hi⟩ => ⟨i, hi, hne⟩⟩
    case placed => exact fun i e he => h.placed i e ((hmem i e).mp he).1
    case keyed =>
      intro id e he
      rw [Dict.get?_erase] at he
      split at he
      · exact nomatch he
      · exact t.keyed id e he
    case foreign =>
      refine ⟨?_, fun i e he => h.foreign.2 i e ((hmem i e).mp he).1⟩
      rw [Dict.mem_keys_iff, Dict.get?_erase]
      rintro ⟨e, he⟩
      split at he
      · exact nomatch he
      · exact h.foreign.1 (t.nodes.mem_keys_iff.mpr ⟨e, he⟩)

theorem markNodeBad [DecidableEq Ref] (h : t.Coherent) (node_id : NodeId) :
    (t.markNodeBad node_id).Coherent := by
  rw [KademliaRoutingTable.markNodeBad]
  split
  · exact h
  · exact h.modify _ _ _

theorem markNodeGood [DecidableEq Ref] (h : t.Coherent) (node_id : NodeId) :
    (t.markNodeGood node_id).Coherent := by
  rw [KademliaRoutingTable.markNodeGood]
  split
  · exact h
  · exact h.modify _ _ _

theorem addNode [DecidableEq Ref] (h : t.Coherent) (hrep : ¬t.ReplacesBad (.add_node r)) :
    (t.addNode r).2.Coherent := by
  rw [KademliaRoutingTable.addNode]
  by_cases hown : (t.node r).node_id = t.node_id
  · rw [if_pos hown]
    exact h
  · rw [if_neg hown]
    split
    · dsimp only
      exact h.modify _ _ _
    · next hfresh =>
      by_cases hspace : (t.buckets (t.bucketIndex (t.node r).node_id)).length < t.k
      · rw [if_pos hspace]
        exact h.append hown hfresh hspace
      · rw [if_neg hspace]
        split
        · next i hi =>
          obtain ⟨hlt, hbad, -⟩ := List.findIdx?_eq_some_iff_getElem.mp hi
          exact absurd ⟨hown, hfresh, Nat.not_lt.mp hspace, _, List.getElem_mem hlt,
            by simpa using hbad⟩ hrep
        · exact h

/-- The bad node that is replaced stays in the dictionary and is in no bucket any more. -/
theorem not_addNode [DecidableEq Ref] (h : t.Coherent) (hrep : t.ReplacesBad (.add_node r)) :
    ¬(t.addNode r).2.Coherent := by
  obtain ⟨hown, hfresh, hfull, e, he, hbad⟩ := hrep
  intro hadd
  rw [KademliaRoutingTable.addNode, if_neg hown] at hadd
  split at hadd
  · next existing hget =>
    rw [hfresh] at hget
    exact nomatch hget
  · rw [if_neg (Nat.not_lt.mpr hfull)] at hadd
    split at hadd
    · next i hi =>
      obtain ⟨hlt, -, -⟩ := List.findIdx?_eq_some_iff_getElem.mp hi
      have hold := h.mem_values (List.getElem_mem hlt)
      have hne : (t.buckets (t.bucketIndex (t.node r).node_id))[i] ≠ r := by
        intro heq
        rw [heq, mem_values_iff, hfresh] at hold
        exact nomatch hold
      -- it is still in the dictionary, so it would have to be in the bucket of its id
      obtain ⟨j, hj⟩ := (hadd.filed _).mpr ((mem_values_file hfresh).mpr (Or.inr hold))
      have hplaced : t.bucketIndex (t.node r).node_id = j := by
        rw [← hadd.placed j _ hj]
        exact (h.placed _ _ (List.getElem_mem hlt)).symm
      subst hplaced
      rw [file_bucket_self] at hj
      exact notMem_set (h.nodup _) hlt hne hj
    · next hnone =>
      have hgood := List.findIdx?_eq_none_iff.mp hnone e he
      simp [hbad] at hgood

end Coherent

variable [DecidableEq Ref]

/-- A call keeps the two structures together unless it replaces a bad node. -/
theorem coherent_step_iff {t : KademliaRoutingTable Ref} (h : t.Coherent) (e : TableCall Ref) :
    (t.step e).Coherent ↔ ¬t.ReplacesBad e := by
  cases e with
  | add_node r => exact ⟨fun hadd hrep => h.not_addNode hrep hadd, h.addNode⟩
  | remove_node id => exact iff_of_true (h.removeNode id) fun hrep => hrep
  | mark_node_bad id => exact iff_of_true (h.markNodeBad id) fun hrep => hrep
  | mark_node_good id => exact iff_of_true (h.markNodeGood id) fun hrep => hrep

/-- In every state of a sequence of calls both structures hold the same nodes, exactly if no
call replaces a bad node. -/
theorem always_coherent_iff (node_id : NodeId) (k : Nat) (node : Ref → DHTNode)
    (es : List (TableCall Ref)) :
    Always step Coherent (new node_id k node) es ↔
      StepsMeet step (fun t e => ¬t.ReplacesBad e) (new node_id k node) es :=
  always_iff_stepsMeet (fun _ e h => coherent_step_iff h e) (.new node_id k node)

/-- The id whose first and last byte are given and which is zero in between. -/
def idOf (first last : UInt8) : NodeId := ⟨first :: List.replicate 18 0 ++ [last], rfl⟩

/-- Nodes on the other side of the key space from the id 0. -/
def farNode (r : Nat) : DHTNode :=
  { node_id := idOf 0x80 r.toUInt8, ip := "10.0.0.1".toList, port := 6881, last_seen := 0 }

/-- A bucket of one node, which is marked bad before the next one comes. -/
theorem bad_node_stays : ¬Always step Coherent (new (idOf 0 0) 1 farNode)
    [.add_node 0, .mark_node_bad (idOf 0x80 0), .add_node 1] := by
  rintro ⟨-, -, h, h'⟩
  exact (coherent_step_iff h (.add_node 1)).mp h'
    ⟨by decide, by decide, by decide, 0, by decide, by decide⟩

end KademliaRoutingTable

end Discovery

end Ccbt
