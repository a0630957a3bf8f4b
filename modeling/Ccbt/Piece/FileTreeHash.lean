import Ccbt.Core.TorrentV2.FileTree
import Ccbt.Piece.HashV2
import Ccbt.Python.Text

/-!
# The hash of a file tree

`hash_file_tree` hashes a file by its name, length and pieces root, and a
directory by the Merkle root of its children in the order of their names. A
directory adds nothing of its own, neither its name nor a level when it has one
child, and so what the hash binds is the binary tree of file records that is left
once the directories are forgotten: `skeleton`.
-/

namespace Ccbt

open Python MerkleTree TorrentV2

namespace HashV2

inductive TreeError
  | invalidNode
  | invalidChild (name : Str)
  | emptyDirectory
  | piecesRoot
  | overflow
  deriving DecidableEq

structure FileRecord where
  name : Str
  length : Nat
  piecesRoot : Bytes
  deriving DecidableEq

/-- The name, eight octets of length and the pieces root. -/
def FileRecord.bytes (r : FileRecord) : Bytes :=
  utf8Encode r.name ++ bigEndian 8 r.length ++ r.piecesRoot

def hashFileNode (name : Str) (length : Int) (piecesRoot : Bytes) : Except TreeError Bytes :=
  if piecesRoot.length ≠ 32 then .error .piecesRoot
  else if length < 0 ∨ 2 ^ 64 ≤ length then .error .overflow
  else .ok (sha256 (FileRecord.bytes ⟨name, length.toNat, piecesRoot⟩))

/-- The end of the two loops over nodes: the only hash, or the Merkle root. -/
def joinHashes (hashes : List Bytes) : Except TreeError Bytes :=
  match hashes with
  | [h] => .ok h
  | _ =>
    match calculateMerkleRoot hashes with
    | some r => .ok r
    | none => .error .emptyDirectory

/-- The hashes of named nodes in the order of the names, or the first error in
that order. -/
def sortedHashes (hashes : List (Str × Except TreeError Bytes)) : Except TreeError (List Bytes) :=
  (sortOn Prod.fst hashes).mapM Prod.snd

/-- `_hash_directory`, given the hashes of the children. -/
def hashDirectory (hashes : List (Str × Except TreeError Bytes)) : Except TreeError Bytes :=
  if hashes.isEmpty then .error .emptyDirectory
  else sortedHashes hashes >>= joinHashes

mutual

def hashNode (invalid : TreeError) : FileTreeNode → Except TreeError Bytes
  | .childless name length (some piecesRoot) => hashFileNode name length piecesRoot
  | .childless _ _ none => .error invalid
  | .withChildren _ _ none children =>
    if children.isEmpty then .error invalid else hashDirectory (hashChildren children)
  | .withChildren _ _ (some _) _ => .error invalid

def hashChildren : List (Str × FileTreeNode) → List (Str × Except TreeError Bytes)
  | [] => []
  | (name, node) :: children =>
    (name, hashNode (.invalidChild name) node) :: hashChildren children

end

def hashFileTree (fileTree : List (Str × FileTreeNode)) : Except TreeError Bytes :=
  if fileTree.isEmpty then .ok (sha256 [])
  else sortedHashes (fileTree.map (fun e => (e.1, hashNode .invalidNode e.2))) >>= joinHashes

-- What the hash depends on

mutual

def skeletonNode : FileTreeNode → Option (HashTree FileRecord)
  | .childless name length (some piecesRoot) => some (.leaf ⟨name, length.toNat, piecesRoot⟩)
  | .childless _ _ none => none
  | .withChildren _ _ _ children =>
    (sortOn Prod.fst (skeletonChildren children)).mapM Prod.snd >>= treeOver

def skeletonChildren : List (Str × FileTreeNode) → List (Str × Option (HashTree FileRecord))
  | [] => []
  | (name, node) :: children => (name, skeletonNode node) :: skeletonChildren children

end

def skeleton (fileTree : List (Str × FileTreeNode)) : Option (HashTree FileRecord) :=
  (sortOn Prod.fst (skeletonChildren fileTree)).mapM Prod.snd >>= treeOver

def skeletonHash (t : HashTree FileRecord) : Bytes := t.eval (fun r => sha256 r.bytes) combine

def hashedStrings : Option (HashTree FileRecord) → List Bytes
  | none => [[]]
  | some t => t.leaves.map FileRecord.bytes ++
      (t.hashed (fun r => sha256 r.bytes) combine).map (fun p => p.1 ++ p.2)

/-- Two different strings among those that are hashed have one digest. -/
def TreeCollision (s t : Option (HashTree FileRecord)) : Prop :=
  ∃ a ∈ hashedStrings s, ∃ b ∈ hashedStrings t, a ≠ b ∧ sha256 a = sha256 b

def RecordAmbiguity (s t : Option (HashTree FileRecord)) : Prop :=
  ∃ s' t' r p, s = some s' ∧ t = some t' ∧ r ∈ s'.leaves ∧
    p ∈ t'.hashed (fun r => sha256 r.bytes) combine ∧ r.bytes = p.1 ++ p.2

/-- A record as `_hash_file_node` accepts it. -/
def FileRecord.Valid (r : FileRecord) : Prop := r.length < 2 ^ 64 ∧ r.piecesRoot.length = 32

theorem FileRecord.bytes_injective {r s : FileRecord} (hr : r.Valid) (hs : s.Valid)
    (h : r.bytes = s.bytes) : r = s := by
  obtain ⟨hname, hroot⟩ := List.append_inj' h (by rw [hr.2, hs.2])
  obtain ⟨hname, hlength⟩ := List.append_inj' hname (by simp)
  have hlen := bigEndian_injective (k := 8) hr.1 hs.1 hlength
  have hn := utf8Encode_injective hname
  cases r
  cases s
  simp_all

-- The hash is that of the skeleton

/-- A hash that was computed is that of the tree of valid records. -/
def Describes (hash : Except TreeError Bytes) (o : Option (HashTree FileRecord)) : Prop :=
  ∀ b, hash = .ok b → ∃ t, o = some t ∧ skeletonHash t = b ∧ ∀ r ∈ t.leaves, r.Valid

theorem joinHashes_eq_ok {hs : List Bytes} {b : Bytes} (h : joinHashes hs = .ok b) :
    root combine hs = some b := by
  unfold joinHashes at h
  split at h
  · cases h
    rfl
  · split at h
    · next r hr =>
      cases h
      exact hr
    · cases h

theorem describes_mapM {nodes : List (Str × FileTreeNode)}
    {hash : Str × FileTreeNode → Except TreeError Bytes}
    (hnodes : ∀ e ∈ nodes, Describes (hash e) (skeletonNode e.2)) {bs : List Bytes}
    (h : (nodes.map (fun e => (e.1, hash e))).mapM Prod.snd = .ok bs) :
    ∃ ts, (nodes.map (fun e => (e.1, skeletonNode e.2))).mapM Prod.snd = some ts ∧
      ts.map skeletonHash = bs ∧ ∀ t ∈ ts, ∀ r ∈ t.leaves, r.Valid := by
  induction nodes generalizing bs with
  | nil =>
    cases h
    exact ⟨[], rfl, rfl, nofun⟩
  | cons e nodes ih =>
    rw [List.map_cons, List.mapM_cons] at h
    cases hb : hash e with
    | error err =>
      simp only [hb] at h
      cases h
    | ok b =>
      cases hrest : (nodes.map (fun e => (e.1, hash e))).mapM Prod.snd with
      | error err =>
        simp only [hb, hrest] at h
        cases h
      | ok bs' =>
        simp only [hb, hrest] at h
        cases h
        obtain ⟨t, ht, hhash, hvalid⟩ := hnodes e List.mem_cons_self b hb
        obtain ⟨ts, hts, hhashes, hvalids⟩ :=
          ih (fun e' he' => hnodes e' (List.mem_cons_of_mem _ he')) hrest
        refine ⟨t :: ts, ?_, by rw [List.map_cons, hhash, hhashes], ?_⟩
        · rw [List.map_cons, List.mapM_cons, hts]
          simp only [ht]
          rfl
        · exact List.forall_mem_cons.mpr ⟨hvalid, hvalids⟩

/-- The Merkle root over sorted nodes is the hash of the tree over their trees. -/
theorem describes_sorted {nodes : List (Str × FileTreeNode)}
    {hash : Str × FileTreeNode → Except TreeError Bytes}
    (hnodes : ∀ e ∈ nodes, Describes (hash e) (skeletonNode e.2)) :
    Describes (sortedHashes (nodes.map (fun e => (e.1, hash e))) >>= joinHashes)
      ((sortOn Prod.fst (nodes.map (fun e => (e.1, skeletonNode e.2)))).mapM Prod.snd >>=
        treeOver) := by
  intro b h
  have hsorted : ∀ e ∈ sortOn (fun e => e.1) nodes, Describes (hash e) (skeletonNode e.2) :=
    fun e he => hnodes e ((sortOn_perm _ nodes).mem_iff.mp he)
  rw [sortedHashes, sortOn_map] at h
  rw [sortOn_map]
  cases hbs : ((sortOn (fun e => e.1) nodes).map (fun e => (e.1, hash e))).mapM Prod.snd with
  | error err =>
    rw [hbs] at h
    cases h
  | ok bs =>
    rw [hbs] at h
    obtain ⟨ts, hts, rfl, hvalid⟩ := describes_mapM hsorted hbs
    have hroot : root combine (ts.map skeletonHash) = some b := joinHashes_eq_ok h
    have heval := root_eq_eval (fun r : FileRecord => sha256 r.bytes) combine ts
    rw [show ts.map (HashTree.eval (fun r => sha256 r.bytes) combine) =
        ts.map skeletonHash from rfl,
      hroot] at heval
    obtain ⟨t, ht, hb⟩ := Option.map_eq_some_iff.mp heval.symm
    refine ⟨t, by rw [hts]; exact ht, hb, ?_⟩
    intro r hr
    obtain ⟨t', ht', hr'⟩ := mem_leaves_climb (List.mem_of_head? ht) hr
    exact hvalid t' ht' r hr'

theorem hashChildren_eq_map (children : List (Str × FileTreeNode)) :
    hashChildren children =
      children.map (fun e => (e.1, hashNode (.invalidChild e.1) e.2)) := by
  induction children with
  | nil => rfl
  | cons e children ih => rw [hashChildren, ih, List.map_cons]

theorem skeletonChildren_eq_map (children : List (Str × FileTreeNode)) :
    skeletonChildren children = children.map (fun e => (e.1, skeletonNode e.2)) := by
  induction children with
  | nil => rfl
  | cons e children ih => rw [skeletonChildren, ih, List.map_cons]

theorem describes_file (name : Str) (length : Int) (piecesRoot : Bytes) :
    Describes (hashFileNode name length piecesRoot)
      (some (.leaf ⟨name, length.toNat, piecesRoot⟩)) := by
  intro b h
  unfold hashFileNode at h
  split at h
  · cases h
  · next hroot =>
    split at h
    · cases h
    · next hlength =>
      cases h
      refine ⟨_, rfl, rfl, ?_⟩
      intro r hr
      obtain rfl := List.mem_singleton.mp hr
      refine ⟨?_, not_not.mp hroot⟩
      simp only
      omega

mutual

theorem describes_node : ∀ (node : FileTreeNode) (invalid : TreeError),
    Describes (hashNode invalid node) (skeletonNode node)
  | .childless name length (some piecesRoot), _ => describes_file name length piecesRoot
  | .childless _ _ none, _ => by
    rintro b ⟨⟩
  | .withChildren _ _ none children, invalid => by
    rw [hashNode, skeletonNode, hashDirectory, hashChildren_eq_map, skeletonChildren_eq_map]
    intro b h
    split at h
    · cases h
    · split at h
      · cases h
      · exact describes_sorted (fun e he => describes_children children e he _) b h
  | .withChildren _ _ (some _) _, _ => by
    rintro b ⟨⟩

theorem describes_children : ∀ (children : List (Str × FileTreeNode)), ∀ e ∈ children,
    ∀ invalid, Describes (hashNode invalid e.2) (skeletonNode e.2)
  | [], _, he, _ => absurd he List.not_mem_nil
  | (_, node) :: children, e, he, invalid => by
    rcases List.mem_cons.mp he with rfl | he
    · exact describes_node node invalid
    · exact describes_children children e he invalid

end

/-- The hash of a file tree is that of its skeleton, if it has one. -/
theorem hashFileTree_eq_ok {fileTree : List (Str × FileTreeNode)} {b : Bytes}
    (h : hashFileTree fileTree = .ok b) :
    (skeleton fileTree = none ∧ fileTree = [] ∧ b = sha256 []) ∨
      ∃ t, skeleton fileTree = some t ∧ skeletonHash t = b ∧ ∀ r ∈ t.leaves, r.Valid := by
  unfold hashFileTree at h
  split at h
  · next hempty =>
    obtain rfl := List.isEmpty_iff.mp hempty
    cases h
    exact Or.inl ⟨rfl, rfl, rfl⟩
  · right
    rw [skeleton, skeletonChildren_eq_map]
    exact describes_sorted (fun e he => describes_children fileTree e he _) b h

-- Binding

theorem skeletonHash_length (t : HashTree FileRecord) : (skeletonHash t).length = 32 := by
  cases t <;> exact sha256_length _

theorem skeleton_hashed_length {t : HashTree FileRecord} {p : Bytes × Bytes}
    (hp : p ∈ t.hashed (fun r => sha256 r.bytes) combine) :
    p.1.length = 32 ∧ p.2.length = 32 := by
  obtain ⟨q, -, rfl⟩ := List.mem_map.mp hp
  exact ⟨skeletonHash_length q.1, skeletonHash_length q.2⟩

theorem hashedStrings_nonempty {t : HashTree FileRecord} (hvalid : ∀ r ∈ t.leaves, r.Valid)
    {a : Bytes}
    (ha : a ∈ hashedStrings (some t)) : a ≠ [] := by
  rintro rfl
  rcases List.mem_append.mp ha with ha | ha
  · obtain ⟨r, hr, hnil⟩ := List.mem_map.mp ha
    have hlen := congrArg List.length hnil
    rw [FileRecord.bytes, List.length_append, (hvalid r hr).2] at hlen
    simp at hlen
  · obtain ⟨p, hp, hnil⟩ := List.mem_map.mp ha
    have hlen := congrArg List.length hnil
    rw [List.length_append, (skeleton_hashed_length hp).1] at hlen
    simp at hlen

/-- The digest of a tree is that of one of the strings that are hashed for it. -/
theorem skeletonHash_mem (t : HashTree FileRecord) :
    ∃ a ∈ hashedStrings (some t), skeletonHash t = sha256 a := by
  cases t with
  | leaf r => exact ⟨r.bytes, List.mem_cons_self, rfl⟩
  | node l r =>
    refine ⟨_, List.mem_append_right _ (List.mem_map_of_mem (HashTree.mem_hashed_self l r)), rfl⟩

theorem collision_of_clash {s t : HashTree FileRecord} (hs : ∀ r ∈ s.leaves, r.Valid)
    (ht : ∀ r ∈ t.leaves, r.Valid) (h : Clash (fun r => sha256 r.bytes) combine s t) :
    TreeCollision (some s) (some t) ∨ RecordAmbiguity (some s) (some t) ∨
      RecordAmbiguity (some t) (some s) := by
  have hrecord : ∀ {u : HashTree FileRecord} {r}, r ∈ u.leaves → r.bytes ∈ hashedStrings (some u) :=
    fun hr => List.mem_append_left _ (List.mem_map_of_mem hr)
  have hpair : ∀ {u : HashTree FileRecord} {p : Bytes × Bytes},
      p ∈ u.hashed (fun r => sha256 r.bytes) combine → p.1 ++ p.2 ∈ hashedStrings (some u) :=
    fun hp => List.mem_append_right _ (List.mem_map_of_mem hp)
  cases h with
  | leaves a b ha hb hne h =>
    exact Or.inl ⟨_, hrecord ha, _, hrecord hb,
      fun heq => hne (FileRecord.bytes_injective (hs a ha) (ht b hb) heq), h⟩
  | nodes p q hp hq hne h =>
    refine Or.inl ⟨_, hpair hp, _, hpair hq, ?_, h⟩
    intro heq
    obtain ⟨h₁, h₂⟩ := List.append_inj heq
      (by rw [(skeleton_hashed_length hp).1, (skeleton_hashed_length hq).1])
    exact hne (Prod.ext h₁ h₂)
  | leafNode a q ha hq h =>
    by_cases heq : a.bytes = q.1 ++ q.2
    · exact Or.inr (Or.inl ⟨s, t, a, q, rfl, rfl, ha, hq, heq⟩)
    · exact Or.inl ⟨_, hrecord ha, _, hpair hq, heq, h⟩
  | nodeLeaf p b hp hb h =>
    by_cases heq : b.bytes = p.1 ++ p.2
    · exact Or.inr (Or.inr ⟨t, s, b, p, rfl, rfl, hb, hp, heq⟩)
    · exact Or.inl ⟨_, hpair hp, _, hrecord hb, fun h' => heq h'.symm, h⟩

/-- File trees with one hash have one skeleton, unless a collision or a record
that is two digests shows up in what was hashed for them. -/
theorem hashFileTree_binding {x y : List (Str × FileTreeNode)} {b : Bytes}
    (hx : hashFileTree x = .ok b) (hy : hashFileTree y = .ok b) :
    skeleton x = skeleton y ∨ TreeCollision (skeleton x) (skeleton y) ∨
      RecordAmbiguity (skeleton x) (skeleton y) ∨ RecordAmbiguity (skeleton y) (skeleton x) := by
  rcases hashFileTree_eq_ok hx with ⟨hsx, -, hbx⟩ | ⟨s, hsx, hbx, hvx⟩
  · rcases hashFileTree_eq_ok hy with ⟨hsy, -, -⟩ | ⟨t, hsy, hby, hvy⟩
    · exact Or.inl (by rw [hsx, hsy])
    · obtain ⟨a, ha, hhash⟩ := skeletonHash_mem t
      refine Or.inr (Or.inl ?_)
      rw [hsx, hsy]
      refine ⟨[], List.mem_singleton_self _, a, ha, (hashedStrings_nonempty hvy ha).symm, ?_⟩
      rw [← hbx, ← hby, hhash]
  · rcases hashFileTree_eq_ok hy with ⟨hsy, -, hby⟩ | ⟨t, hsy, hby, hvy⟩
    · obtain ⟨a, ha, hhash⟩ := skeletonHash_mem s
      refine Or.inr (Or.inl ?_)
      rw [hsx, hsy]
      refine ⟨a, ha, [], List.mem_singleton_self _, hashedStrings_nonempty hvx ha, ?_⟩
      rw [← hhash, hbx, hby]
    · rw [hsx, hsy]
      rcases eq_or_clash (hbx.trans hby.symm) with rfl | hclash
      · exact Or.inl rfl
      · exact Or.inr (collision_of_clash hvx hvy hclash)

mutual

/-- A file has a pieces root of 32 octets, a directory has length 0 and a child. -/
def wellFormedNode : FileTreeNode → Bool
  | .childless _ _ piecesRoot => piecesRoot.any (fun r => r.length == 32)
  | .withChildren _ length piecesRoot children =>
    length == 0 && piecesRoot.isNone && !children.isEmpty && wellFormed children

/-- The nodes are well formed and stand under their names. -/
def wellFormed : List (Str × FileTreeNode) → Bool
  | [] => true
  | (name, node) :: children => name == node.name && wellFormedNode node && wellFormed children

end

/-- A directory of the given name with one file. -/
def oneFile (directory : Char) : List (Str × FileTreeNode) :=
  [([directory], .withChildren [directory] 0 none
    [(['f'], .childless ['f'] 1 (some zeroHash))])]

private theorem oneFile_hash (directory : Char) : hashFileTree (oneFile directory) =
    .ok (sha256 (FileRecord.bytes ⟨['f'], 1, zeroHash⟩)) := rfl

theorem hashFileTree_binding_oneFile : ∃ b, hashFileTree (oneFile 'a') = .ok b ∧
    hashFileTree (oneFile 'b') = .ok b ∧
    (skeleton (oneFile 'a') = skeleton (oneFile 'b') ∨
      TreeCollision (skeleton (oneFile 'a')) (skeleton (oneFile 'b')) ∨
      RecordAmbiguity (skeleton (oneFile 'a')) (skeleton (oneFile 'b')) ∨
      RecordAmbiguity (skeleton (oneFile 'b')) (skeleton (oneFile 'a'))) :=
  ⟨_, oneFile_hash 'a', oneFile_hash 'b',
    hashFileTree_binding (oneFile_hash 'a') (oneFile_hash 'b')⟩

/-- A directory can be renamed without a change of the hash and without a
collision. -/
theorem hashFileTree_not_binding :
    wellFormed (oneFile 'a') = true ∧ wellFormed (oneFile 'b') = true ∧
      hashFileTree (oneFile 'a') = hashFileTree (oneFile 'b') ∧
      (hashFileTree (oneFile 'a')).isOk = true ∧ oneFile 'a' ≠ oneFile 'b' ∧
      ¬TreeCollision (skeleton (oneFile 'a')) (skeleton (oneFile 'b')) := by
  refine ⟨by decide, by decide, ?_, by rw [oneFile_hash]; rfl, ?_, ?_⟩
  · rw [oneFile_hash, oneFile_hash]
  · intro h
    have hname := congrArg (List.map Prod.fst) h
    exact absurd hname (by decide)
  · have hstrings : ∀ directory, hashedStrings (skeleton (oneFile directory)) =
        [FileRecord.bytes ⟨['f'], 1, zeroHash⟩] := fun _ => rfl
    rintro ⟨a, ha, b, hb, hne, -⟩
    rw [hstrings, List.mem_singleton] at ha hb
    exact hne (ha.trans hb.symm)

end HashV2

end Ccbt
