import Ccbt.Python.Bytes
import Ccbt.Python.Dict
import Mathlib.Data.Finset.Sort
import Mathlib.Data.List.Induction

/-!
# Counting and grouping in a dictionary

A counter (`collections.Counter`) is a dictionary of integers that counts an absent key as zero.
The loop of grouping files each value under its key, with a new empty list for a key that is seen
for the first time. Every group holds the values of its key in the order in which they came.
-/

namespace Python

section Counter

variable {κ : Type*} [DecidableEq κ]

abbrev Counter (κ : Type*) [DecidableEq κ] := Dict κ Int

namespace Counter

def count (c : Counter κ) (k : κ) : Int := (c.get? k).getD 0

def add (n : Int) (c : Counter κ) (k : κ) : Counter κ := c.set k (c.count k + n)

def mostCommon (n : Nat) (c : Counter κ) : Counter κ :=
  ⟨(sortOn (fun e => -e.2) c.entries).take n,
    ((List.take_sublist n _).map Prod.fst).nodup
      (((sortOn_perm _ c.entries).map Prod.fst).nodup_iff.mpr c.nodup_keys)⟩

@[simp] theorem count_empty (k : κ) : count (.empty : Counter κ) k = 0 := rfl

theorem count_set (c : Counter κ) (k j : κ) (n : Int) :
    count (c.set k n) j = if j = k then n else c.count j := by
  rw [count, Dict.get?_set]
  split <;> rfl

theorem count_add (n : Int) (c : Counter κ) (k j : κ) :
    count (c.add n k) j = c.count j + if j = k then n else 0 := by
  rw [add, count_set]
  split
  · next h => rw [h]
  · rw [Int.add_zero]

theorem count_erase (c : Counter κ) (k j : κ) :
    count (c.erase k) j = if j = k then 0 else c.count j := by
  rw [count, Dict.get?_erase]
  split <;> rfl

/-- Adding once for each item of a list without repetitions. -/
theorem count_foldl_add (n : Int) {l : List κ} (hl : l.Nodup) (c : Counter κ) (j : κ) :
    count (l.foldl (add n) c) j = c.count j + if j ∈ l then n else 0 := by
  induction l generalizing c with
  | nil => simp
  | cons k l ih =>
    obtain ⟨hk, hl⟩ := List.nodup_cons.mp hl
    rw [List.foldl_cons, ih hl, count_add, Int.add_assoc]
    congr 1
    by_cases hj : j = k
    · rw [if_pos hj, if_neg (hj ▸ hk), if_pos (List.mem_cons.mpr (.inl hj)), Int.add_zero]
    · rw [if_neg hj, Int.zero_add]
      simp only [List.mem_cons, hj, false_or]

end Counter

end Counter

section Group

variable {κ ν : Type*} [DecidableEq κ]

/-- `d.setdefault(k, []).append(v)` on a bare entry list. -/
def appendEntry (k : κ) (v : ν) : List (κ × List ν) → List (κ × List ν)
  | [] => [(k, [v])]
  | (k', vs) :: d => if k' = k then (k', vs ++ [v]) :: d else (k', vs) :: appendEntry k v d

/-- The groups of a list of keyed values. -/
def group (l : List (κ × ν)) : List (κ × List ν) := l.foldl (fun d e => appendEntry e.1 e.2 d) []

@[simp] theorem group_nil : group ([] : List (κ × ν)) = [] := rfl

theorem group_append_singleton (l : List (κ × ν)) (e : κ × ν) :
    group (l ++ [e]) = appendEntry e.1 e.2 (group l) := by
  rw [group, List.foldl_append]
  rfl

theorem keys_appendEntry (k : κ) (v : ν) (d : List (κ × List ν)) :
    (appendEntry k v d).map Prod.fst =
      if k ∈ d.map Prod.fst then d.map Prod.fst else d.map Prod.fst ++ [k] := by
  induction d with
  | nil => simp [appendEntry]
  | cons e d ih =>
    by_cases hk : e.1 = k
    · simp [appendEntry, hk]
    · have hk' : ¬k = e.1 := fun h => hk h.symm
      simp only [appendEntry, if_neg hk, List.map_cons, ih, List.mem_cons, hk', false_or]
      split <;> simp

theorem nodup_keys_group (l : List (κ × ν)) : ((group l).map Prod.fst).Nodup := by
  induction l using List.reverseRecOn with
  | nil => exact List.nodup_nil
  | append_singleton l e ih =>
    rw [group_append_singleton, keys_appendEntry]
    split
    · exact ih
    · next hk =>
      exact List.nodup_append.mpr ⟨ih, List.nodup_singleton _, fun a ha b hb hab =>
        hk (by rwa [← List.mem_singleton.mp hb, ← hab])⟩

theorem mem_keys_group {l : List (κ × ν)} {k : κ} :
    k ∈ (group l).map Prod.fst ↔ k ∈ l.map Prod.fst := by
  induction l using List.reverseRecOn with
  | nil => rfl
  | append_singleton l e ih =>
    rw [group_append_singleton, keys_appendEntry, List.map_append, List.mem_append, ← ih]
    split
    · next hk =>
      refine ⟨Or.inl, fun h => h.elim id (fun h => ?_)⟩
      rwa [List.mem_singleton.mp h]
    · rw [List.mem_append]
      rfl

/-- The entries of the dictionary after a value has been filed. -/
theorem mem_appendEntry {k k' : κ} {v : ν} {vs : List ν} {d : List (κ × List ν)}
    (hd : (d.map Prod.fst).Nodup) (h : (k', vs) ∈ appendEntry k v d) :
    (k' ≠ k ∧ (k', vs) ∈ d) ∨ (k' = k ∧ ((∃ old, (k, old) ∈ d ∧ vs = old ++ [v]) ∨
      (k ∉ d.map Prod.fst ∧ vs = [v]))) := by
  induction d with
  | nil =>
    obtain ⟨rfl, rfl⟩ := Prod.mk.inj (List.mem_singleton.mp h)
    exact Or.inr ⟨rfl, Or.inr ⟨List.not_mem_nil, rfl⟩⟩
  | cons e d ih =>
    obtain ⟨j, old⟩ := e
    rw [List.map_cons, List.nodup_cons] at hd
    rw [appendEntry] at h
    split at h
    · next hk =>
      obtain rfl : j = k := hk
      obtain h | hmem := List.mem_cons.mp h
      · obtain ⟨rfl, rfl⟩ := Prod.mk.inj h
        exact Or.inr ⟨rfl, Or.inl ⟨old, List.mem_cons_self, rfl⟩⟩
      · refine Or.inl ⟨?_, List.mem_cons_of_mem _ hmem⟩
        rintro rfl
        exact hd.1 (List.mem_map.mpr ⟨_, hmem, rfl⟩)
    · next hk =>
      obtain h | h := List.mem_cons.mp h
      · obtain ⟨rfl, rfl⟩ := Prod.mk.inj h
        exact Or.inl ⟨hk, List.mem_cons_self⟩
      · obtain ⟨hne, hmem⟩ | ⟨rfl, ⟨old', hmem, rfl⟩ | ⟨hnot, rfl⟩⟩ := ih hd.2 h
        · exact Or.inl ⟨hne, List.mem_cons_of_mem _ hmem⟩
        · exact Or.inr ⟨rfl, Or.inl ⟨old', List.mem_cons_of_mem _ hmem, rfl⟩⟩
        · refine Or.inr ⟨rfl, Or.inr ⟨?_, rfl⟩⟩
          rw [List.map_cons, List.mem_cons, not_or]
          exact ⟨fun h => hk h.symm, hnot⟩

/-- A group holds the values of its key, in order. -/
theorem mem_group {l : List (κ × ν)} {k : κ} {vs : List ν} (h : (k, vs) ∈ group l) :
    vs = (l.filter (fun e => e.1 = k)).map Prod.snd := by
  induction l using List.reverseRecOn generalizing vs with
  | nil => exact absurd h List.not_mem_nil
  | append_singleton l e ih =>
    rw [group_append_singleton] at h
    rw [List.filter_append, List.map_append]
    obtain ⟨hne, hmem⟩ | ⟨rfl, ⟨old, hmem, rfl⟩ | ⟨hnot, rfl⟩⟩ :=
      mem_appendEntry (nodup_keys_group l) h
    · rw [ih hmem, List.filter_cons_of_neg (by simpa using Ne.symm hne)]
      simp
    · rw [ih hmem, List.filter_cons_of_pos (by simp)]
      rfl
    · have hnone : l.filter (fun e' => e'.1 = e.1) = [] := by
        rw [List.filter_eq_nil_iff]
        intro e' he' heq
        exact hnot (mem_keys_group.mpr (List.mem_map.mpr ⟨e', he', by simpa using heq⟩))
      rw [hnone, List.filter_cons_of_pos (by simp)]
      rfl

/-- The keyed values of a dictionary of lists. -/
def ungroup (d : List (κ × List ν)) : List (κ × ν) :=
  d.flatMap (fun e => e.2.map (fun v => (e.1, v)))

theorem ungroup_appendEntry (k : κ) (v : ν) (d : List (κ × List ν)) :
    (ungroup (appendEntry k v d)).Perm (ungroup d ++ [(k, v)]) := by
  induction d with
  | nil => rfl
  | cons e d ih =>
    obtain ⟨j, old⟩ := e
    rw [appendEntry]
    split
    · next hk =>
      subst hk
      simp only [ungroup, List.flatMap_cons, List.map_append, List.map_cons, List.map_nil,
        List.append_assoc]
      exact List.perm_append_comm.append_left _
    · simp only [ungroup, List.flatMap_cons, List.append_assoc]
      exact ih.append_left _

/-- Grouping loses and repeats nothing. -/
theorem ungroup_group (l : List (κ × ν)) : (ungroup (group l)).Perm l := by
  induction l using List.reverseRecOn with
  | nil => rfl
  | append_singleton l e ih =>
    rw [group_append_singleton]
    exact (ungroup_appendEntry e.1 e.2 (group l)).trans (ih.append_right _)

theorem appendEntry_map {μ : Type*} (f : ν → μ) (k : κ) (v : ν)
    (d : List (κ × List ν)) : appendEntry k (f v) (d.map (fun e => (e.1, e.2.map f))) =
      (appendEntry k v d).map (fun e => (e.1, e.2.map f)) := by
  induction d with
  | nil => rfl
  | cons e d ih =>
    rw [List.map_cons, appendEntry, appendEntry]
    split
    · simp
    · rw [ih, List.map_cons]

theorem group_map {μ : Type*} (f : ν → μ) (l : List (κ × ν)) :
    group (l.map (fun e => (e.1, f e.2))) = (group l).map (fun e => (e.1, e.2.map f)) := by
  induction l using List.reverseRecOn with
  | nil => rfl
  | append_singleton l e ih =>
    rw [List.map_append, List.map_singleton, group_append_singleton, group_append_singleton, ih]
    exact appendEntry_map f e.1 e.2 (group l)

theorem ne_nil_of_mem_group {l : List (κ × ν)} {k : κ} {vs : List ν} (h : (k, vs) ∈ group l) :
    vs ≠ [] := by
  obtain ⟨e, he, rfl⟩ := List.mem_map.mp (mem_keys_group.mp (List.mem_map_of_mem h))
  rw [mem_group h]
  intro hnil
  have hmem : e ∈ l.filter (fun e' => e'.1 = e.1) := List.mem_filter.mpr ⟨he, by simp⟩
  rw [List.map_eq_nil_iff.mp hnil] at hmem
  exact List.not_mem_nil hmem

theorem mem_of_mem_group {l : List (κ × ν)} {k : κ} {vs : List ν} (h : (k, vs) ∈ group l) {v : ν}
    (hv : v ∈ vs) : (k, v) ∈ l := by
  rw [mem_group h] at hv
  obtain ⟨e, he, rfl⟩ := List.mem_map.mp hv
  obtain ⟨hmem, hk⟩ := List.mem_filter.mp he
  obtain rfl : e.1 = k := by simpa using hk
  exact hmem

-- Lists that are made item by item

theorem forall₂_filterMap {α β : Type*} {f : α → Option β} {Q : α → β → Prop} {l : List α}
    (h : ∀ a ∈ l, ∃ b, f a = some b ∧ Q a b) : List.Forall₂ Q l (l.filterMap f) := by
  induction l with
  | nil => exact .nil
  | cons a l ih =>
    obtain ⟨b, hb, hq⟩ := h a List.mem_cons_self
    rw [List.filterMap_cons_some hb]
    exact .cons hq (ih (fun a' ha' => h a' (List.mem_cons_of_mem _ ha')))

theorem map_eq_of_forall₂ {α β γ : Type*} {f : α → γ} {g : β → γ} {l : List α} {m : List β}
    (h : List.Forall₂ (fun a b => g b = f a) l m) : m.map g = l.map f := by
  induction h with
  | nil => rfl
  | cons hab _ ih => rw [List.map_cons, List.map_cons, hab, ih]

theorem flatMap_perm_of_forall₂ {α β γ : Type*} {f : α → List γ} {g : β → List γ} {l : List α}
    {m : List β} (h : List.Forall₂ (fun a b => (f a).Perm (g b)) l m) :
    (l.flatMap f).Perm (m.flatMap g) := by
  induction h with
  | nil => rfl
  | cons hab _ ih =>
    rw [List.flatMap_cons, List.flatMap_cons]
    exact hab.append ih

end Group

end Python
