import Mathlib.Data.List.Nodup
import Mathlib.Data.List.Lookmap
import Ccbt.Python.Bytes

/-!
# Python dictionaries

A `dict` is its list of entries in insertion order. Storing under a present key
replaces the value in place; a new key goes to the end. `Dict` carries the proof
that no key occurs twice; `setEntry` and `List.lookup` are the same operations
on bare entry lists, for values whose entries are nested inside them.
-/

namespace Python

variable {κ ν : Type*} [DecidableEq κ]

/-- `d[k] = v` on a bare entry list. -/
def setEntry (k : κ) (v : ν) : List (κ × ν) → List (κ × ν)
  | [] => [(k, v)]
  | (k', v') :: d => if k' = k then (k, v) :: d else (k', v') :: setEntry k v d

theorem setEntry_of_notMem {k : κ} {v : ν} {d : List (κ × ν)} (h : k ∉ d.map Prod.fst) :
    setEntry k v d = d ++ [(k, v)] := by
  induction d with
  | nil => rfl
  | cons e d ih =>
    simp only [List.map_cons, List.mem_cons, not_or] at h
    rw [setEntry, if_neg (Ne.symm h.1), ih h.2, List.cons_append]

theorem keys_setEntry (k : κ) (v : ν) (d : List (κ × ν)) :
    (setEntry k v d).map Prod.fst =
      if k ∈ d.map Prod.fst then d.map Prod.fst else d.map Prod.fst ++ [k] := by
  induction d with
  | nil => simp [setEntry]
  | cons e d ih =>
    by_cases hk : e.1 = k
    · simp [setEntry, hk]
    · have hk' : ¬k = e.1 := fun h => hk h.symm
      simp only [setEntry, if_neg hk, List.map_cons, ih, List.mem_cons, hk', false_or]
      split <;> simp

theorem nodup_keys_setEntry {k : κ} {v : ν} {d : List (κ × ν)} (h : (d.map Prod.fst).Nodup) :
    ((setEntry k v d).map Prod.fst).Nodup := by
  rw [keys_setEntry]
  split
  · exact h
  · next hk => exact List.nodup_append.mpr ⟨h, List.nodup_singleton k, by
      rintro a ha b hb rfl
      exact hk ((List.mem_singleton.mp hb) ▸ ha)⟩

theorem lookup_setEntry_self (k : κ) (v : ν) (d : List (κ × ν)) :
    (setEntry k v d).lookup k = some v := by
  induction d with
  | nil => simp [setEntry]
  | cons e d ih =>
    by_cases hk : e.1 = k
    · simp [setEntry, hk]
    · have hk' : (k == e.1) = false := beq_false_of_ne (fun h => hk h.symm)
      rw [setEntry, if_neg hk, List.lookup_cons, hk']
      exact ih

theorem lookup_setEntry_ne {k j : κ} (h : j ≠ k) (v : ν) (d : List (κ × ν)) :
    (setEntry k v d).lookup j = d.lookup j := by
  induction d with
  | nil => simp [setEntry, List.lookup_cons, beq_false_of_ne h]
  | cons e d ih =>
    by_cases hk : e.1 = k
    · have hj : (j == e.1) = false := beq_false_of_ne (fun he => h (he.trans hk))
      rw [setEntry, if_pos hk, List.lookup_cons, List.lookup_cons, beq_false_of_ne h, hj]
    · rw [setEntry, if_neg hk, List.lookup_cons, List.lookup_cons, ih]

/-- Storing the old value again undoes a store. -/
theorem setEntry_setEntry {k : κ} {v w : ν} {d : List (κ × ν)}
    (h : d.lookup k = some v) : setEntry k v (setEntry k w d) = d := by
  induction d with
  | nil => exact absurd h (by simp)
  | cons e d ih =>
    by_cases hk : e.1 = k
    · have hv : e.2 = v := by
        rw [List.lookup_cons, hk, beq_self_eq_true] at h
        exact Option.some.inj h
      rw [setEntry, if_pos hk, setEntry, if_pos rfl, ← hk, ← hv]
    · have hd : d.lookup k = some v := by
        rwa [List.lookup_cons, beq_false_of_ne (Ne.symm hk)] at h
      rw [setEntry, if_neg hk, setEntry, if_neg hk, ih hd]

/-- Entries survive a store under another key, and every entry afterwards is an
old one or the new one. -/
theorem mem_setEntry {k : κ} {v : ν} {d : List (κ × ν)} {e : κ × ν} (h : e ∈ setEntry k v d) :
    e = (k, v) ∨ e ∈ d := by
  induction d with
  | nil => exact Or.inl (List.mem_singleton.mp h)
  | cons e' d ih =>
    by_cases hk : e'.1 = k
    · rw [setEntry, if_pos hk] at h
      rcases List.mem_cons.mp h with rfl | h
      · exact Or.inl rfl
      · exact Or.inr (List.mem_cons_of_mem _ h)
    · rw [setEntry, if_neg hk] at h
      rcases List.mem_cons.mp h with rfl | h
      · exact Or.inr List.mem_cons_self
      · exact (ih h).imp_right (List.mem_cons_of_mem _)

/-- What a store adds to a sum over the values, and what it takes away. -/
theorem sum_setEntry (f : ν → Nat) (k : κ) (v : ν) (d : List (κ × ν)) :
    ((setEntry k v d).map fun e => f e.2).sum + ((d.lookup k).map f).getD 0 =
      (d.map fun e => f e.2).sum + f v := by
  induction d with
  | nil => simp [setEntry]
  | cons e d ih =>
    by_cases hk : e.1 = k
    · have hlookup : (e :: d).lookup k = some e.2 := by
        rw [List.lookup_cons, hk, beq_self_eq_true]
      rw [setEntry, if_pos hk, hlookup, List.map_cons, List.map_cons, List.sum_cons, List.sum_cons,
        Option.map_some, Option.getD_some]
      dsimp only
      omega
    · have hlookup : (e :: d).lookup k = d.lookup k := by
        rw [List.lookup_cons, beq_false_of_ne (Ne.symm hk)]
      rw [setEntry, if_neg hk, hlookup, List.map_cons, List.map_cons, List.sum_cons, List.sum_cons]
      dsimp only
      omega

omit [DecidableEq κ] in
/-- The next one of distinct keys is none of those before it. -/
theorem notMem_of_nodup_append {l m : List κ} {k : κ} (h : (l ++ [k] ++ m).Nodup) : k ∉ l := by
  intro hmem
  have hnodup := (List.nodup_append.mp h).1
  exact (List.nodup_append.mp hnodup).2.2 _ hmem _ (List.mem_singleton_self _) rfl

/-- Storing entries under distinct new keys appends them. -/
theorem foldl_setEntry_eq_append {es d : List (κ × ν)} (h : ((d ++ es).map Prod.fst).Nodup) :
    es.foldl (fun d e => setEntry e.1 e.2 d) d = d ++ es := by
  induction es generalizing d with
  | nil => simp
  | cons e es ih =>
    have hfresh : e.1 ∉ d.map Prod.fst := by
      intro hmem
      rw [List.map_append, List.map_cons, List.nodup_append] at h
      exact h.2.2 _ hmem _ List.mem_cons_self rfl
    rw [List.foldl_cons, setEntry_of_notMem hfresh, ih, List.append_assoc, List.singleton_append]
    rwa [List.append_assoc, List.singleton_append]

/-- Looking a key up finds its entry when no key occurs twice. -/
theorem lookup_eq_some_iff {k : κ} {v : ν} {d : List (κ × ν)} (h : (d.map Prod.fst).Nodup) :
    d.lookup k = some v ↔ (k, v) ∈ d := by
  induction d with
  | nil => simp
  | cons e d ih =>
    obtain ⟨k', v'⟩ := e
    simp only [List.map_cons, List.nodup_cons] at h
    by_cases hk : k = k'
    · subst hk
      have hno : (k, v) ∉ d := fun hm => h.1 (List.mem_map_of_mem (f := Prod.fst) hm)
      simp [hno, eq_comm]
    · rw [List.lookup_cons, beq_false_of_ne hk]
      simp [ih h.2, hk]

theorem lookup_eq_none_iff {k : κ} {d : List (κ × ν)} :
    d.lookup k = none ↔ k ∉ d.map Prod.fst := by
  induction d with
  | nil => simp
  | cons e d ih =>
    by_cases hk : k = e.1
    · simp [hk]
    · rw [List.lookup_cons, beq_false_of_ne hk]
      simp only [ih, List.map_cons, List.mem_cons, not_or]
      exact ⟨fun h => ⟨hk, h⟩, fun h => h.2⟩

/-- What taking an entry out takes away from a sum over the values. -/
theorem sum_filter_entries (f : ν → Nat) (k : κ) {d : List (κ × ν)} (h : (d.map Prod.fst).Nodup) :
    ((d.filter fun e => e.1 ≠ k).map fun e => f e.2).sum + ((d.lookup k).map f).getD 0 =
      (d.map fun e => f e.2).sum := by
  induction d with
  | nil => rfl
  | cons e d ih =>
    obtain ⟨he, hd⟩ := List.nodup_cons.mp h
    by_cases hk : e.1 = k
    · have hlookup : (e :: d).lookup k = some e.2 := by
        rw [List.lookup_cons, hk, beq_self_eq_true]
      have hrest : d.filter (fun e' => e'.1 ≠ k) = d := by
        rw [List.filter_eq_self]
        intro e' he'
        rw [decide_eq_true_eq]
        rintro rfl
        exact he (hk ▸ List.mem_map_of_mem he')
      rw [List.filter_cons_of_neg (by simpa using hk), hrest, hlookup, List.map_cons,
        List.sum_cons, Option.map_some, Option.getD_some, Nat.add_comm]
    · have hlookup : (e :: d).lookup k = d.lookup k := by
        rw [List.lookup_cons, beq_false_of_ne (Ne.symm hk)]
      rw [List.filter_cons_of_pos (by simpa using hk), hlookup, List.map_cons, List.map_cons,
        List.sum_cons, List.sum_cons, Nat.add_assoc, ih hd]

/-- Looking up in a dictionary whose values have been mapped. -/
theorem lookup_map_values {μ : Type*} (f : ν → μ) (d : List (κ × ν)) (k : κ) :
    (d.map (fun e => (e.1, f e.2))).lookup k = (d.lookup k).map f := by
  induction d with
  | nil => rfl
  | cons e d ih =>
    rw [List.map_cons, List.lookup_cons, List.lookup_cons, ih]
    cases k == e.1 <;> rfl

/-- The same, where what becomes of a value depends on its key. -/
theorem lookup_map_entries {μ : Type*} (f : κ → ν → μ) (d : List (κ × ν)) (k : κ) :
    (d.map fun e => (e.1, f e.1 e.2)).lookup k = (d.lookup k).map (f k) := by
  induction d with
  | nil => rfl
  | cons e d ih =>
    rw [List.map_cons, List.lookup_cons, List.lookup_cons, ih]
    by_cases hk : k = e.1
    · subst hk
      simp
    · rw [beq_false_of_ne hk]

/-- The order of the entries does not matter to a lookup. -/
theorem lookup_perm {d₁ d₂ : List (κ × ν)} (hp : d₁.Perm d₂) (h : (d₁.map Prod.fst).Nodup)
    (k : κ) : d₁.lookup k = d₂.lookup k := by
  have h₂ : (d₂.map Prod.fst).Nodup := (hp.map Prod.fst).nodup_iff.mp h
  ext v
  rw [lookup_eq_some_iff h, lookup_eq_some_iff h₂, hp.mem_iff]

/-- `for k, v in es: if k not in d: d[k] = v`. -/
def setMissing (d es : List (κ × ν)) : List (κ × ν) :=
  es.foldl (fun d e => if e.1 ∈ d.map Prod.fst then d else setEntry e.1 e.2 d) d

theorem setMissing_eq {d es : List (κ × ν)} (h : (es.map Prod.fst).Nodup) :
    setMissing d es = d ++ es.filter fun e => e.1 ∉ d.map Prod.fst := by
  induction es generalizing d with
  | nil => simp [setMissing]
  | cons e es ih =>
    obtain ⟨he, hes⟩ := List.nodup_cons.mp h
    rw [setMissing, List.foldl_cons]
    by_cases hmem : e.1 ∈ d.map Prod.fst
    · rw [if_pos hmem, List.filter_cons_of_neg (by simpa using hmem)]
      exact ih hes
    · rw [if_neg hmem, setEntry_of_notMem hmem, List.filter_cons_of_pos (by simpa using hmem)]
      have hrest : es.filter (fun e' => e'.1 ∉ (d ++ [(e.1, e.2)]).map Prod.fst) =
          es.filter fun e' => e'.1 ∉ d.map Prod.fst := by
        refine List.filter_congr fun e' he' => ?_
        have hne : e'.1 ≠ e.1 := fun heq => he (heq ▸ List.mem_map_of_mem he')
        simp [hne]
      change setMissing (d ++ [(e.1, e.2)]) es = _
      rw [ih hes, hrest, List.append_assoc, List.singleton_append]

/-- What is missing is looked up among the other entries. -/
theorem lookup_setMissing {d es : List (κ × ν)} (h : (es.map Prod.fst).Nodup) (k : κ) :
    (setMissing d es).lookup k = (d.lookup k).or (es.lookup k) := by
  rw [setMissing_eq h, List.lookup_append]
  by_cases hk : k ∈ d.map Prod.fst
  · obtain ⟨v, hv⟩ := Option.ne_none_iff_exists'.mp (mt lookup_eq_none_iff.mp (not_not.mpr hk))
    rw [hv, Option.some_or, Option.some_or]
  · rw [lookup_eq_none_iff.mpr hk, Option.none_or, Option.none_or]
    have hfilter : ((es.filter fun e => e.1 ∉ d.map Prod.fst).map Prod.fst).Nodup :=
      (List.filter_sublist.map Prod.fst).nodup h
    ext v
    rw [lookup_eq_some_iff hfilter, lookup_eq_some_iff h, List.mem_filter]
    simp only [decide_eq_true_eq, and_iff_left_iff_imp]
    exact fun _ => hk

/-- Nothing is added to the other entries exactly if all keys are among theirs. -/
theorem length_setMissing_iff {d es : List (κ × ν)} (hd : (d.map Prod.fst).Nodup)
    (h : (es.map Prod.fst).Nodup) : (setMissing d es).length = es.length ↔
      ∀ e ∈ d, e.1 ∈ es.map Prod.fst := by
  have hcommon : ((es.map Prod.fst).filter fun k => k ∈ d.map Prod.fst).Perm
      ((d.map Prod.fst).filter fun k => k ∈ es.map Prod.fst) := by
    refine (List.perm_ext_iff_of_nodup (h.filter _) (hd.filter _)).mpr fun k => ?_
    simp only [List.mem_filter, decide_eq_true_eq]
    exact and_comm
  have hsplit : es.length = (es.filter fun e => e.1 ∉ d.map Prod.fst).length +
      ((es.map Prod.fst).filter fun k => k ∈ d.map Prod.fst).length := by
    rw [List.filter_map, List.length_map, List.length_eq_length_filter_add
      (fun e : κ × ν => decide (e.1 ∈ d.map Prod.fst)), Nat.add_comm]
    congr 2
    refine List.filter_congr fun e _ => ?_
    simp
  have hall : ((d.map Prod.fst).filter fun k => k ∈ es.map Prod.fst).length = d.length ↔
      ∀ e ∈ d, e.1 ∈ es.map Prod.fst := by
    rw [← List.length_map Prod.fst, List.length_filter_eq_length_iff, List.forall_mem_map]
    simp only [decide_eq_true_eq]
  rw [setMissing_eq h, List.length_append, ← hall, ← hcommon.length_eq]
  omega

/-- A Python dictionary: its entries in insertion order. -/
structure Dict (κ ν : Type*) [DecidableEq κ] where
  entries : List (κ × ν)
  nodup_keys : (entries.map Prod.fst).Nodup

namespace Dict

def empty : Dict κ ν := ⟨[], List.nodup_nil⟩

def get? (d : Dict κ ν) (k : κ) : Option ν := d.entries.lookup k

def set (d : Dict κ ν) (k : κ) (v : ν) : Dict κ ν :=
  ⟨setEntry k v d.entries, nodup_keys_setEntry d.nodup_keys⟩

def erase (d : Dict κ ν) (k : κ) : Dict κ ν :=
  ⟨d.entries.filter (fun e => e.1 ≠ k),
    (List.filter_sublist.map Prod.fst).nodup d.nodup_keys⟩

/-- `d[k] = f(d[k])` for every key. -/
def mapValues {μ : Type*} (d : Dict κ ν) (f : ν → μ) : Dict κ μ :=
  ⟨d.entries.map fun e => (e.1, f e.2), by
    rw [List.map_map]
    exact d.nodup_keys⟩

def keys (d : Dict κ ν) : List κ := d.entries.map Prod.fst

def values (d : Dict κ ν) : List ν := d.entries.map Prod.snd

def contains (d : Dict κ ν) (k : κ) : Bool := (d.get? k).isSome

def size (d : Dict κ ν) : Nat := d.entries.length

@[simp] theorem get?_empty (k : κ) : (empty : Dict κ ν).get? k = none := rfl

@[simp] theorem get?_set_self (d : Dict κ ν) (k : κ) (v : ν) : (d.set k v).get? k = some v :=
  lookup_setEntry_self k v d.entries

theorem get?_set_ne (d : Dict κ ν) {k j : κ} (h : j ≠ k) (v : ν) :
    (d.set k v).get? j = d.get? j :=
  lookup_setEntry_ne h v d.entries

theorem get?_set (d : Dict κ ν) (k j : κ) (v : ν) :
    (d.set k v).get? j = if j = k then some v else d.get? j := by
  split
  · next h => rw [h, get?_set_self]
  · next h => exact get?_set_ne d h v

@[simp] theorem get?_mapValues {μ : Type*} (d : Dict κ ν) (f : ν → μ) (k : κ) :
    (d.mapValues f).get? k = (d.get? k).map f :=
  lookup_map_values f d.entries k

theorem sum_values_set (f : ν → Nat) (d : Dict κ ν) (k : κ) (v : ν) :
    ((d.set k v).values.map f).sum + ((d.get? k).map f).getD 0 =
      (d.values.map f).sum + f v := by
  rw [values, values, List.map_map, List.map_map]
  exact sum_setEntry f k v d.entries

theorem sum_values_erase (f : ν → Nat) (d : Dict κ ν) (k : κ) :
    ((d.erase k).values.map f).sum + ((d.get? k).map f).getD 0 = (d.values.map f).sum := by
  rw [values, values, List.map_map, List.map_map]
  exact sum_filter_entries f k d.nodup_keys

theorem get?_eq_some_iff (d : Dict κ ν) {k : κ} {v : ν} :
    d.get? k = some v ↔ (k, v) ∈ d.entries :=
  lookup_eq_some_iff d.nodup_keys

theorem get?_erase (d : Dict κ ν) (k j : κ) :
    (d.erase k).get? j = if j = k then none else d.get? j := by
  split
  · next h =>
    rw [h]
    exact lookup_eq_none_iff.mpr (by simp [erase])
  · next h =>
    ext v
    rw [get?_eq_some_iff, get?_eq_some_iff]
    simp [erase, h]

theorem size_erase_lt (d : Dict κ ν) {k : κ} {v : ν} (h : d.get? k = some v) :
    (d.erase k).size < d.size := by
  have hmem : (k, v) ∈ d.entries := (get?_eq_some_iff d).mp h
  exact List.length_filter_lt_length_iff_exists.mpr ⟨(k, v), hmem, by simp⟩

theorem size_eq_sum (d : Dict κ ν) : d.size = (d.values.map fun _ => 1).sum := by
  have hones : (d.entries.map fun _ => 1).sum = d.entries.length := by
    rw [List.map_const', List.sum_replicate_nat, Nat.mul_one]
  rw [size, values, List.map_map]
  exact hones.symm

theorem size_set (d : Dict κ ν) (k : κ) (v : ν) :
    (d.set k v).size + (if d.contains k then 1 else 0) = d.size + 1 := by
  have h := sum_values_set (fun _ => 1) d k v
  rw [← size_eq_sum, ← size_eq_sum] at h
  rw [← h, contains]
  cases d.get? k with
  | none => rfl
  | some _ => rfl

theorem size_erase (d : Dict κ ν) (k : κ) :
    (d.erase k).size + (if d.contains k then 1 else 0) = d.size := by
  have h := sum_values_erase (fun _ => 1) d k
  rw [← size_eq_sum, ← size_eq_sum] at h
  rw [← h, contains]
  cases d.get? k with
  | none => rfl
  | some _ => rfl

theorem erase_eq_self_iff (d : Dict κ ν) {k : κ} : d.erase k = d ↔ d.get? k = none := by
  constructor
  · intro h
    have := d.get?_erase k k
    rwa [h, if_pos rfl] at this
  · intro h
    have hentries : (d.erase k).entries = d.entries := by
      rw [erase, List.filter_eq_self]
      intro e he
      have : e.1 ≠ k := by
        rintro rfl
        exact lookup_eq_none_iff.mp h (List.mem_map_of_mem he)
      simpa using this
    cases d
    simpa [erase] using hentries

theorem get?_foldl_erase (l : List κ) (d : Dict κ ν) (k : κ) :
    (l.foldl erase d).get? k = if k ∈ l then none else d.get? k := by
  induction l generalizing d with
  | nil => simp
  | cons j l ih =>
    rw [List.foldl_cons, ih, get?_erase]
    by_cases hk : k = j
    · simp [hk]
    · simp [hk]

theorem size_foldl_erase {l : List κ} (hl : l.Nodup) {d : Dict κ ν} (h : ∀ k ∈ l, d.contains k) :
    (l.foldl erase d).size + l.length = d.size := by
  induction l generalizing d with
  | nil => rfl
  | cons k l ih =>
    obtain ⟨hk, hl⟩ := List.nodup_cons.mp hl
    have hrest (j : κ) (hj : j ∈ l) : (d.erase k).contains j := by
      have hne : j ≠ k := fun hjk => hk (hjk ▸ hj)
      rw [contains, get?_erase, if_neg hne]
      exact h j (List.mem_cons_of_mem k hj)
    have hsize := size_erase d k
    rw [if_pos (h k List.mem_cons_self)] at hsize
    rw [List.foldl_cons, List.length_cons, ← hsize, ← ih hl hrest, Nat.add_assoc]

theorem mem_keys_iff (d : Dict κ ν) {k : κ} : k ∈ d.keys ↔ ∃ v, d.get? k = some v := by
  simp only [keys, List.mem_map, Prod.exists, get?_eq_some_iff]
  exact ⟨fun ⟨_, v, hm, hk⟩ => ⟨v, hk ▸ hm⟩, fun ⟨v, hm⟩ => ⟨k, v, hm, rfl⟩⟩

theorem mem_values_iff (d : Dict κ ν) {v : ν} : v ∈ d.values ↔ ∃ k, d.get? k = some v := by
  simp only [values, List.mem_map, Prod.exists, get?_eq_some_iff]
  exact ⟨fun ⟨k, _, hm, hv⟩ => ⟨k, hv ▸ hm⟩, fun ⟨k, hm⟩ => ⟨k, v, hm, rfl⟩⟩

/-- When no value stands under two keys, no value occurs twice. -/
theorem nodup_values (d : Dict κ ν)
    (h : ∀ j k v, d.get? j = some v → d.get? k = some v → j = k) : d.values.Nodup := by
  refine List.Nodup.map_on ?_ (List.Nodup.of_map _ d.nodup_keys)
  rintro ⟨j, v⟩ hj ⟨k, _⟩ hk rfl
  rw [h j k v ((get?_eq_some_iff d).mpr hj) ((get?_eq_some_iff d).mpr hk)]

end Dict

end Python
