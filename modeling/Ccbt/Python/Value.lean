import Ccbt.Python.Dict
import Ccbt.Python.Text
import Mathlib.Data.Rat.Defs

/-!
# Values of type `Any`, and what serialisation makes of them

A serialiser writes a value as a text, and the value that is read back is its image: atoms are
taken over or refused, a tuple comes back as a list, and a dictionary with the keys that its keys
have become. A value is plain if it is its own image. Both are stated for any treatment of the atoms
and of the keys.
-/

namespace Python

/-- A float. -/
inductive PyFloat
  | finite (q : Rat)
  | inf (negative : Bool)
  | nan
  deriving DecidableEq

/-- `x >= 0`. -/
def PyFloat.isNonneg : PyFloat → Bool
  | finite q => 0 ≤ q
  | inf negative => !negative
  | nan => false

/-- A key of a dictionary. `other` stands for the types that are not listed. -/
inductive DictKey
  | none
  | bool (b : Bool)
  | int (n : Int)
  | float (x : PyFloat)
  | str (s : Str)
  | bytes (b : Bytes)
  | other (n : Nat)
  deriving DecidableEq

/-- A value. `other` stands for the types that are not listed. -/
inductive Value
  | none
  | bool (b : Bool)
  | int (n : Int)
  | float (x : PyFloat)
  | str (s : Str)
  | bytes (b : Bytes)
  | list (items : List Value)
  | tuple (items : List Value)
  | dict (entries : List (DictKey × Value))
  | other (n : Nat)

/-- The dictionary that is built by setting the entries one after the other. -/
def dictOf {κ ν : Type*} [DecidableEq κ] (entries : List (κ × ν)) : List (κ × ν) :=
  entries.foldl (fun d e => setEntry e.1 e.2 d) []

namespace Value

section Image

variable (leaf : Value → Option Value) (key : DictKey → Option DictKey)

mutual

/-- What comes back of a value, `none` if the value is refused. -/
def image : Value → Option Value
  | list items => (images items).map list
  | tuple items => (images items).map list
  | dict entries => (entryImages entries).map fun es => dict (dictOf es)
  | none => leaf none
  | bool b => leaf (bool b)
  | int n => leaf (int n)
  | float x => leaf (float x)
  | str s => leaf (str s)
  | bytes b => leaf (bytes b)
  | other n => leaf (other n)

def images : List Value → Option (List Value)
  | [] => some []
  | v :: items =>
    match image v, images items with
    | some v', some items' => some (v' :: items')
    | _, _ => Option.none

def entryImages : List (DictKey × Value) → Option (List (DictKey × Value))
  | [] => some []
  | (k, v) :: entries =>
    match key k, image v, entryImages entries with
    | some k', some v', some entries' => some ((k', v') :: entries')
    | _, _, _ => Option.none

end

mutual

/-- The value comes back as it is. -/
def Plain : Value → Prop
  | list items => AllPlain items
  | tuple _ => False
  | dict entries => (entries.map Prod.fst).Nodup ∧ EntriesPlain entries
  | none => leaf none = some none
  | bool b => leaf (bool b) = some (bool b)
  | int n => leaf (int n) = some (int n)
  | float x => leaf (float x) = some (float x)
  | str s => leaf (str s) = some (str s)
  | bytes b => leaf (bytes b) = some (bytes b)
  | other n => leaf (other n) = some (other n)

def AllPlain : List Value → Prop
  | [] => True
  | v :: items => Plain v ∧ AllPlain items

def EntriesPlain : List (DictKey × Value) → Prop
  | [] => True
  | (k, v) :: entries => key k = some k ∧ Plain v ∧ EntriesPlain entries

end

end Image

end Value

section DictOf

variable {κ ν : Type*} [DecidableEq κ] {entries d : List (κ × ν)}

theorem dictOf_eq_self (h : (entries.map Prod.fst).Nodup) : dictOf entries = entries := by
  rw [dictOf, foldl_setEntry_eq_append (by simpa using h), List.nil_append]

theorem nodup_keys_foldl (h : (d.map Prod.fst).Nodup) :
    ((entries.foldl (fun d e => setEntry e.1 e.2 d) d).map Prod.fst).Nodup := by
  induction entries generalizing d with
  | nil => exact h
  | cons e entries ih => exact ih (nodup_keys_setEntry h)

theorem nodup_keys_dictOf (entries : List (κ × ν)) : ((dictOf entries).map Prod.fst).Nodup :=
  nodup_keys_foldl List.nodup_nil

theorem length_setEntry_le (k : κ) (v : ν) (d : List (κ × ν)) :
    (setEntry k v d).length ≤ d.length + 1 := by
  rw [← List.length_map Prod.fst, keys_setEntry]
  split
  · rw [List.length_map]
    omega
  · rw [List.length_append, List.length_map, List.length_singleton]

theorem length_foldl_setEntry_le :
    (entries.foldl (fun d e => setEntry e.1 e.2 d) d).length ≤ d.length + entries.length := by
  induction entries generalizing d with
  | nil => exact le_rfl
  | cons e entries ih =>
    have hrest := @ih (setEntry e.1 e.2 d)
    have hone := length_setEntry_le e.1 e.2 d
    rw [List.foldl_cons, List.length_cons]
    omega

/-- No entry is lost only if the keys are distinct. -/
theorem foldl_setEntry_of_length
    (h : (entries.foldl (fun d e => setEntry e.1 e.2 d) d).length = d.length + entries.length) :
    entries.foldl (fun d e => setEntry e.1 e.2 d) d = d ++ entries := by
  induction entries generalizing d with
  | nil => exact (List.append_nil d).symm
  | cons e entries ih =>
    rw [List.foldl_cons, List.length_cons] at h
    have hrest : (entries.foldl (fun d e => setEntry e.1 e.2 d) (setEntry e.1 e.2 d)).length ≤
        (setEntry e.1 e.2 d).length + entries.length := length_foldl_setEntry_le
    have hone := length_setEntry_le e.1 e.2 d
    have hfresh : e.1 ∉ d.map Prod.fst := by
      intro hmem
      have hlength : (setEntry e.1 e.2 d).length = d.length := by
        rw [← List.length_map Prod.fst, keys_setEntry, if_pos hmem, List.length_map]
      omega
    rw [List.foldl_cons, ih (by omega), setEntry_of_notMem hfresh, List.append_assoc,
      List.singleton_append]

theorem dictOf_eq_self_of_length (h : (dictOf entries).length = entries.length) :
    dictOf entries = entries := by
  rw [dictOf, foldl_setEntry_of_length (by rw [← dictOf, h]; simp), List.nil_append]

end DictOf

namespace Value

variable {leaf : Value → Option Value} {key : DictKey → Option DictKey}

section Plain

theorem length_entryImages {entries es : List (DictKey × Value)}
    (h : entryImages leaf key entries = some es) : es.length = entries.length := by
  induction entries generalizing es with
  | nil =>
    rw [entryImages] at h
    rw [← Option.some.inj h]
  | cons e entries ih =>
    obtain ⟨k, v⟩ := e
    rw [entryImages] at h
    split at h
    · next k' v' entries' hk hv hentries =>
      rw [← Option.some.inj h, List.length_cons, List.length_cons, ih hentries]
    · cases h

mutual

/-- The plain values are those that come back as they are. -/
theorem image_eq_self_iff : ∀ v, image leaf key v = some v ↔ Plain leaf key v
  | list items => by
    rw [image, Plain, ← images_eq_self_iff items, Option.map_eq_some_iff]
    constructor
    · rintro ⟨items', himages, heq⟩
      rw [himages, Value.list.inj heq]
    · exact fun himages => ⟨items, himages, rfl⟩
  | tuple items => by
    rw [image, Plain, Option.map_eq_some_iff, iff_false]
    rintro ⟨items', -, heq⟩
    cases heq
  | dict entries => by
    rw [image, Plain, ← entryImages_eq_self_iff entries, Option.map_eq_some_iff]
    constructor
    · rintro ⟨es, himages, heq⟩
      have hdict : dictOf es = entries := Value.dict.inj heq
      have hself := dictOf_eq_self_of_length (by rw [hdict, length_entryImages himages])
      refine ⟨?_, by rw [himages, ← hself, hdict]⟩
      rw [← hdict]
      exact nodup_keys_dictOf es
    · rintro ⟨hnodup, himages⟩
      exact ⟨entries, himages, by rw [dictOf_eq_self hnodup]⟩
  | none => Iff.rfl
  | bool _ => Iff.rfl
  | int _ => Iff.rfl
  | float _ => Iff.rfl
  | str _ => Iff.rfl
  | bytes _ => Iff.rfl
  | other _ => Iff.rfl

theorem images_eq_self_iff : ∀ items, images leaf key items = some items ↔ AllPlain leaf key items
  | [] => iff_of_true rfl trivial
  | v :: items => by
    rw [images, AllPlain, ← image_eq_self_iff v, ← images_eq_self_iff items]
    cases image leaf key v with
    | none => simp
    | some v' =>
      cases images leaf key items with
      | none => simp
      | some items' => simp

theorem entryImages_eq_self_iff : ∀ entries,
    entryImages leaf key entries = some entries ↔ EntriesPlain leaf key entries
  | [] => iff_of_true rfl trivial
  | (k, v) :: entries => by
    rw [entryImages, EntriesPlain, ← image_eq_self_iff v, ← entryImages_eq_self_iff entries]
    cases key k with
    | none => simp
    | some k' =>
      cases image leaf key v with
      | none => simp
      | some v' =>
        cases entryImages leaf key entries with
        | none => simp
        | some entries' => simp [and_assoc]

end

end Plain

section Map

variable {α : Type*} {l : List α}

theorem images_map {f g : α → Value} (h : ∀ x ∈ l, image leaf key (f x) = some (g x)) :
    images leaf key (l.map f) = some (l.map g) := by
  induction l with
  | nil => rfl
  | cons x l ih =>
    rw [List.map_cons, images, h x List.mem_cons_self,
      ih fun y hy => h y (List.mem_cons_of_mem x hy), List.map_cons]

theorem images_map_eq_none {f : α → Value} {x : α} (hx : x ∈ l)
    (h : image leaf key (f x) = Option.none) : images leaf key (l.map f) = Option.none := by
  induction l with
  | nil => cases hx
  | cons y l ih =>
    rw [List.map_cons, images]
    rcases List.mem_cons.mp hx with heq | hrest
    · rw [← heq, h]
    · rw [ih hrest]
      cases image leaf key (f y) with
      | none => rfl
      | some v => rfl

theorem entryImages_cons_eq_some_iff {k : DictKey} {v : Value}
    {entries es : List (DictKey × Value)} : entryImages leaf key ((k, v) :: entries) = some es ↔
      ∃ k' v' es', key k = some k' ∧ image leaf key v = some v' ∧
        entryImages leaf key entries = some es' ∧ es = (k', v') :: es' := by
  rw [entryImages]
  constructor
  · intro h
    split at h
    · next k' v' es' hk hv hes => exact ⟨k', v', es', hk, hv, hes, (Option.some.inj h).symm⟩
    · cases h
  · rintro ⟨k', v', es', hk, hv, hes, rfl⟩
    rw [hk, hv, hes]

theorem entryImages_map {name name' : α → DictKey} {f g : α → Value}
    (hkey : ∀ x ∈ l, key (name x) = some (name' x))
    (h : ∀ x ∈ l, image leaf key (f x) = some (g x)) :
    entryImages leaf key (l.map fun x => (name x, f x)) =
      some (l.map fun x => (name' x, g x)) := by
  induction l with
  | nil => rfl
  | cons x l ih =>
    rw [List.map_cons, entryImages, hkey x List.mem_cons_self, h x List.mem_cons_self,
      ih (fun y hy => hkey y (List.mem_cons_of_mem x hy)) fun y hy =>
        h y (List.mem_cons_of_mem x hy), List.map_cons]

/-- What is refused in an entry is refused. -/
theorem entryImages_map_eq_none {name : α → DictKey} {f : α → Value} {x : α} (hx : x ∈ l)
    (h : image leaf key (f x) = Option.none) :
    entryImages leaf key (l.map fun x => (name x, f x)) = Option.none := by
  induction l with
  | nil => cases hx
  | cons y l ih =>
    rw [List.map_cons, entryImages]
    rcases List.mem_cons.mp hx with heq | hrest
    · rw [← heq, h]
      cases key (name x) with
      | none => rfl
      | some k => rfl
    · rw [ih hrest]
      cases key (name y) with
      | none => rfl
      | some k =>
        cases image leaf key (f y) with
        | none => rfl
        | some v => rfl

end Map

end Value

/-- The keys of a dictionary whose entries are written out one by one. -/
class Names (F : Type) where
  all : List F
  name : F → Str
  mem_all : ∀ k, k ∈ all
  nodup_names : (all.map name).Nodup

namespace Value

section Record

variable {F : Type} [Names F] {leaf : Value → Option Value} {key : DictKey → Option DictKey}

/-- A dictionary with the names as its keys. -/
def record (f : F → Value) : Value :=
  dict ((Names.all : List F).map fun k => (.str (Names.name k), f k))

/-- `d[name]`, and `none` for anything that has no such entry. -/
def get? (v : Value) (name : Str) : Option Value :=
  match v with
  | dict entries => entries.lookup (.str name)
  | _ => Option.none

theorem nodup_keys_record (f : F → Value) :
    (((Names.all : List F).map fun k => (DictKey.str (Names.name k), f k)).map Prod.fst).Nodup := by
  have hkeys : ((Names.all : List F).map fun k => (DictKey.str (Names.name k), f k)).map Prod.fst =
      ((Names.all : List F).map Names.name).map DictKey.str := by
    rw [List.map_map, List.map_map]
    rfl
  rw [hkeys]
  exact Names.nodup_names.map fun _ _ h => DictKey.str.inj h

theorem get?_record (f : F → Value) (k : F) : (record f).get? (Names.name k) = some (f k) := by
  rw [record, get?, lookup_eq_some_iff (nodup_keys_record f)]
  exact List.mem_map_of_mem (Names.mem_all k)

theorem image_record (hkey : ∀ s, key (.str s) = some (.str s)) {f g : F → Value}
    (h : ∀ k, image leaf key (f k) = some (g k)) : image leaf key (record f) = some (record g) := by
  rw [record, image, entryImages_map (fun _ _ => hkey _) fun k _ => h k, Option.map_some,
    dictOf_eq_self (nodup_keys_record g), record]

theorem image_record_eq_some_iff (hkey : ∀ s, key (.str s) = some (.str s)) {f : F → Value}
    {v : Value} : image leaf key (record f) = some v ↔
      ∃ g : F → Value, (∀ k, image leaf key (f k) = some (g k)) ∧ v = record g := by
  constructor
  · intro h
    have hsome : ∀ k, ∃ w, image leaf key (f k) = some w := by
      intro k
      cases hk : image leaf key (f k) with
      | some w => exact ⟨w, rfl⟩
      | none =>
        have hnone : image leaf key (record f) = Option.none := by
          rw [record, image, entryImages_map_eq_none (Names.mem_all k) hk, Option.map_none]
        rw [hnone] at h
        cases h
    choose g hg using hsome
    rw [image_record hkey hg] at h
    exact ⟨g, hg, (Option.some.inj h).symm⟩
  · rintro ⟨g, hg, rfl⟩
    exact image_record hkey hg

end Record

end Value

end Python
