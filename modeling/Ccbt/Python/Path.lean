import Ccbt.Python.Bytes

/-!
# Paths as strings

The string operations that programs apply to relative POSIX paths. A path whose
components are proper names can be taken apart again.
-/

namespace Python

def splitSlash (s : Str) : List Str := s.splitOn '/'

def joinSlash (parts : List Str) : Str := ['/'].intercalate parts

def replaceBackslash (s : Str) : Str := s.map (fun c => if c = '\\' then '/' else c)

def lstripSlash (s : Str) : Str := s.dropWhile (· = '/')

/-- `Path(name).stem`: the name up to its last dot, if that is neither its first nor its last
character. -/
def stem (name : Str) : Str :=
  let suffix := name.reverse.takeWhile (· ≠ '.')
  let i := name.length - suffix.length - 1
  if '.' ∈ name ∧ 0 < i ∧ suffix ≠ [] then name.take i else name

/-- A string that can stand between two slashes. -/
structure IsPart (part : Str) : Prop where
  ne_nil : part ≠ []
  no_slash : '/' ∉ part

/-- A name that can stand in a directory. -/
structure IsName (part : Str) : Prop extends IsPart part where
  ne_dot : part ≠ ['.']
  ne_dots : part ≠ ['.', '.']

variable {parts : List Str}

@[simp] theorem joinSlash_nil : joinSlash [] = [] := rfl

@[simp] theorem joinSlash_singleton (part : Str) : joinSlash [part] = part :=
  List.intercalate_singleton

theorem joinSlash_cons (part : Str) (h : parts ≠ []) :
    joinSlash (part :: parts) = part ++ '/' :: joinSlash parts := by
  rw [joinSlash, List.intercalate_cons_of_ne_nil h, List.append_assoc, List.singleton_append]
  rfl

theorem joinSlash_concat (hne : parts ≠ []) (part : Str) :
    joinSlash (parts ++ [part]) = joinSlash parts ++ '/' :: part := by
  induction parts with
  | nil => exact absurd rfl hne
  | cons first parts ih =>
    cases parts with
    | nil => rw [List.singleton_append, joinSlash_cons first (List.cons_ne_nil _ _)]; simp
    | cons second parts =>
      rw [List.cons_append, joinSlash_cons first (by simp), ih (List.cons_ne_nil _ _),
        joinSlash_cons first (List.cons_ne_nil _ _), List.append_assoc, List.cons_append]

theorem splitSlash_joinSlash (h : ∀ part ∈ parts, '/' ∉ part) (hne : parts ≠ []) :
    splitSlash (joinSlash parts) = parts :=
  List.splitOn_intercalate '/' h hne

theorem joinSlash_splitSlash (s : Str) : joinSlash (splitSlash s) = s :=
  List.intercalate_splitOn '/'

/-- What follows the first slash of a path is shorter than the path. -/
theorem length_joinSlash_tail_lt {s : Str} (h : s ≠ []) :
    (joinSlash (splitSlash s).tail).length < s.length := by
  obtain ⟨part, parts, hsplit⟩ := List.exists_cons_of_ne_nil (List.splitOn_ne_nil '/' s)
  have hjoin := joinSlash_splitSlash s
  rw [splitSlash, hsplit] at hjoin
  rw [splitSlash, hsplit, List.tail_cons]
  by_cases hne : parts = []
  · rw [hne]
    exact List.length_pos_of_ne_nil h
  · rw [joinSlash_cons part hne] at hjoin
    rw [← hjoin]
    simp
    omega

theorem mem_joinSlash {c : Char} (h : c ∈ joinSlash parts) :
    c = '/' ∨ ∃ part ∈ parts, c ∈ part := by
  induction parts with
  | nil => exact absurd h List.not_mem_nil
  | cons part parts ih =>
    by_cases hne : parts = []
    · rw [hne, joinSlash_singleton] at h
      exact Or.inr ⟨part, List.mem_cons_self, h⟩
    · rw [joinSlash_cons part hne, List.mem_append, List.mem_cons] at h
      obtain h | h | h := h
      · exact Or.inr ⟨part, List.mem_cons_self, h⟩
      · exact Or.inl h
      · exact (ih h).imp_right (fun ⟨p, hp, hc⟩ => ⟨p, List.mem_cons_of_mem _ hp, hc⟩)

theorem slash_mem_joinSlash (h : ∀ part ∈ parts, '/' ∉ part) :
    '/' ∈ joinSlash parts ↔ 2 ≤ parts.length := by
  match parts with
  | [] => simp
  | [part] => simpa using h part
  | part :: part' :: rest =>
    rw [joinSlash_cons part (List.cons_ne_nil _ _)]
    simp

theorem joinSlash_ne_nil (h : ∀ part ∈ parts, IsPart part) (hne : parts ≠ []) :
    joinSlash parts ≠ [] := by
  intro hnil
  have hsplit := splitSlash_joinSlash (fun part hp => (h part hp).no_slash) hne
  rw [hnil] at hsplit
  exact (h [] (by rw [← hsplit]; exact List.mem_singleton_self [])).ne_nil rfl

theorem joinSlash_ne_slash (h : ∀ part ∈ parts, IsPart part) : joinSlash parts ≠ ['/'] := by
  intro hslash
  have hne : parts ≠ [] := by
    rintro rfl
    exact absurd hslash (by simp)
  have hsplit := splitSlash_joinSlash (fun part hp => (h part hp).no_slash) hne
  rw [hslash] at hsplit
  exact (h [] (by rw [← hsplit]; exact List.mem_cons_self)).ne_nil rfl

theorem replaceBackslash_eq_self {s : Str} (h : '\\' ∉ s) : replaceBackslash s = s := by
  rw [replaceBackslash]
  conv_rhs => rw [← List.map_id s]
  apply List.map_congr_left
  intro c hc
  rw [if_neg, id]
  rintro rfl
  exact h hc

theorem lstripSlash_joinSlash (h : ∀ part ∈ parts, IsPart part) :
    lstripSlash (joinSlash parts) = joinSlash parts := by
  match parts with
  | [] => rfl
  | part :: rest =>
    obtain ⟨c, part', rfl⟩ := List.exists_cons_of_ne_nil (h part List.mem_cons_self).ne_nil
    have hc : ¬c = '/' := by
      rintro rfl
      exact (h _ List.mem_cons_self).no_slash List.mem_cons_self
    have hjoin : ∃ t, joinSlash ((c :: part') :: rest) = c :: t := by
      by_cases hne : rest = []
      · exact ⟨part', by rw [hne, joinSlash_singleton]⟩
      · exact ⟨_, joinSlash_cons _ hne⟩
    obtain ⟨t, ht⟩ := hjoin
    rw [ht, lstripSlash, List.dropWhile_cons_of_neg (by simpa using hc)]

end Python
