import Mathlib.Tactic.Tauto
import Ccbt.Python.Path

/-!
# Normal forms of POSIX paths: `os.path.normpath`

The names that are left of a path stand behind the steps up that lead out of where it starts.
A relative path is followed from another one by taking away names for its steps up, as far as
there are names, and adding its own.
-/

namespace Python

/-- `os.pardir` -/
def dotdot : Str := ['.', '.']

/-- The slashes that are kept at the beginning: two stay two, and more are one. -/
def initialSlashes (path : Str) : Nat :=
  if path[0]? ≠ some '/' then 0
  else if path[1]? = some '/' ∧ path[2]? ≠ some '/' then 2
  else 1

/-- A turn of the loop of `normpath` over the components. -/
def normStep (initial_slashes : Nat) (new_comps : List Str) (comp : Str) : List Str :=
  if comp = [] ∨ comp = ['.'] then new_comps
  else if comp ≠ dotdot ∨ (initial_slashes = 0 ∧ new_comps = []) ∨
      new_comps.getLast? = some dotdot then new_comps ++ [comp]
  else new_comps.dropLast

/-- The components that `normpath` joins again. -/
def normComps (path : Str) : List Str :=
  (splitSlash path).foldl (normStep (initialSlashes path)) []

/-- `os.path.normpath(path)` -/
def normpath (path : Str) : Str :=
  if path = [] then ['.']
  else
    let path := List.replicate (initialSlashes path) '/' ++ joinSlash (normComps path)
    if path = [] then ['.'] else path

/-- The path lies below the directory: in normal form it goes on with names. -/
def StrictlyInside (dir path : Str) : Prop :=
  initialSlashes path = initialSlashes dir ∧
    ∃ rest, rest ≠ [] ∧ dotdot ∉ rest ∧ normComps path = normComps dir ++ rest

/-- Where a path leads: the slashes at its beginning, the steps up and the names behind them. -/
@[ext]
structure Place where
  root : Nat
  ups : Nat
  names : List Str
  deriving DecidableEq

namespace Place

/-- The place after one more component. -/
def step (p : Place) (comp : Str) : Place :=
  if comp = [] ∨ comp = ['.'] then p
  else if comp ≠ dotdot then { p with names := p.names ++ [comp] }
  else if p.names ≠ [] then { p with names := p.names.dropLast }
  else if p.root = 0 then { p with ups := p.ups + 1 }
  else p

/-- The place that a relative one leads to from here. -/
def follow (p w : Place) : Place where
  root := p.root
  ups := if p.root = 0 then p.ups + (w.ups - p.names.length) else p.ups
  names := p.names.take (p.names.length - w.ups) ++ w.names

def comps (p : Place) : List Str := List.replicate p.ups dotdot ++ p.names

/-- Nothing is above a root, and names are names. -/
structure Proper (p : Place) : Prop where
  ups_eq : p.root ≠ 0 → p.ups = 0
  isName : ∀ name ∈ p.names, IsName name

end Place

/-- Where the components of a path lead from the place that it starts at. -/
def placeFrom (start : Place) (path : Str) : Place := (splitSlash path).foldl Place.step start

def place (path : Str) : Place := placeFrom ⟨initialSlashes path, 0, []⟩ path

section Components

variable {s path : Str} {p : Place} {comp : Str} {comps : List Str}

theorem slash_notMem_of_mem_splitSlash (h : comp ∈ splitSlash s) : '/' ∉ comp := by
  induction s generalizing comp with
  | nil =>
    rw [splitSlash, List.splitOn_nil, List.mem_singleton] at h
    rw [h]
    exact List.not_mem_nil
  | cons c s ih =>
    rw [splitSlash, List.splitOn_cons_eq_if_modifyHead] at h
    split at h
    · rcases List.mem_cons.mp h with rfl | h
      · exact List.not_mem_nil
      · exact ih h
    · next hc =>
      obtain ⟨first, rest, hsplit⟩ := List.exists_cons_of_ne_nil (List.splitOn_ne_nil '/' s)
      rw [hsplit, List.modifyHead_cons] at h
      rcases List.mem_cons.mp h with rfl | h
      · have hfirst : '/' ∉ first := ih (by rw [splitSlash, hsplit]; exact List.mem_cons_self)
        simp only [List.mem_cons, not_or]
        exact ⟨fun hslash => hc (by rw [hslash]; exact BEq.rfl), hfirst⟩
      · exact ih (by rw [splitSlash, hsplit]; exact List.mem_cons_of_mem _ h)

theorem splitSlash_append (s path : Str) :
    splitSlash (s ++ '/' :: path) = splitSlash s ++ splitSlash path :=
  List.splitOn_append_cons_self s path

theorem isName_iff (hslash : '/' ∉ comp) :
    IsName comp ↔ ¬(comp = [] ∨ comp = ['.']) ∧ comp ≠ dotdot := by
  constructor
  · intro h
    exact ⟨fun hskip => hskip.elim h.ne_nil h.ne_dot, h.ne_dots⟩
  · rintro ⟨hskip, hdots⟩
    rw [not_or] at hskip
    exact ⟨⟨hskip.1, hslash⟩, hskip.2, hdots⟩

/-- The four things that a component can do. -/
theorem Place.step_cases (p : Place) (hslash : '/' ∉ comp) :
    ((comp = [] ∨ comp = ['.']) ∧ p.step comp = p) ∨
    (IsName comp ∧ p.step comp = { p with names := p.names ++ [comp] }) ∨
    (comp = dotdot ∧ p.names ≠ [] ∧ p.step comp = { p with names := p.names.dropLast }) ∨
    (comp = dotdot ∧ p.names = [] ∧
      p.step comp = { p with ups := if p.root = 0 then p.ups + 1 else p.ups }) := by
  by_cases hskip : comp = [] ∨ comp = ['.']
  · exact .inl ⟨hskip, if_pos hskip⟩
  · by_cases hdots : comp = dotdot
    · rw [Place.step, if_neg hskip, if_neg (not_not.mpr hdots)]
      by_cases hnames : p.names = []
      · refine .inr (.inr (.inr ⟨hdots, hnames, ?_⟩))
        rw [if_neg (not_not.mpr hnames)]
        split <;> rfl
      · exact .inr (.inr (.inl ⟨hdots, hnames, if_pos hnames⟩))
    · refine .inr (.inl ⟨(isName_iff hslash).mpr ⟨hskip, hdots⟩, ?_⟩)
      rw [Place.step, if_neg hskip, if_pos hdots]

end Components

section Follow

variable {s path : Str} {p w : Place} {comp : Str} {comps : List Str}

theorem Place.follow_start (p : Place) : p.follow ⟨0, 0, []⟩ = p := by
  rw [Place.follow, Nat.zero_sub, Nat.add_zero, ite_self, Nat.sub_zero, List.take_length,
    List.append_nil]

theorem dropLast_take_sub (l : List Str) (k : Nat) :
    (l.take (l.length - k)).dropLast = l.take (l.length - (k + 1)) := by
  rw [List.dropLast_eq_take, List.take_take, List.length_take]
  congr 1
  omega

/-- A component of the way is one of the whole way. -/
theorem Place.follow_step (hw : w.root = 0) (hslash : '/' ∉ comp) :
    p.follow (w.step comp) = (p.follow w).step comp := by
  rcases w.step_cases hslash with ⟨hskip, hstep⟩ | ⟨hname, hstep⟩ | ⟨hdots, hne, hstep⟩ |
    ⟨hdots, hnil, hstep⟩
  · rw [hstep, Place.step, if_pos hskip]
  · obtain ⟨hskip, hdots⟩ := (isName_iff hslash).mp hname
    rw [hstep, Place.step, if_neg hskip, if_pos hdots, Place.follow, Place.follow,
      List.append_assoc]
  · have hskip : ¬(comp = [] ∨ comp = ['.']) := by
      rw [hdots]
      decide
    have hnames : (p.follow w).names ≠ [] := by
      simp [Place.follow, hne]
    rw [hstep, Place.step, if_neg hskip, if_neg (not_not.mpr hdots), if_pos hnames, Place.follow,
      Place.follow, List.dropLast_append_of_ne_nil hne]
  · -- a step up of the way takes one more name, or goes on where there are none left
    have hskip : ¬(comp = [] ∨ comp = ['.']) := by
      rw [hdots]
      decide
    rw [hstep, if_pos hw, Place.step, if_neg hskip, if_neg (not_not.mpr hdots)]
    simp only [Place.follow, hnil, List.append_nil]
    have hup := dropLast_take_sub p.names w.ups
    by_cases hlt : w.ups < p.names.length
    · have htake : p.names.take (p.names.length - w.ups) ≠ [] := by
        rw [← List.length_pos_iff_ne_nil, List.length_take]
        omega
      have hups : w.ups + 1 - p.names.length = w.ups - p.names.length := by omega
      rw [if_pos htake, hup, hups]
    · have htake : p.names.take (p.names.length - w.ups) = [] := by
        rw [Nat.sub_eq_zero_of_le (by omega), List.take_zero]
      rw [htake, List.dropLast_nil] at hup
      rw [htake, if_neg (not_not.mpr rfl), ← hup]
      by_cases hroot : p.root = 0
      · have hups : w.ups + 1 - p.names.length = w.ups - p.names.length + 1 := by omega
        rw [if_pos hroot, if_pos hroot, if_pos hroot, hups, Nat.add_assoc]
      · rw [if_neg hroot, if_neg hroot, if_neg hroot]

theorem Place.root_step (hslash : '/' ∉ comp) : (p.step comp).root = p.root := by
  rcases p.step_cases hslash with ⟨-, hstep⟩ | ⟨-, hstep⟩ | ⟨-, -, hstep⟩ | ⟨-, -, hstep⟩
  all_goals rw [hstep]

/-- A fact that every component keeps holds of the place of a path. -/
theorem placeFrom_induction (P : Place → Prop) (hp : P p)
    (hstep : ∀ q comp, '/' ∉ comp → P q → P (q.step comp)) (path : Str) :
    P (placeFrom p path) := by
  have hfold (comps : List Str) (hcomps : ∀ comp ∈ comps, '/' ∉ comp) :
      P (comps.foldl Place.step p) := by
    induction comps using List.reverseRecOn with
    | nil => exact hp
    | append_singleton comps comp ih =>
      rw [List.foldl_append, List.foldl_cons, List.foldl_nil]
      exact hstep _ comp (hcomps comp (List.mem_append_right _ (List.mem_singleton_self comp)))
        (ih fun comp hcomp => hcomps comp (List.mem_append_left _ hcomp))
  exact hfold _ fun _ => slash_notMem_of_mem_splitSlash

theorem root_placeFrom (p : Place) (path : Str) : (placeFrom p path).root = p.root :=
  placeFrom_induction (fun q => q.root = p.root) rfl
    (fun _ _ hslash hq => (Place.root_step hslash).trans hq) path

theorem Place.follow_foldl (hw : w.root = 0) (hcomps : ∀ comp ∈ comps, '/' ∉ comp) :
    comps.foldl Place.step (p.follow w) = p.follow (comps.foldl Place.step w) := by
  induction comps generalizing w with
  | nil => rfl
  | cons comp comps ih =>
    have hslash := hcomps comp List.mem_cons_self
    have hroot : (w.step comp).root = 0 := by rw [Place.root_step hslash, hw]
    rw [List.foldl_cons, List.foldl_cons, ← Place.follow_step hw hslash,
      ih hroot fun comp hcomp => hcomps comp (List.mem_cons_of_mem _ hcomp)]

/-- To go on from a place is to follow where the rest leads. -/
theorem placeFrom_eq_follow (p : Place) (path : Str) :
    placeFrom p path = p.follow (placeFrom ⟨0, 0, []⟩ path) := by
  have hfollow := Place.follow_foldl (p := p) (w := ⟨0, 0, []⟩) rfl fun comp hcomp =>
    slash_notMem_of_mem_splitSlash (s := path) hcomp
  rwa [Place.follow_start] at hfollow

/-- Names stay names, and nothing comes to be above a root. -/
theorem Place.proper_step (hp : p.Proper) (hslash : '/' ∉ comp) : (p.step comp).Proper := by
  rcases p.step_cases hslash with ⟨-, hstep⟩ | ⟨hname, hstep⟩ | ⟨-, -, hstep⟩ | ⟨-, -, hstep⟩
  · rwa [hstep]
  · rw [hstep]
    refine ⟨hp.ups_eq, fun name hmem => ?_⟩
    rcases List.mem_append.mp hmem with hmem | hmem
    · exact hp.isName name hmem
    · rwa [List.mem_singleton.mp hmem]
  · rw [hstep]
    exact ⟨hp.ups_eq, fun name hmem => hp.isName name (List.dropLast_subset _ hmem)⟩
  · rw [hstep]
    refine ⟨fun hroot => ?_, hp.isName⟩
    dsimp only at hroot ⊢
    rw [if_neg hroot]
    exact hp.ups_eq hroot

theorem proper_placeFrom (hp : p.Proper) (path : Str) : (placeFrom p path).Proper :=
  placeFrom_induction Place.Proper hp (fun _ _ hslash hq => Place.proper_step hq hslash) path

theorem proper_place (path : Str) : (place path).Proper :=
  proper_placeFrom ⟨fun _ => rfl, fun _ hmem => absurd hmem List.not_mem_nil⟩ path

end Follow

section Normal

variable {p q : Place} {comp dir path : Str}

theorem Place.dotdot_notMem_names (hp : p.Proper) : dotdot ∉ p.names :=
  fun hmem => (hp.isName dotdot hmem).ne_dots rfl

/-- A turn of the loop is a step of the place. -/
theorem normStep_comps (hp : p.Proper) (hslash : '/' ∉ comp) :
    normStep p.root p.comps comp = (p.step comp).comps := by
  rcases p.step_cases hslash with ⟨hskip, hstep⟩ | ⟨hname, hstep⟩ | ⟨hdots, hne, hstep⟩ |
    ⟨hdots, hnil, hstep⟩
  · rw [hstep, normStep, if_pos hskip]
  · obtain ⟨hskip, hdots⟩ := (isName_iff hslash).mp hname
    rw [hstep, normStep, if_neg hskip, if_pos (Or.inl hdots), Place.comps, Place.comps,
      List.append_assoc]
  · -- the last component is a name, which is taken away
    have hlast : p.comps.getLast? ≠ some dotdot := by
      rw [Place.comps, List.getLast?_append_of_ne_nil _ hne]
      intro hlast
      exact Place.dotdot_notMem_names hp (List.mem_of_getLast? hlast)
    have hcomps : p.comps ≠ [] := List.append_ne_nil_of_right_ne_nil _ hne
    rw [hstep, normStep, if_neg (by rw [hdots]; decide), if_neg (by tauto), Place.comps,
      Place.comps, List.dropLast_append_of_ne_nil hne]
  · rw [hstep, normStep, if_neg (by rw [hdots]; decide)]
    have hcomps : p.comps = List.replicate p.ups dotdot := by
      rw [Place.comps, hnil, List.append_nil]
    have hresult : ({ p with ups := if p.root = 0 then p.ups + 1 else p.ups } : Place).comps =
        List.replicate (if p.root = 0 then p.ups + 1 else p.ups) dotdot := by
      rw [Place.comps, hnil, List.append_nil]
    rw [hresult, hcomps, hdots]
    by_cases hroot : p.root = 0
    · rw [if_pos hroot, if_pos, ← List.replicate_succ']
      cases hups : p.ups with
      | zero => exact Or.inr (Or.inl ⟨hroot, rfl⟩)
      | succ n =>
        refine Or.inr (Or.inr ?_)
        rw [List.replicate_succ', List.getLast?_concat]
    · rw [if_neg hroot, hp.ups_eq hroot, if_neg (by simp [hroot])]
      rfl

theorem normComps_eq (path : Str) : normComps path = (place path).comps := by
  have hfold (comps : List Str) (hcomps : ∀ comp ∈ comps, '/' ∉ comp) (p : Place)
      (hp : p.Proper) : comps.foldl (normStep p.root) p.comps =
        (comps.foldl Place.step p).comps := by
    induction comps generalizing p with
    | nil => rfl
    | cons comp comps ih =>
      have hslash := hcomps comp List.mem_cons_self
      rw [List.foldl_cons, List.foldl_cons, normStep_comps hp hslash, ← Place.root_step hslash]
      exact ih (fun comp hcomp => hcomps comp (List.mem_cons_of_mem _ hcomp)) _
        (Place.proper_step hp hslash)
  exact hfold _ (fun _ => slash_notMem_of_mem_splitSlash) ⟨initialSlashes path, 0, []⟩
    ⟨fun _ => rfl, fun _ hmem => absurd hmem List.not_mem_nil⟩

theorem count_comps (hp : p.Proper) : p.comps.count dotdot = p.ups := by
  rw [Place.comps, List.count_append, List.count_replicate_self,
    List.count_eq_zero_of_not_mem (Place.dotdot_notMem_names hp), Nat.add_zero]

theorem root_place (path : Str) : (place path).root = initialSlashes path := root_placeFrom _ path

/-- Below a directory are the places with more names. -/
theorem strictlyInside_iff : StrictlyInside dir path ↔
    (place path).root = (place dir).root ∧ (place path).ups = (place dir).ups ∧
      ∃ rest, rest ≠ [] ∧ (place path).names = (place dir).names ++ rest := by
  rw [StrictlyInside, root_place, root_place, normComps_eq, normComps_eq]
  refine and_congr_right fun _ => ?_
  constructor
  · rintro ⟨rest, hrest, hdots, heq⟩
    have hcount := congrArg (List.count dotdot) heq
    rw [List.count_append, count_comps (proper_place path), count_comps (proper_place dir),
      List.count_eq_zero_of_not_mem hdots, Nat.add_zero] at hcount
    refine ⟨hcount, rest, hrest, ?_⟩
    rw [Place.comps, Place.comps, hcount, List.append_assoc] at heq
    exact List.append_cancel_left heq
  · rintro ⟨hups, rest, hrest, heq⟩
    refine ⟨rest, hrest, fun hdots => ?_, ?_⟩
    · refine Place.dotdot_notMem_names (proper_place path) ?_
      rw [heq]
      exact List.mem_append_right _ hdots
    · rw [Place.comps, Place.comps, hups, heq, List.append_assoc]

end Normal

section Join

variable {dir path x : Str} {names : List Str} {root i : Nat}

theorem initialSlashes_append_of_name (hdir : dir ≠ []) (hlast : dir.getLast? ≠ some '/') :
    initialSlashes (dir ++ x) = initialSlashes dir := by
  match dir, hdir with
  | [a], _ =>
    have ha : a ≠ '/' := by simpa using hlast
    simp [initialSlashes, ha]
  | [a, b], _ =>
    have hb : b ≠ '/' := by simpa using hlast
    simp [initialSlashes, hb]
  | a :: b :: c :: dir, _ => rfl

theorem initialSlashes_append_of_slash (hlast : dir.getLast? = some '/')
    (hx : x.head? ≠ some '/') : initialSlashes (dir ++ x) = initialSlashes dir := by
  have hx0 : x[0]? ≠ some '/' := by rwa [← List.head?_eq_getElem?]
  match dir with
  | [] => simp at hlast
  | [a] => simp [initialSlashes, hx0]
  | [a, b] => simp [initialSlashes, hx0]
  | a :: b :: c :: dir => rfl

theorem placeFrom_append (p : Place) (dir path : Str) :
    placeFrom p (dir ++ '/' :: path) = placeFrom (placeFrom p dir) path := by
  rw [placeFrom, splitSlash_append, List.foldl_append, placeFrom, placeFrom]

/-- A slash at the end does not matter. -/
theorem placeFrom_append_slash (p : Place) (dir : Str) :
    placeFrom p (dir ++ ['/']) = placeFrom p dir := by
  rw [placeFrom_append]
  rfl

/-- A path behind a directory that does not end with a slash. -/
theorem place_append_slash (hdir : dir ≠ []) (hlast : dir.getLast? ≠ some '/') (path : Str) :
    place (dir ++ '/' :: path) = placeFrom (place dir) path := by
  rw [place, initialSlashes_append_of_name hdir hlast, placeFrom_append, place]

/-- A relative path behind a directory that ends with a slash. -/
theorem place_append (hlast : dir.getLast? = some '/') (hpath : path.head? ≠ some '/') :
    place (dir ++ path) = placeFrom (place dir) path := by
  obtain ⟨front, rfl⟩ : ∃ front, dir = front ++ ['/'] := by
    obtain ⟨hne, heq⟩ := List.getLast?_eq_some_iff.mp hlast
    exact ⟨_, heq⟩
  rw [place, initialSlashes_append_of_slash hlast hpath, place, placeFrom_append_slash,
    List.append_assoc, List.singleton_append, placeFrom_append]

theorem foldl_step_names (hnames : ∀ name ∈ names, IsName name) (p : Place) :
    names.foldl Place.step p = { p with names := p.names ++ names } := by
  induction names generalizing p with
  | nil => rw [List.append_nil]; rfl
  | cons name names ih =>
    have hname := hnames name List.mem_cons_self
    obtain ⟨hskip, hdots⟩ := (isName_iff hname.no_slash).mp hname
    rw [List.foldl_cons, Place.step, if_neg hskip, if_pos hdots,
      ih fun name hmem => hnames name (List.mem_cons_of_mem _ hmem), List.append_assoc,
      List.singleton_append]

/-- There is a path to every place below a root. -/
theorem place_of_root (hroot : root = 1 ∨ root = 2) (hnames : ∀ name ∈ names, IsName name) :
    place (List.replicate root '/' ++ joinSlash names) = ⟨root, 0, names⟩ := by
  have hparts : ∀ name ∈ names, IsPart name := fun name hmem => (hnames name hmem).toIsPart
  have hhead : (joinSlash names).head? ≠ some '/' := by
    intro hhead
    have hstrip := lstripSlash_joinSlash hparts
    obtain ⟨rest, hrest⟩ := List.head?_eq_some_iff.mp hhead
    rw [hrest, lstripSlash, List.dropWhile_cons_of_pos (by simp)] at hstrip
    have hle := (List.dropWhile_suffix (l := rest) fun c => c = '/').length_le
    rw [hstrip, List.length_cons] at hle
    omega
  have hplace (p : Place) (hp : p.names = []) : placeFrom p (joinSlash names) =
      { p with names := names } := by
    by_cases hne : names = []
    · rw [hne, joinSlash_nil, ← hp]
      rfl
    · rw [placeFrom, splitSlash_joinSlash (fun name hmem => (hnames name hmem).no_slash) hne,
        foldl_step_names hnames, hp, List.nil_append]
  have hlast : (List.replicate root '/').getLast? = some '/' := by
    rcases hroot with rfl | rfl <;> rfl
  have hstart : place (List.replicate root '/') = ⟨root, 0, []⟩ := by
    rcases hroot with rfl | rfl <;> decide
  rw [place_append hlast hhead, hstart]
  exact hplace _ rfl

end Join

section Text

variable {p q : Place} {s path : Str} {names : List Str} {n : Nat}

/-- The text of a place. -/
def Place.toPath (p : Place) : Str :=
  let path := List.replicate p.root '/' ++ joinSlash p.comps
  if path = [] then ['.'] else path

theorem normpath_eq (path : Str) : normpath path = (place path).toPath := by
  rw [normpath, Place.toPath, root_place, normComps_eq]
  split
  · next h =>
    rw [h]
    decide
  · rfl

theorem Place.isPart_of_mem_comps (hp : p.Proper) : ∀ comp ∈ p.comps, IsPart comp := by
  intro comp hcomp
  rcases List.mem_append.mp hcomp with hcomp | hcomp
  · rw [List.eq_of_mem_replicate hcomp]
    exact ⟨by decide, by decide⟩
  · exact (hp.isName comp hcomp).toIsPart

theorem lstripSlash_replicate_append (n : Nat) (s : Str) :
    lstripSlash (List.replicate n '/' ++ s) = lstripSlash s := by
  induction n with
  | zero => rfl
  | succ n ih =>
    rw [List.replicate_succ, List.cons_append, lstripSlash, List.dropWhile_cons_of_pos (by simp)]
    exact ih

theorem joinSlash_inj {comps comps' : List Str} (h : ∀ comp ∈ comps, IsPart comp)
    (h' : ∀ comp ∈ comps', IsPart comp) (heq : joinSlash comps = joinSlash comps') :
    comps = comps' := by
  by_cases hne : comps = []
  · by_contra hne'
    rw [hne, joinSlash_nil] at heq
    exact joinSlash_ne_nil h' (fun hnil => hne' (hne.trans hnil.symm)) heq.symm
  · by_cases hne' : comps' = []
    · rw [hne', joinSlash_nil] at heq
      exact absurd heq (joinSlash_ne_nil h hne)
    · rw [← splitSlash_joinSlash (fun comp hmem => (h comp hmem).no_slash) hne, heq,
        splitSlash_joinSlash (fun comp hmem => (h' comp hmem).no_slash) hne']

/-- Steps up and names are told apart. -/
theorem Place.comps_inj (hp : p.Proper) (hq : q.Proper) (h : p.comps = q.comps) :
    p.ups = q.ups ∧ p.names = q.names := by
  have hups : p.ups = q.ups := by rw [← count_comps hp, ← count_comps hq, h]
  rw [Place.comps, Place.comps, hups] at h
  exact ⟨hups, List.append_cancel_left h⟩

theorem Place.toPath_eq_dot (hp : p.Proper) (h : List.replicate p.root '/' ++ joinSlash p.comps =
    ['.']) : False := by
  have hroot : p.root = 0 := by
    cases hr : p.root with
    | zero => rfl
    | succ n =>
      rw [hr, List.replicate_succ, List.cons_append] at h
      exact absurd (List.cons.inj h).1 (by decide)
  rw [hroot, List.replicate_zero, List.nil_append] at h
  have hcomps : p.comps = [['.']] := by
    refine joinSlash_inj (Place.isPart_of_mem_comps hp) ?_ (by rw [h, joinSlash_singleton])
    intro comp hcomp
    rw [List.mem_singleton.mp hcomp]
    exact ⟨by decide, by decide⟩
  have hmem : ['.'] ∈ p.comps := by
    rw [hcomps]
    exact List.mem_singleton_self _
  rcases List.mem_append.mp hmem with hmem | hmem
  · exact absurd (List.eq_of_mem_replicate hmem) (by decide)
  · exact (hp.isName _ hmem).ne_dot rfl

/-- The text says which place it is. -/
theorem Place.toPath_inj (hp : p.Proper) (hq : q.Proper) (h : p.toPath = q.toPath) : p = q := by
  have htext : List.replicate p.root '/' ++ joinSlash p.comps =
      List.replicate q.root '/' ++ joinSlash q.comps := by
    simp only [Place.toPath] at h
    split at h
    · next hnil =>
      split at h
      · next hnil' => rw [hnil, hnil']
      · exact absurd h.symm fun hdot => Place.toPath_eq_dot hq hdot
    · split at h
      · exact absurd h fun hdot => Place.toPath_eq_dot hp hdot
      · exact h
  have hstrip := congrArg lstripSlash htext
  rw [lstripSlash_replicate_append, lstripSlash_replicate_append,
    lstripSlash_joinSlash (Place.isPart_of_mem_comps hp),
    lstripSlash_joinSlash (Place.isPart_of_mem_comps hq)] at hstrip
  have hcomps := joinSlash_inj (Place.isPart_of_mem_comps hp) (Place.isPart_of_mem_comps hq) hstrip
  have hroot := congrArg List.length htext
  rw [List.length_append, List.length_append, List.length_replicate, List.length_replicate,
    hstrip] at hroot
  obtain ⟨hups, hnames⟩ := Place.comps_inj hp hq hcomps
  exact Place.ext (by omega) hups hnames

/-- Paths with the same text in normal form lead to the same place. -/
theorem normpath_eq_iff : normpath s = normpath path ↔ place s = place path := by
  rw [normpath_eq, normpath_eq]
  exact ⟨Place.toPath_inj (proper_place s) (proper_place path), fun h => by rw [h]⟩

end Text

/-! ### Where relative places can meet -/

namespace Place

/-- The first place can be the second one: it has the last names of that one, which has no more
names in front of them than it has more steps up. -/
def MeetsBelow (w w' : Place) : Prop :=
  w.names <:+ w'.names ∧ w'.names.length + w.ups ≤ w.names.length + w'.ups

instance (w w' : Place) : Decidable (MeetsBelow w w') := inferInstanceAs (Decidable (_ ∧ _))

variable {p w w' : Place}

theorem meetsBelow_of_follow_eq (hle : w.ups ≤ w'.ups) (h : p.follow w = p.follow w') :
    MeetsBelow w w' := by
  have hnames : p.names.take (p.names.length - w.ups) ++ w.names =
      p.names.take (p.names.length - w'.ups) ++ w'.names := congrArg Place.names h
  have hlength := congrArg List.length hnames
  rw [List.length_append, List.length_append, List.length_take, List.length_take] at hlength
  -- what the second one takes away more of the names are its own first names
  have hprefix : p.names.take (p.names.length - w'.ups) <+:
      p.names.take (p.names.length - w.ups) := List.take_prefix_take_left (by omega)
  obtain ⟨more, hmore⟩ := hprefix
  rw [← hmore, List.append_assoc] at hnames
  exact ⟨⟨more, List.append_cancel_left hnames⟩, by omega⟩

/-- Two relative places that are the same one, followed from the same place. -/
theorem follow_eq_cases (h : p.follow w = p.follow w') : MeetsBelow w w' ∨ MeetsBelow w' w := by
  rcases le_total w.ups w'.ups with hle | hle
  · exact Or.inl (meetsBelow_of_follow_eq hle h)
  · exact Or.inr (meetsBelow_of_follow_eq hle h.symm)

/-- Names with further ones behind them, to be taken away by steps up. -/
def filled (names : List Str) (ups : Nat) : List Str := names ++ List.replicate ups ['a']

theorem isName_filled {names : List Str} (h : ∀ name ∈ names, IsName name) (ups : Nat) :
    ∀ name ∈ filled names ups, IsName name := by
  intro name hmem
  rcases List.mem_append.mp hmem with hmem | hmem
  · exact h name hmem
  · rw [List.eq_of_mem_replicate hmem]
    exact ⟨⟨by decide, by decide⟩, by decide, by decide⟩

theorem length_filled (names : List Str) (ups : Nat) :
    (filled names ups).length = names.length + ups := by
  rw [filled, List.length_append, List.length_replicate]

theorem take_filled (names : List Str) (ups : Nat) :
    (filled names ups).take ((filled names ups).length - ups) = names := by
  rw [length_filled, Nat.add_sub_cancel, filled, List.take_left]

/-- They are the same one from a place that has the names. -/
theorem exists_follow_eq (hw' : w'.Proper) (h : MeetsBelow w w') :
    ∃ names, (∀ name ∈ names, IsName name) ∧
      (⟨1, 0, names⟩ : Place).follow w = (⟨1, 0, names⟩ : Place).follow w' := by
  obtain ⟨⟨more, hmore⟩, hle⟩ := h
  have hlength := congrArg List.length hmore
  rw [List.length_append] at hlength
  refine ⟨filled more w.ups, isName_filled (fun name hmem => hw'.isName name ?_) _, ?_⟩
  · rw [← hmore]
    exact List.mem_append_left _ hmem
  · have htake : (filled more w.ups).take ((filled more w.ups).length - w'.ups) = [] := by
      rw [length_filled, Nat.sub_eq_zero_of_le (by omega), List.take_zero]
    rw [follow, follow, take_filled, htake, hmore, List.nil_append]
    rfl

/-- A relative place can be any one below a root that ends with its names. -/
theorem exists_follow_eq_of_root (hp : p.Proper) (hroot : p.root ≠ 0) (h : w.names <:+ p.names) :
    ∃ names, (∀ name ∈ names, IsName name) ∧ (⟨p.root, 0, names⟩ : Place).follow w = p := by
  obtain ⟨more, hmore⟩ := h
  refine ⟨filled more w.ups, isName_filled (fun name hmem => hp.isName name ?_) _, ?_⟩
  · rw [← hmore]
    exact List.mem_append_left _ hmem
  · rw [follow, take_filled, hmore]
    exact Place.ext rfl ((if_neg hroot).trans (hp.ups_eq hroot).symm) rfl

end Place

end Python
