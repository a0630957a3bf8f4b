import Ccbt.Transition.Run

/-!
# Coroutines that share locks

A coroutine is what one task still has to do: acquire and release locks that are not
reentrant, and steps that no other task can interrupt. A step reads an input from outside,
reads and writes what the tasks share, and carries the name of the place it stands at. A
coroutine ends with a result or an exception.

A `System` is the tasks with the locks they hold and the shared state. One event of a run
names a task and gives its input: the task moves if it can, and a task that waits for a
lock stays where it is.
-/

namespace Concurrency

inductive Coroutine (L A I S ε α : Type)
  | done (result : Except ε α)
  | acquire (l : L) (next : Coroutine L A I S ε α)
  | release (l : L) (next : Coroutine L A I S ε α)
  | step (site : A) (effect : I → S → S) (next : I → S → Coroutine L A I S ε α)

namespace Coroutine

variable {L A I S ε α β : Type}

/-- Sequencing: an exception ends the whole. -/
def bind : Coroutine L A I S ε α → (α → Coroutine L A I S ε β) → Coroutine L A I S ε β
  | done (.ok a), g => g a
  | done (.error e), _ => done (.error e)
  | acquire l next, g => acquire l (next.bind g)
  | release l next, g => release l (next.bind g)
  | step site effect next, g => step site effect fun i s => (next i s).bind g

/-- The coroutine up to its end, and then what its result or its exception says. -/
def thenWith : Coroutine L A I S ε α →
    (Except ε α → Coroutine L A I S ε β) → Coroutine L A I S ε β
  | done result, g => g result
  | acquire l next, g => acquire l (next.thenWith g)
  | release l next, g => release l (next.thenWith g)
  | step site effect next, g => step site effect fun i s => (next i s).thenWith g

instance : Monad (Coroutine L A I S ε) where
  pure a := done (.ok a)
  bind := bind

def raise (e : ε) : Coroutine L A I S ε α := done (.error e)

/-- `async with l: body`. The lock is released whether the body returns or raises. -/
def withLock (l : L) (body : Coroutine L A I S ε α) : Coroutine L A I S ε α :=
  acquire l (body.thenWith fun result => release l (done result))

/-- `try: body` with a handler for every exception. -/
def tryCatch (body : Coroutine L A I S ε α) (handler : ε → Coroutine L A I S ε α) :
    Coroutine L A I S ε α :=
  body.thenWith fun result =>
    match result with
    | .ok a => done (.ok a)
    | .error e => handler e

/-- One step, with what it returns or raises and the shared state it leaves. -/
def atomic (site : A) (f : I → S → Except ε α × S) : Coroutine L A I S ε α :=
  step site (fun i s => (f i s).2) fun i s => done (f i s).1

/-- A step that neither raises nor writes. -/
def read (site : A) (f : I → S → α) : Coroutine L A I S ε α :=
  atomic site fun i s => (.ok (f i s), s)

/-- A step that neither raises nor reads. -/
def modify (site : A) (f : I → S → S) : Coroutine L A I S ε Unit :=
  atomic site fun i s => (.ok (), f i s)

/-- The coroutine stands before a lock that is among these. -/
def Awaits (held : List L) : Coroutine L A I S ε α → Prop
  | acquire l _ => l ∈ held
  | _ => False

instance [DecidableEq L] (held : List L) : (p : Coroutine L A I S ε α) → Decidable (p.Awaits held)
  | done _ => .isFalse id
  | acquire l _ => inferInstanceAs (Decidable (l ∈ held))
  | release _ _ => .isFalse id
  | step _ _ _ => .isFalse id

theorem Awaits.bind {held : List L} {p : Coroutine L A I S ε α} (h : p.Awaits held)
    (g : α → Coroutine L A I S ε β) : (p.bind g).Awaits held := by
  cases p with
  | acquire l next => exact h
  | done | release | step => exact h.elim

theorem Awaits.thenWith {held : List L} {p : Coroutine L A I S ε α} (h : p.Awaits held)
    (g : Except ε α → Coroutine L A I S ε β) : (p.thenWith g).Awaits held := by
  cases p with
  | acquire l next => exact h
  | done | release | step => exact h.elim

/-- The coroutine taken to its end with every lock granted and nobody else moving, all its steps
on one input. -/
def finish (i : I) : Coroutine L A I S ε α → S → Except ε α × S
  | done result, s => (result, s)
  | acquire _ next, s => next.finish i s
  | release _ next, s => next.finish i s
  | step _ effect next, s => (next i s).finish i (effect i s)

theorem finish_bind {i : I} {s s' : S} {p : Coroutine L A I S ε α} {a : α}
    (g : α → Coroutine L A I S ε β) (h : p.finish i s = (.ok a, s')) :
    (p >>= g).finish i s = (g a).finish i s' := by
  change (p.bind g).finish i s = _
  induction p generalizing s with
  | done result =>
    cases h
    rfl
  | acquire l next ih | release l next ih => exact ih h
  | step site effect next ih => exact ih i s h

theorem finish_bind_error {i : I} {s s' : S} {p : Coroutine L A I S ε α} {e : ε}
    (g : α → Coroutine L A I S ε β) (h : p.finish i s = (.error e, s')) :
    (p >>= g).finish i s = (.error e, s') := by
  change (p.bind g).finish i s = _
  induction p generalizing s with
  | done result =>
    cases h
    rfl
  | acquire l next ih | release l next ih => exact ih h
  | step site effect next ih => exact ih i s h

@[simp] theorem finish_read_bind (i : I) (s : S) (site : A) (f : I → S → α)
    (g : α → Coroutine L A I S ε β) : (read site f >>= g).finish i s = (g (f i s)).finish i s := rfl

theorem finish_thenWith (i : I) (s : S) (p : Coroutine L A I S ε α)
    (g : Except ε α → Coroutine L A I S ε β) :
    (p.thenWith g).finish i s = (g (p.finish i s).1).finish i (p.finish i s).2 := by
  induction p generalizing s with
  | done result => rfl
  | acquire l next ih | release l next ih => exact ih s
  | step site effect next ih => exact ih i s (effect i s)

theorem finish_withLock (i : I) (s : S) (l : L) (body : Coroutine L A I S ε α) :
    (withLock l body).finish i s = body.finish i s := by
  rw [withLock, finish, finish_thenWith]
  rfl

/-- A loop whose turns end folds what they do, seen from a state that may hold more. -/
theorem finish_forM {T κ : Type} {i : I} {body : κ → Coroutine L A I S ε Unit} (view : T → S)
    {f : T → κ → T} {P : T → Prop} {xs : List κ} (hf : ∀ x ∈ xs, ∀ t, P t → P (f t x))
    (hbody : ∀ x ∈ xs, ∀ t, P t → (body x).finish i (view t) = (.ok (), view (f t x))) {t : T}
    (ht : P t) : (forM xs body).finish i (view t) = (.ok (), view (xs.foldl f t)) := by
  induction xs generalizing t with
  | nil => rfl
  | cons x xs ih =>
    rw [List.forM_cons, finish_bind _ (hbody x List.mem_cons_self t ht), List.foldl_cons]
    exact ih (fun y hy => hf y (List.mem_cons_of_mem _ hy))
      (fun y hy => hbody y (List.mem_cons_of_mem _ hy)) (hf x List.mem_cons_self t ht)

/-- The coroutines that one move of this one can lead to. -/
inductive Next : Coroutine L A I S ε α → Coroutine L A I S ε α → Prop
  | acquire (l : L) (p : Coroutine L A I S ε α) : Next p (.acquire l p)
  | release (l : L) (p : Coroutine L A I S ε α) : Next p (.release l p)
  | step (site : A) (effect : I → S → S) (next : I → S → Coroutine L A I S ε α) (i : I) (s : S) :
      Next (next i s) (.step site effect next)

theorem wellFounded_next : WellFounded (@Next L A I S ε α) := by
  constructor
  intro p
  induction p with
  | done result =>
    constructor
    intro q hq
    cases hq
  | acquire l next ih | release l next ih =>
    constructor
    intro q hq
    cases hq
    exact ih
  | step site effect next ih =>
    constructor
    intro q hq
    cases hq with
    | step _ _ _ i s => exact ih i s

end Coroutine

structure Task (L A I S ε : Type) where
  code : Coroutine L A I S ε Unit
  held : List L := []

structure System (L A I S ε : Type) where
  tasks : List (Task L A I S ε)
  shared : S

section Step

variable {L A I S ε : Type} [DecidableEq L]

/-- The task after one move, with the shared state, if the task can move. -/
def Task.step (free : L → Bool) (i : I) (s : S) (t : Task L A I S ε) :
    Option (Task L A I S ε × S) :=
  match t.code with
  | .done _ => none
  | .acquire l next => if free l then some (⟨next, l :: t.held⟩, s) else none
  | .release l next => some (⟨next, t.held.erase l⟩, s)
  | .step _ effect next => some (⟨next i s, t.held⟩, effect i s)

namespace System

/-- No task holds the lock. -/
def free (sys : System L A I S ε) (l : L) : Bool := sys.tasks.all fun t => l ∉ t.held

/-- The move of the task with this number. -/
def move (sys : System L A I S ε) (n : Nat) (i : I) : Option (Task L A I S ε × S) :=
  sys.tasks[n]?.bind (Task.step sys.free i sys.shared)

def step (sys : System L A I S ε) (e : Nat × I) : System L A I S ε :=
  match sys.move e.1 e.2 with
  | none => sys
  | some (t, s) => ⟨sys.tasks.set e.1 t, s⟩

def start (codes : List (Coroutine L A I S ε Unit)) (s : S) : System L A I S ε :=
  ⟨codes.map fun code => ⟨code, []⟩, s⟩

/-- Some task waits for a lock that it holds itself. -/
def SelfWait (sys : System L A I S ε) : Prop := ∃ t ∈ sys.tasks, t.code.Awaits t.held

instance (sys : System L A I S ε) : Decidable sys.SelfWait :=
  List.decidableBEx _ sys.tasks

/-- No task can move. -/
def Quiet (sys : System L A I S ε) : Prop := ∀ n i, sys.move n i = none

/-- Every task has come to its end and holds no lock. -/
def Finished (sys : System L A I S ε) : Prop :=
  ∀ t ∈ sys.tasks, (∃ result, t.code = .done result) ∧ t.held = []

/-- One system comes from the other by a move of a task. -/
def Moved (after before : System L A I S ε) : Prop :=
  ∃ n i, (before.move n i).isSome ∧ after = before.step (n, i)

theorem free_iff {sys : System L A I S ε} {l : L} :
    sys.free l = true ↔ ∀ t ∈ sys.tasks, l ∉ t.held := by
  simp [free]

/-- The locks of a finished system are free. -/
theorem Finished.free {sys : System L A I S ε} (h : sys.Finished) (l : L) :
    sys.free l = true := by
  rw [free_iff]
  intro t ht
  rw [(h t ht).2]
  exact List.not_mem_nil

theorem move_eq_some {sys : System L A I S ε} {n : Nat} {i : I} {p : Task L A I S ε × S}
    (h : sys.move n i = some p) :
    ∃ t, sys.tasks[n]? = some t ∧ t.step sys.free i sys.shared = some p :=
  Option.bind_eq_some_iff.mp h

theorem step_of_move {sys : System L A I S ε} {n : Nat} {i : I} {t : Task L A I S ε} {s : S}
    (h : sys.move n i = some (t, s)) : sys.step (n, i) = ⟨sys.tasks.set n t, s⟩ := by
  rw [step, h]

theorem step_of_move_none {sys : System L A I S ε} {e : Nat × I} (h : sys.move e.1 e.2 = none) :
    sys.step e = sys := by
  rw [step, h]

/-- A task moves along its coroutine. -/
theorem next_of_step {free : L → Bool} {i : I} {s s' : S} {t t' : Task L A I S ε}
    (h : t.step free i s = some (t', s')) : t'.code.Next t.code := by
  obtain ⟨code, held⟩ := t
  cases code with
  | done result => cases h
  | acquire l next =>
    simp only [Task.step] at h
    split at h
    · cases h
      exact .acquire l next
    · cases h
  | release l next =>
    cases h
    exact .release l next
  | step site effect next =>
    cases h
    exact .step site effect next i s

end System

end Step

/-!
## A coroutine by itself

What a coroutine comes to when no other task shares its locks: it ends, or it stands before a
lock that it holds for ever. `alone` computes which of the two, and it is read back from the
runs of the system that has this coroutine as its only task.
-/

open Transition

variable {L A I S ε α β : Type} [DecidableEq L]

namespace Coroutine

/-- What a coroutine that holds these locks ends with, the locks it holds then and the state it
leaves, all its steps on one input; `none` where it waits for a lock it holds. -/
def alone (i : I) : Coroutine L A I S ε α → List L → S → Option (Except ε α × List L × S)
  | done result, held, s => some (result, held, s)
  | acquire l next, held, s => if l ∈ held then none else next.alone i (l :: held) s
  | release l next, held, s => next.alone i (held.erase l) s
  | step _ effect next, held, s => (next i s).alone i held (effect i s)

variable {i : I} {held : List L} {s : S}

theorem alone_bind (p : Coroutine L A I S ε α) (g : α → Coroutine L A I S ε β) :
    (p >>= g).alone i held s = (p.alone i held s).bind fun e =>
      match e.1 with
      | .ok a => (g a).alone i e.2.1 e.2.2
      | .error err => some (.error err, e.2) := by
  show (p.bind g).alone i held s = _
  induction p generalizing held s with
  | done result => cases result <;> rfl
  | acquire l next ih =>
    rw [bind, alone, alone]
    split
    · rfl
    · exact ih
  | release l next ih => exact ih
  | step site effect next ih => exact ih i s

theorem alone_thenWith (p : Coroutine L A I S ε α) (g : Except ε α → Coroutine L A I S ε β) :
    (p.thenWith g).alone i held s = (p.alone i held s).bind fun e =>
      (g e.1).alone i e.2.1 e.2.2 := by
  induction p generalizing held s with
  | done result => rfl
  | acquire l next ih =>
    rw [thenWith, alone, alone]
    split
    · rfl
    · exact ih
  | release l next ih => exact ih
  | step site effect next ih => exact ih i s

/-- Under a lock that is free the body decides. -/
theorem alone_withLock {l : L} (hl : l ∉ held) (body : Coroutine L A I S ε α) :
    (withLock l body).alone i held s = (body.alone i (l :: held) s).map fun e =>
      (e.1, e.2.1.erase l, e.2.2) := by
  rw [withLock, alone, if_neg hl, alone_thenWith, Option.map_eq_bind]
  rfl

/-- A lock that is held already is waited for in vain. -/
theorem alone_withLock_of_mem {l : L} (hl : l ∈ held) (body : Coroutine L A I S ε α) :
    (withLock l body).alone i held s = none := by
  rw [withLock, alone, if_pos hl]

end Coroutine

namespace System

open Coroutine

/-- The system whose only task has this coroutine and these locks. -/
def single (p : Coroutine L A I S ε Unit) (held : List L) (s : S) : System L A I S ε :=
  ⟨[⟨p, held⟩], s⟩

/-- The system after its first task has been called on `n` times. -/
def afterTurns (i : I) (n : Nat) (sys : System L A I S ε) : System L A I S ε :=
  run step sys (List.replicate n (0, i))

/-- Started without a lock and left to itself, the coroutine never waits for a lock it holds,
and it comes to an end with all locks free. -/
structure RunsToEnd (i : I) (p : Coroutine L A I S ε Unit) (s : S) : Prop where
  not_selfWait : ∀ n, ¬((start [p] s).afterTurns i n).SelfWait
  finished : ∃ n, ((start [p] s).afterTurns i n).Finished

/-- Started without a lock and left to itself, the coroutine ends without an exception and with
all locks free. -/
def Returns (i : I) (p : Coroutine L A I S ε Unit) (s : S) : Prop :=
  ∃ n s', (start [p] s).afterTurns i n = single (done (.ok ())) [] s'

variable {i : I} {p : Coroutine L A I S ε Unit} {held : List L} {s : S}

theorem free_single {l : L} : (single p held s).free l = true ↔ l ∉ held := by
  simp [free_iff, single]

theorem step_acquire_of_mem {l : L} {next : Coroutine L A I S ε Unit} (hl : l ∈ held) :
    (single (acquire l next) held s).step (0, i) = single (acquire l next) held s := by
  refine step_of_move_none ?_
  show (if (single (acquire l next) held s).free l then _ else none) = none
  exact if_neg fun h => free_single.mp h hl

theorem step_acquire_of_notMem {l : L} {next : Coroutine L A I S ε Unit} (hl : l ∉ held) :
    (single (acquire l next) held s).step (0, i) = single next (l :: held) s := by
  refine step_of_move ?_
  show (if (single (acquire l next) held s).free l then _ else none) = _
  exact if_pos (free_single.mpr hl)

section Turns

variable (i : I) (p : Coroutine L A I S ε Unit) (held : List L) (s : S)

/-- One turn of the only task keeps what the coroutine comes to. -/
theorem step_single : ∃ q h t, (single p held s).step (0, i) = single q h t ∧
    q.alone i h t = p.alone i held s := by
  cases p with
  | done result => exact ⟨_, _, _, rfl, rfl⟩
  | acquire l next =>
    by_cases hl : l ∈ held
    · exact ⟨acquire l next, held, s, step_acquire_of_mem hl, rfl⟩
    · refine ⟨next, l :: held, s, step_acquire_of_notMem hl, ?_⟩
      rw [alone, if_neg hl]
  | release l next => exact ⟨next, held.erase l, s, rfl, rfl⟩
  | step site effect next => exact ⟨next i s, held, effect i s, rfl, rfl⟩

/-- However many turns the only task has had, what is left of it comes to the same. -/
theorem afterTurns_single (n : Nat) : ∃ q h t, (single p held s).afterTurns i n = single q h t ∧
    q.alone i h t = p.alone i held s := by
  induction n generalizing p held s with
  | zero => exact ⟨p, held, s, rfl, rfl⟩
  | succ n ih =>
    obtain ⟨q, h, t, hstep, halone⟩ := step_single i p held s
    rw [← halone]
    show ∃ q' h' t', ((single p held s).step (0, i)).afterTurns i n = single q' h' t' ∧ _
    rw [hstep]
    exact ih q h t

/-- After enough turns the only task has ended or waits for itself. -/
def Settles (i : I) (sys : System L A I S ε) : Prop :=
  ∃ n q h t, sys.afterTurns i n = single q h t ∧ ((∃ result, q = done result) ∨ q.Awaits h)

theorem Settles.of_step {sys : System L A I S ε} (h : (sys.step (0, i)).Settles i) :
    sys.Settles i := by
  obtain ⟨n, hn⟩ := h
  exact ⟨n + 1, hn⟩

theorem settles_single : (single p held s).Settles i := by
  -- every turn that moves leaves less of the coroutine
  induction p generalizing held s with
  | done result => exact ⟨0, _, _, _, rfl, .inl ⟨result, rfl⟩⟩
  | acquire l next ih =>
    by_cases hl : l ∈ held
    · exact ⟨0, _, _, _, rfl, .inr hl⟩
    · have hnext : ((single (acquire l next) held s).step (0, i)).Settles i := by
        rw [step_acquire_of_notMem hl]
        exact ih (l :: held) s
      exact hnext.of_step
  | release l next ih =>
    have hnext : ((single (release l next) held s).step (0, i)).Settles i := ih (held.erase l) s
    exact hnext.of_step
  | step site effect next ih =>
    have hnext : ((single (.step site effect next) held s).step (0, i)).Settles i :=
      ih i s held (effect i s)
    exact hnext.of_step

end Turns

theorem alone_of_awaits (h : p.Awaits held) : p.alone i held s = none := by
  cases p with
  | acquire l next => exact if_pos h
  | done | release | step => exact h.elim

/-- What the coroutine comes to is seen in the runs of its system. -/
theorem alone_eq_some_iff {result : Except ε Unit} {final : List L} {s' : S} :
    p.alone i held s = some (result, final, s') ↔
      ∃ n, (single p held s).afterTurns i n = single (done result) final s' := by
  constructor
  · intro hend
    -- it cannot wait for itself, since then it would come to nothing
    obtain ⟨n, q, h, t, hturns, ⟨result', rfl⟩ | hwait⟩ := settles_single i p held s
    · obtain ⟨q', h', t', hturns', halone⟩ := afterTurns_single i p held s n
      cases hturns.symm.trans hturns'
      cases halone.trans hend
      exact ⟨n, hturns⟩
    · obtain ⟨q', h', t', hturns', halone⟩ := afterTurns_single i p held s n
      cases hturns.symm.trans hturns'
      rw [alone_of_awaits hwait, hend] at halone
      cases halone
  · rintro ⟨n, hn⟩
    obtain ⟨q, h, t, hturns, halone⟩ := afterTurns_single i p held s n
    cases hn.symm.trans hturns
    exact halone.symm

/-- The coroutine runs to its end exactly when it comes to a result and holds no lock then. -/
theorem runsToEnd_iff : RunsToEnd i p s ↔ ∃ result s', p.alone i [] s = some (result, [], s') := by
  constructor
  · rintro ⟨-, n, hfinished⟩
    obtain ⟨q, h, t, hturns, halone⟩ := afterTurns_single i p [] s n
    have hturns : (start [p] s).afterTurns i n = single q h t := hturns
    rw [hturns] at hfinished
    obtain ⟨⟨result, rfl⟩, rfl⟩ := hfinished ⟨q, h⟩ (List.mem_singleton.mpr rfl)
    exact ⟨result, t, halone.symm⟩
  · rintro ⟨result, s', hend⟩
    constructor
    · rintro n ⟨task, htask, hwait⟩
      obtain ⟨q, h, t, hturns, halone⟩ := afterTurns_single i p [] s n
      have hturns : (start [p] s).afterTurns i n = single q h t := hturns
      rw [hturns] at htask
      cases List.mem_singleton.mp htask
      rw [alone_of_awaits hwait, hend] at halone
      cases halone
    · obtain ⟨n, hn⟩ := alone_eq_some_iff.mp hend
      refine ⟨n, ?_⟩
      show ((single p [] s).afterTurns i n).Finished
      rw [hn]
      intro task htask
      cases List.mem_singleton.mp htask
      exact ⟨⟨result, rfl⟩, rfl⟩

theorem returns_iff : Returns i p s ↔ ∃ s', p.alone i [] s = some (.ok (), [], s') := by
  rw [Returns, exists_comm]
  exact exists_congr fun s' => alone_eq_some_iff.symm

/-- A coroutine that comes to a result without a lock returns if the result is no exception. -/
theorem runsToEnd_and_returns_iff {result : Except ε Unit} {s' : S}
    (h : p.alone i [] s = some (result, [], s')) :
    RunsToEnd i p s ∧ (Returns i p s ↔ result = .ok ()) := by
  refine ⟨runsToEnd_iff.mpr ⟨result, s', h⟩, ?_⟩
  rw [returns_iff, h]
  simp

/-- A coroutine that waits for a lock it holds neither ends nor returns. -/
theorem not_runsToEnd_and_not_returns (h : p.alone i [] s = none) :
    ¬RunsToEnd i p s ∧ ¬Returns i p s := by
  rw [runsToEnd_iff, returns_iff, h]
  simp

end System

end Concurrency
