import Ccbt.Concurrency.Coroutine

/-!
# Blocking locks in an event loop

Coroutines that run in one thread, with locks that block the thread. A task that is resumed runs up
to its next await or to its end, and no other task runs meanwhile. When it asks for a lock that is
taken, by another task or by itself, the thread waits for ever: the loop is frozen.

Tasks that hold nothing at their awaits never freeze the loop, and neither does a single one that
asks for nothing twice (`Orderly`). They end when they have been resumed often enough.
-/

namespace Concurrency

open Transition

/-- Whether a step runs on, or waits for something first. -/
inductive Point
  | runs
  | awaits
  deriving DecidableEq

variable {L I S ε α β : Type} [DecidableEq L]

namespace Coroutine

section Turn

/-- The coroutine up to its next await or its end, with the locks it holds and the state it leaves
then; `none` where it asks for a lock that is taken. -/
def turn (taken : L → Bool) (i : I) :
    Coroutine L Point I S ε α → List L → S → Option (Coroutine L Point I S ε α × List L × S)
  | done result, held, s => some (done result, held, s)
  | acquire l next, held, s =>
    if l ∈ held ∨ taken l = true then none else next.turn taken i (l :: held) s
  | release l next, held, s => next.turn taken i (held.erase l) s
  | step .runs effect next, held, s => (next i s).turn taken i held (effect i s)
  | step .awaits effect next, held, s => some (step .awaits effect next, held, s)

/-- A turn of a task: what it has waited for has come. -/
def resume (taken : L → Bool) (i : I) :
    Coroutine L Point I S ε α → List L → S → Option (Coroutine L Point I S ε α × List L × S)
  | step _ effect next, held, s => (next i s).turn taken i held (effect i s)
  | p, held, s => p.turn taken i held s

section TurnBind

variable {taken : L → Bool} {i : I} {held held' : List L} {s s' : S}
  {p q : Coroutine L Point I S ε α} (g : α → Coroutine L Point I S ε β)

theorem turn_bind_ok {a : α} (h : p.turn taken i held s = some (done (.ok a), held', s')) :
    (p >>= g).turn taken i held s = (g a).turn taken i held' s' := by
  change (p.bind g).turn taken i held s = _
  induction p generalizing held s with
  | done result =>
    cases h
    rfl
  | acquire l next ih =>
    rw [turn] at h
    split at h
    · cases h
    · next hfree =>
      rw [bind, turn, if_neg hfree]
      exact ih h
  | release l next ih => exact ih h
  | step point effect next ih =>
    cases point with
    | runs => exact ih i s h
    | awaits => cases h

theorem turn_bind_awaits {effect : I → S → S} {next : I → S → Coroutine L Point I S ε α}
    (h : p.turn taken i held s = some (step .awaits effect next, held', s')) :
    (p >>= g).turn taken i held s =
      some (step .awaits effect fun i s => (next i s).bind g, held', s') := by
  change (p.bind g).turn taken i held s = _
  induction p generalizing held s with
  | done result => cases h
  | acquire l next ih =>
    rw [turn] at h
    split at h
    · cases h
    · next hfree =>
      rw [bind, turn, if_neg hfree]
      exact ih h
  | release l next ih => exact ih h
  | step point effect next ih =>
    cases point with
    | runs => exact ih i s h
    | awaits =>
      cases h
      rfl

theorem turn_bind_none (h : p.turn taken i held s = none) :
    (p >>= g).turn taken i held s = none := by
  change (p.bind g).turn taken i held s = _
  induction p generalizing held s with
  | done result => cases h
  | acquire l next ih =>
    rw [bind, turn]
    split
    · rfl
    · next hfree =>
      rw [turn, if_neg hfree] at h
      exact ih h
  | release l next ih => exact ih h
  | step point effect next ih =>
    cases point with
    | runs => exact ih i s h
    | awaits => cases h

end TurnBind

/-- A coroutine that has been scheduled: it waits for its first turn. -/
def scheduled (p : Coroutine L Point I S ε α) : Coroutine L Point I S ε α :=
  step .awaits (fun _ s => s) fun _ _ => p

/-- The coroutine is at its end or at an await. -/
def Stopped : Coroutine L Point I S ε α → Prop
  | done _ => True
  | step .awaits _ _ => True
  | _ => False

def IsDone : Coroutine L Point I S ε α → Prop
  | done _ => True
  | _ => False

instance : (p : Coroutine L Point I S ε α) → Decidable p.IsDone
  | done _ => .isTrue trivial
  | acquire _ _ => .isFalse id
  | release _ _ => .isFalse id
  | step _ _ _ => .isFalse id

end Turn

section Orderly

variable (hold : Prop) (Inv : S → Prop)

/-- A coroutine that starts with the locks `held` and ends with `final`: it asks for no lock that
it holds, at an await it holds none unless `hold` allows it, and its steps keep the invariant. -/
def Orderly : Coroutine L Point I S ε α → List L → List L → Prop
  | done _, held, final => held = final
  | acquire l next, held, final => l ∉ held ∧ next.Orderly (l :: held) final
  | release l next, held, final => next.Orderly (held.erase l) final
  | step point effect next, held, final => (point = .awaits → hold ∨ held = []) ∧
    ∀ i s, Inv s → Inv (effect i s) ∧ (next i s).Orderly held final

/-- Whatever happens, the coroutine comes to at most this many awaits. -/
def AwaitsAtMost : Coroutine L Point I S ε α → Nat → Prop
  | done _, _ => True
  | acquire _ next, n => next.AwaitsAtMost n
  | release _ next, n => next.AwaitsAtMost n
  | step .runs _ next, n => ∀ i s, (next i s).AwaitsAtMost n
  | step .awaits _ next, n => 0 < n ∧ ∀ i s, (next i s).AwaitsAtMost (n - 1)

variable {hold} {Inv} {held final : List L} {p : Coroutine L Point I S ε α} {m n : Nat}

theorem orderly_bind {g : α → Coroutine L Point I S ε β} (hp : p.Orderly hold Inv held final)
    (hg : ∀ a, (g a).Orderly hold Inv final final) : (p >>= g).Orderly hold Inv held final := by
  change (p.bind g).Orderly hold Inv held final
  induction p generalizing held with
  | done result =>
    cases hp
    cases result with
    | error e => rfl
    | ok a => exact hg a
  | acquire l next ih => exact ⟨hp.1, ih hp.2⟩
  | release l next ih => exact ih hp
  | step point effect next ih =>
    exact ⟨hp.1, fun i s hs => ⟨(hp.2 i s hs).1, ih i s (hp.2 i s hs).2⟩⟩

theorem orderly_thenWith {mid : List L} {g : Except ε α → Coroutine L Point I S ε β}
    (hp : p.Orderly hold Inv held mid) (hg : ∀ result, (g result).Orderly hold Inv mid final) :
    (p.thenWith g).Orderly hold Inv held final := by
  induction p generalizing held with
  | done result =>
    cases hp
    exact hg result
  | acquire l next ih => exact ⟨hp.1, ih hp.2⟩
  | release l next ih => exact ih hp
  | step point effect next ih =>
    exact ⟨hp.1, fun i s hs => ⟨(hp.2 i s hs).1, ih i s (hp.2 i s hs).2⟩⟩

theorem orderly_withLock {l : L} (hl : l ∉ held) (hp : p.Orderly hold Inv (l :: held) (l :: held)) :
    (withLock l p).Orderly hold Inv held held :=
  ⟨hl, orderly_thenWith hp fun _ => List.erase_cons_head l held⟩

/-- A step, and what is done with its result. -/
theorem orderly_atomic_bind {point : Point} {f : I → S → Except ε α × S}
    {g : α → Coroutine L Point I S ε β} (hpoint : point = .awaits → hold ∨ held = [])
    (hInv : ∀ i s, Inv s → Inv (f i s).2)
    (hg : ∀ i s a, Inv s → (f i s).1 = .ok a → (g a).Orderly hold Inv held held) :
    (atomic point f >>= g).Orderly hold Inv held held := by
  refine ⟨hpoint, fun i s hs => ⟨hInv i s hs, ?_⟩⟩
  show ((done (f i s).1 : Coroutine L Point I S ε α).bind g).Orderly hold Inv held held
  cases hf : (f i s).1 with
  | error e => rfl
  | ok a => exact hg i s a hs hf

theorem orderly_atomic {point : Point} {f : I → S → Except ε α × S}
    (hpoint : point = .awaits → hold ∨ held = []) (hInv : ∀ i s, Inv s → Inv (f i s).2) :
    (atomic point f : Coroutine L Point I S ε α).Orderly hold Inv held held :=
  ⟨hpoint, fun i s hs => ⟨hInv i s hs, rfl⟩⟩

/-- In its turn an orderly coroutine gets the locks it asks for if nobody else has them. -/
theorem Orderly.turn (h : p.Orderly hold Inv held []) {taken : L → Bool}
    (htaken : ∀ l, taken l = false) (i : I) {s : S} (hs : Inv s) : ∃ q held' s',
      p.turn taken i held s = some (q, held', s') ∧ q.Stopped ∧ q.Orderly hold Inv held' [] ∧
        (hold ∨ held' = []) ∧ Inv s' := by
  induction p generalizing held s with
  | done result => exact ⟨done result, held, s, rfl, trivial, h, .inr h, hs⟩
  | acquire l next ih =>
    have hfree : ¬(l ∈ held ∨ taken l = true) := by
      rintro (hmem | htrue)
      · exact h.1 hmem
      · rw [htaken] at htrue
        exact absurd htrue (by decide)
    rw [Coroutine.turn, if_neg hfree]
    exact ih h.2 hs
  | release l next ih => exact ih h hs
  | step point effect next ih =>
    cases point with
    | runs => exact ih i s (h.2 i s hs).2 (h.2 i s hs).1
    | awaits => exact ⟨.step .awaits effect next, held, s, rfl, trivial, h, h.1 rfl, hs⟩

theorem Orderly.resume (h : p.Orderly hold Inv held []) {taken : L → Bool}
    (htaken : ∀ l, taken l = false) (i : I) {s : S} (hs : Inv s) : ∃ q held' s',
      p.resume taken i held s = some (q, held', s') ∧ q.Stopped ∧ q.Orderly hold Inv held' [] ∧
        (hold ∨ held' = []) ∧ Inv s' := by
  cases p with
  | step point effect next => exact (h.2 i s hs).2.turn htaken i (h.2 i s hs).1
  | done | acquire | release => exact h.turn htaken i hs

omit [DecidableEq L] in
theorem AwaitsAtMost.mono (h : p.AwaitsAtMost m) (hle : m ≤ n) : p.AwaitsAtMost n := by
  induction p generalizing m n with
  | done result => trivial
  | acquire l next ih | release l next ih => exact ih h hle
  | step point effect next ih =>
    cases point with
    | runs => exact fun i s => ih i s (h i s) hle
    | awaits => exact ⟨Nat.lt_of_lt_of_le h.1 hle, fun i s => ih i s (h.2 i s) (by omega)⟩

omit [DecidableEq L] in
theorem awaitsAtMost_bind {g : α → Coroutine L Point I S ε β} (hp : p.AwaitsAtMost m)
    (hg : ∀ a, (g a).AwaitsAtMost n) : (p >>= g).AwaitsAtMost (m + n) := by
  change (p.bind g).AwaitsAtMost (m + n)
  induction p generalizing m with
  | done result =>
    cases result with
    | error e => trivial
    | ok a => exact (hg a).mono (Nat.le_add_left n m)
  | acquire l next ih | release l next ih => exact ih hp
  | step point effect next ih =>
    cases point with
    | runs => exact fun i s => ih i s (hp i s)
    | awaits =>
      obtain ⟨hpos, hp⟩ := hp
      refine ⟨by omega, fun i s => (ih i s (hp i s)).mono (by omega)⟩

omit [DecidableEq L] in
theorem awaitsAtMost_withLock {l : L} (hp : p.AwaitsAtMost n) :
    (withLock l p).AwaitsAtMost n := by
  change (p.thenWith _).AwaitsAtMost n
  induction p generalizing n with
  | done result => trivial
  | acquire l next ih | release l next ih => exact ih hp
  | step point effect next ih =>
    cases point with
    | runs => exact fun i s => ih i s (hp i s)
    | awaits => exact ⟨hp.1, fun i s => ih i s (hp.2 i s)⟩

theorem AwaitsAtMost.turn {taken : L → Bool} {i : I} {s s' : S} {held' : List L}
    {q : Coroutine L Point I S ε α} (h : p.AwaitsAtMost n)
    (hq : p.turn taken i held s = some (q, held', s')) : q.AwaitsAtMost n := by
  induction p generalizing held s with
  | done result =>
    cases hq
    trivial
  | acquire l next ih =>
    rw [Coroutine.turn] at hq
    split at hq
    · cases hq
    · exact ih h hq
  | release l next ih => exact ih h hq
  | step point effect next ih =>
    cases point with
    | runs => exact ih i s (h i s) hq
    | awaits =>
      cases hq
      exact h

/-- A turn takes one of the awaits away. -/
theorem AwaitsAtMost.resume {taken : L → Bool} {i : I} {s s' : S} {held' : List L}
    {q : Coroutine L Point I S ε α} (h : p.AwaitsAtMost n) (hp : p.Stopped)
    (hq : p.resume taken i held s = some (q, held', s')) : q.AwaitsAtMost (n - 1) := by
  cases p with
  | done result =>
    cases hq
    trivial
  | acquire l next => exact hp.elim
  | release l next => exact hp.elim
  | step point effect next =>
    cases point with
    | runs => exact hp.elim
    | awaits => exact (h.2 i s).turn hq

omit [DecidableEq L] in
/-- A coroutine that stands still and comes to no await is at its end. -/
theorem isDone_of_awaitsAtMost (h : p.AwaitsAtMost 0) (hp : p.Stopped) : p.IsDone := by
  cases p with
  | done result => trivial
  | acquire l next => exact hp.elim
  | release l next => exact hp.elim
  | step point effect next =>
    cases point with
    | runs => exact hp.elim
    | awaits => exact absurd h.1 (Nat.lt_irrefl 0)

end Orderly

end Coroutine

structure EventLoop (L I S ε : Type) where
  tasks : List (Task L Point I S ε)
  shared : S
  frozen : Bool := false

namespace EventLoop

/-- The lock is held by a task other than the one with this number. -/
def taken (loop : EventLoop L I S ε) (n : Nat) (l : L) : Bool :=
  (loop.tasks.eraseIdx n).any fun t => l ∈ t.held

def step (loop : EventLoop L I S ε) (e : Nat × I) : EventLoop L I S ε :=
  if loop.frozen then loop
  else
    match loop.tasks[e.1]? with
    | none => loop
    | some t =>
      match t.code.resume (loop.taken e.1) e.2 t.held loop.shared with
      | none => { loop with frozen := true }
      | some (code, held, s) => ⟨loop.tasks.set e.1 ⟨code, held⟩, s, false⟩

/-- Tasks that have been scheduled. -/
def start (codes : List (Coroutine L Point I S ε Unit)) (s : S) : EventLoop L I S ε :=
  ⟨codes.map fun code => ⟨code.scheduled, []⟩, s, false⟩

/-- A task that stands before a lock that is taken freezes the loop. -/
theorem frozen_step {loop : EventLoop L I S ε} {n : Nat} {i : I} {t : Task L Point I S ε}
    (ht : loop.tasks[n]? = some t)
    (hresume : t.code.resume (loop.taken n) i t.held loop.shared = none) :
    (loop.step (n, i)).frozen = true := by
  rw [step]
  split
  · next hfrozen => exact hfrozen
  · rw [ht]
    dsimp only
    rw [hresume]

/-- A task that gets its turn, with the others as they have been. -/
theorem step_of_resume {loop : EventLoop L I S ε} {n : Nat} {i : I} {t : Task L Point I S ε}
    {code : Coroutine L Point I S ε Unit} {held : List L} {s : S} (hrunning : loop.frozen = false)
    (ht : loop.tasks[n]? = some t)
    (hresume : t.code.resume (loop.taken n) i t.held loop.shared = some (code, held, s)) :
    loop.step (n, i) = ⟨loop.tasks.set n ⟨code, held⟩, s, false⟩ := by
  rw [step, if_neg (by simp [hrunning]), ht]
  dsimp only
  rw [hresume]

/-- The loop is not frozen, its tasks are orderly and stand still, and where they may hold locks at
their awaits there is one task only. -/
structure Well (hold : Prop) (Inv : S → Prop) (loop : EventLoop L I S ε) : Prop where
  running : loop.frozen = false
  shared : Inv loop.shared
  single : hold → loop.tasks.length ≤ 1
  tasks : ∀ t ∈ loop.tasks, t.code.Stopped ∧ t.code.Orderly hold Inv t.held [] ∧
    (hold ∨ t.held = [])

variable {hold : Prop} {Inv : S → Prop} {loop : EventLoop L I S ε}
  {codes : List (Coroutine L Point I S ε Unit)} {s : S}

theorem Well.start (hs : Inv s) (hsingle : hold → codes.length ≤ 1)
    (hcodes : ∀ code ∈ codes, code.Orderly hold Inv [] []) : (start codes s).Well hold Inv where
  running := rfl
  shared := hs
  single := fun hhold => by
    rw [EventLoop.start, List.length_map]
    exact hsingle hhold
  tasks := by
    intro t ht
    obtain ⟨code, hcode, rfl⟩ := List.mem_map.mp ht
    exact ⟨trivial, ⟨fun _ => .inr rfl, fun _ _ hs => ⟨hs, hcodes code hcode⟩⟩, .inr rfl⟩

/-- Where all is well nobody holds what another task asks for. -/
theorem Well.taken (h : loop.Well hold Inv) {n : Nat} (hn : n < loop.tasks.length) (l : L) :
    loop.taken n l = false := by
  rw [EventLoop.taken, List.any_eq_false]
  intro t ht
  rcases (h.tasks t (List.mem_of_mem_eraseIdx ht)).2.2 with hhold | hnone
  · have hlength := List.length_eraseIdx_of_lt hn
    have hpos := List.length_pos_of_mem ht
    have hle := h.single hhold
    omega
  · simp [hnone]

/-- A turn ends, and the task stands still again. -/
theorem Well.step (h : loop.Well hold Inv) (e : Nat × I) : (loop.step e).Well hold Inv := by
  rw [EventLoop.step, if_neg (by simp [h.running])]
  cases ht : loop.tasks[e.1]? with
  | none => exact h
  | some t =>
    obtain ⟨hn, hget⟩ := List.getElem?_eq_some_iff.mp ht
    obtain ⟨-, horderly, -⟩ := h.tasks t (hget ▸ List.getElem_mem hn)
    obtain ⟨q, held, s, hresume, hstopped, horderly', hheld, hs⟩ :=
      horderly.resume (h.taken hn) e.2 h.shared
    dsimp only
    rw [hresume]
    refine ⟨rfl, hs, fun hhold => ?_, fun t' ht' => ?_⟩
    · rw [List.length_set]
      exact h.single hhold
    · rcases List.mem_or_eq_of_mem_set ht' with ht' | rfl
      · exact h.tasks t' ht'
      · exact ⟨hstopped, horderly', hheld⟩

/-- All is well in every run. -/
theorem Well.after (h : loop.Well hold Inv) (es : List (Nat × I)) :
    (run EventLoop.step loop es).Well hold Inv := by
  have halways := always_of_invariant (fun _ e h => h.step e) h es
  have hlast := always_iff_take.mp halways es.length
  rwa [List.take_length] at hlast

/-- The awaits that a task has left, when it has had some turns. -/
theorem Well.awaitsAtMost_run (h : loop.Well hold Inv) {n k : Nat} (es : List (Nat × I))
    (htask : ∀ t, loop.tasks[n]? = some t → t.code.AwaitsAtMost k) :
    ∀ t, (run EventLoop.step loop es).tasks[n]? = some t →
      t.code.AwaitsAtMost (k - (es.map Prod.fst).count n) := by
  induction es generalizing loop k with
  | nil => exact htask
  | cons e es ih =>
    have hstep : ∀ t, (loop.step e).tasks[n]? = some t →
        t.code.AwaitsAtMost (if e.1 = n then k - 1 else k) := by
      intro t ht
      rw [EventLoop.step, if_neg (by simp [h.running])] at ht
      cases hget : loop.tasks[e.1]? with
      | none =>
        rw [hget] at ht
        split
        · next heq =>
          rw [heq] at hget
          rw [hget] at ht
          cases ht
        · exact htask t ht
      | some t₀ =>
        obtain ⟨hn, hget'⟩ := List.getElem?_eq_some_iff.mp hget
        obtain ⟨hstopped, horderly, -⟩ := h.tasks t₀ (hget' ▸ List.getElem_mem hn)
        obtain ⟨q, held, s, hresume, -⟩ := horderly.resume (h.taken hn) e.2 h.shared
        rw [hget] at ht
        dsimp only at ht
        rw [hresume] at ht
        dsimp only at ht
        split
        · next heq =>
          rw [heq] at hget hn
          rw [heq, List.getElem?_set_self hn] at ht
          cases ht
          exact (htask t₀ hget).resume hstopped hresume
        · next hne =>
          rw [List.getElem?_set_ne hne] at ht
          exact htask t ht
    have hrun := ih (h.step e) hstep
    intro t ht
    have hleft := hrun t ht
    rw [List.map_cons, List.count_cons]
    refine hleft.mono ?_
    by_cases heq : e.1 = n
    · rw [if_pos heq, if_pos (beq_iff_eq.mpr heq)]
      omega
    · rw [if_neg heq, if_neg (by simpa using heq)]
      omega

/-- Tasks that are orderly end when they have had turns enough. -/
theorem Well.isDone_run (h : loop.Well hold Inv) {k : Nat} {es : List (Nat × I)}
    (htasks : ∀ t ∈ loop.tasks, t.code.AwaitsAtMost k)
    (hturns : ∀ n < (run EventLoop.step loop es).tasks.length, k ≤ (es.map Prod.fst).count n) :
    ∀ t ∈ (run EventLoop.step loop es).tasks, t.code.IsDone := by
  intro t ht
  obtain ⟨n, hn, hget⟩ := List.getElem_of_mem ht
  have hleft := h.awaitsAtMost_run es (fun t ht => htasks t (List.mem_of_getElem? ht)) t
    (List.getElem?_eq_some_iff.mpr ⟨hn, hget⟩)
  rw [Nat.sub_eq_zero_of_le (hturns n hn)] at hleft
  exact Coroutine.isDone_of_awaitsAtMost hleft ((h.after es).tasks t ht).1

theorem length_tasks_step (loop : EventLoop L I S ε) (e : Nat × I) :
    (loop.step e).tasks.length = loop.tasks.length := by
  rw [step]
  split
  · rfl
  · split
    · rfl
    · split
      · rfl
      · exact List.length_set

theorem length_tasks_run (loop : EventLoop L I S ε) (es : List (Nat × I)) :
    (run step loop es).tasks.length = loop.tasks.length := by
  induction es generalizing loop with
  | nil => rfl
  | cons e es ih => exact (ih (loop.step e)).trans (length_tasks_step loop e)

end EventLoop

end Concurrency
