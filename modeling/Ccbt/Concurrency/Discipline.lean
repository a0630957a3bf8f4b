import Ccbt.Concurrency.Coroutine
import Mathlib.Logic.Hydra
import Mathlib.Order.WellFounded

/-!
# Lock discipline

The locks are ordered by a rank. A coroutine is disciplined when it acquires locks in the
order of their ranks, releases only what it holds and ends with what it should hold; at a
step that does not meet the condition `C` it must run straight into a lock that it holds.

The rules below derive the discipline of a coroutine from that of its parts. For a system
of disciplined coroutines the condition decides everything: as long as the steps meet it no
task waits for a lock it holds, and tasks can only come to rest when all have ended and all
locks are free; the first step that does not meet it leaves a task waiting for itself.
-/

namespace Concurrency

open Transition

variable {L A I S ε α β : Type} [DecidableEq L] {C : A → I → S → Prop} {rank : L → Nat}

namespace Coroutine

/-- The discipline of a coroutine that starts with the locks `held` and ends with `final`. -/
def Disciplined (C : A → I → S → Prop) (rank : L → Nat) :
    Coroutine L A I S ε α → List L → List L → Prop
  | done _, held, final => held = final
  | acquire l next, held, final =>
    (∀ m ∈ held, rank m < rank l) ∧ next.Disciplined C rank (l :: held) final
  | release l next, held, final => l ∈ held ∧ next.Disciplined C rank (held.erase l) final
  | step site _ next, held, final => ∀ i s,
    (C site i s → (next i s).Disciplined C rank held final) ∧
      (¬C site i s → (next i s).Awaits held)

variable {held mid final : List L}

theorem disciplined_bind {p : Coroutine L A I S ε α} {g : α → Coroutine L A I S ε β}
    (hp : p.Disciplined C rank held final)
    (hg : ∀ a, (g a).Disciplined C rank final final) :
    (p >>= g).Disciplined C rank held final := by
  change (p.bind g).Disciplined C rank held final
  induction p generalizing held with
  | done result =>
    cases hp
    cases result with
    | error e => rfl
    | ok a => exact hg a
  | acquire l next ih => exact ⟨hp.1, ih hp.2⟩
  | release l next ih => exact ⟨hp.1, ih hp.2⟩
  | step site effect next ih =>
    intro i s
    exact ⟨fun hC => ih i s ((hp i s).1 hC), fun hC => ((hp i s).2 hC).bind g⟩

theorem disciplined_thenWith {p : Coroutine L A I S ε α}
    {g : Except ε α → Coroutine L A I S ε β} (hp : p.Disciplined C rank held mid)
    (hg : ∀ result, (g result).Disciplined C rank mid final) :
    (p.thenWith g).Disciplined C rank held final := by
  induction p generalizing held with
  | done result =>
    cases hp
    exact hg result
  | acquire l next ih => exact ⟨hp.1, ih hp.2⟩
  | release l next ih => exact ⟨hp.1, ih hp.2⟩
  | step site effect next ih =>
    intro i s
    exact ⟨fun hC => ih i s ((hp i s).1 hC), fun hC => ((hp i s).2 hC).thenWith g⟩

theorem disciplined_pure (a : α) :
    (pure a : Coroutine L A I S ε α).Disciplined C rank held held := rfl

theorem disciplined_raise (e : ε) :
    (raise e : Coroutine L A I S ε α).Disciplined C rank held held := rfl

theorem disciplined_withLock {l : L} {body : Coroutine L A I S ε α}
    (hl : ∀ m ∈ held, rank m < rank l)
    (hbody : body.Disciplined C rank (l :: held) (l :: held)) :
    (withLock l body).Disciplined C rank held held := by
  refine ⟨hl, disciplined_thenWith hbody fun result => ⟨List.mem_cons_self, ?_⟩⟩
  exact List.erase_cons_head l held

theorem disciplined_tryCatch {body : Coroutine L A I S ε α} {handler : ε → Coroutine L A I S ε α}
    (hbody : body.Disciplined C rank held held)
    (hhandler : ∀ e, (handler e).Disciplined C rank held held) :
    (body.tryCatch handler).Disciplined C rank held held := by
  refine disciplined_thenWith hbody fun result => ?_
  cases result with
  | ok a => rfl
  | error e => exact hhandler e

theorem disciplined_atomic {site : A} (hC : ∀ i s, C site i s) (f : I → S → Except ε α × S) :
    (atomic site f : Coroutine L A I S ε α).Disciplined C rank held held :=
  fun i s => ⟨fun _ => rfl, fun h => absurd (hC i s) h⟩

/-- The rule for a place where the condition matters: what follows is disciplined when it is
met, and a wait for a lock already held when it is not. -/
theorem disciplined_read_bind {site : A} {f : I → S → α} {g : α → Coroutine L A I S ε β}
    (hmet : ∀ i s, C site i s → (g (f i s)).Disciplined C rank held final)
    (hnot : ∀ i s, ¬C site i s → (g (f i s)).Awaits held) :
    (read site f >>= g).Disciplined C rank held final :=
  fun i s => ⟨hmet i s, hnot i s⟩

/-- The same rule for a test that begins what is called. -/
theorem disciplined_read_bind_bind {γ : Type} {site : A} {f : I → S → γ}
    {g : γ → Coroutine L A I S ε α} {k : α → Coroutine L A I S ε β}
    (hmet : ∀ i s, C site i s → (g (f i s) >>= k).Disciplined C rank held final)
    (hnot : ∀ i s, ¬C site i s → (g (f i s) >>= k).Awaits held) :
    (read site f >>= g >>= k).Disciplined C rank held final :=
  fun i s => ⟨hmet i s, hnot i s⟩

theorem disciplined_forM {xs : List α} {f : α → Coroutine L A I S ε Unit}
    (hf : ∀ x, (f x).Disciplined C rank held held) :
    (forM xs f).Disciplined C rank held held := by
  induction xs with
  | nil => rfl
  | cons x xs ih =>
    rw [List.forM_cons]
    exact disciplined_bind (hf x) fun _ => ih

/-- A disciplined coroutine never stands before a lock it holds. -/
theorem Disciplined.not_awaits {p : Coroutine L A I S ε α}
    (h : p.Disciplined C rank held final) : ¬p.Awaits held := by
  cases p with
  | acquire l next =>
    intro hl
    exact lt_irrefl _ (h.1 l hl)
  | done | release | step => exact id

end Coroutine

namespace System

/-- Every task is disciplined and ends without a lock. -/
def Disciplined (C : A → I → S → Prop) (rank : L → Nat) (sys : System L A I S ε) : Prop :=
  ∀ t ∈ sys.tasks, t.code.Disciplined C rank t.held []

/-- If the event takes a task through a step, then the step meets the condition. -/
def Meets (C : A → I → S → Prop) (sys : System L A I S ε) (e : Nat × I) : Prop :=
  ∀ t, sys.tasks[e.1]? = some t → ∀ site effect next, t.code = .step site effect next →
    C site e.2 sys.shared

variable {sys : System L A I S ε}

theorem disciplined_start {codes : List (Coroutine L A I S ε Unit)}
    (h : ∀ code ∈ codes, code.Disciplined C rank [] []) (s : S) :
    (start codes s).Disciplined C rank := by
  intro t ht
  obtain ⟨code, hcode, rfl⟩ := List.mem_map.mp ht
  exact h code hcode

theorem Disciplined.not_selfWait (h : sys.Disciplined C rank) : ¬sys.SelfWait := by
  rintro ⟨t, ht, hwait⟩
  exact (h t ht).not_awaits hwait

/-- What a move does to the task that makes it. -/
theorem disciplined_or_awaits {n : Nat} {i : I} {t : Task L A I S ε} {s : S}
    (h : sys.Disciplined C rank) (hmove : sys.move n i = some (t, s)) :
    (sys.Meets C (n, i) → t.code.Disciplined C rank t.held []) ∧
      (¬sys.Meets C (n, i) → t.code.Awaits t.held) := by
  obtain ⟨⟨code, held⟩, hget, hstep⟩ := move_eq_some hmove
  have hcode := h _ (List.mem_of_getElem? hget)
  have hmet_of (hno : ∀ site effect next, code ≠ .step site effect next) :
      sys.Meets C (n, i) := by
    intro t' ht' site effect next heq
    cases hget.symm.trans ht'
    exact absurd heq (hno site effect next)
  cases code with
  | done result => cases hstep
  | acquire l next =>
    simp only [Task.step] at hstep
    split at hstep
    · cases hstep
      exact ⟨fun _ => hcode.2, fun hmet => absurd (hmet_of (by simp)) hmet⟩
    · cases hstep
  | release l next =>
    cases hstep
    exact ⟨fun _ => hcode.2, fun hmet => absurd (hmet_of (by simp)) hmet⟩
  | step site effect next =>
    cases hstep
    constructor
    · intro hmet
      exact (hcode i sys.shared).1 (hmet _ hget site effect next rfl)
    · intro hmet
      refine (hcode i sys.shared).2 fun hC => hmet fun t' ht' site' effect' next' heq => ?_
      cases hget.symm.trans ht'
      cases heq
      exact hC

theorem Disciplined.step {e : Nat × I} (h : sys.Disciplined C rank) (hmet : sys.Meets C e) :
    (sys.step e).Disciplined C rank := by
  cases hmove : sys.move e.1 e.2 with
  | none => rwa [step_of_move_none hmove]
  | some p =>
    obtain ⟨t, s⟩ := p
    rw [step_of_move hmove]
    intro t' ht'
    rcases List.mem_or_eq_of_mem_set ht' with hold | rfl
    · exact h t' hold
    · exact (disciplined_or_awaits h hmove).1 hmet

/-- The step that does not meet the condition leaves its task waiting for itself. -/
theorem Disciplined.selfWait_step {e : Nat × I} (h : sys.Disciplined C rank)
    (hmet : ¬sys.Meets C e) : (sys.step e).SelfWait := by
  cases hmove : sys.move e.1 e.2 with
  | none =>
    refine absurd (fun t ht site effect next hcode => ?_) hmet
    simp [move, ht, Task.step, hcode] at hmove
  | some p =>
    obtain ⟨t, s⟩ := p
    rw [step_of_move hmove]
    refine ⟨t, ?_, (disciplined_or_awaits h hmove).2 hmet⟩
    obtain ⟨t', hget, -⟩ := move_eq_some hmove
    exact List.mem_set (List.getElem?_eq_some_iff.mp hget).1 t

/-- Where no task can move, none is left: of the tasks that wait for a lock, one with a
lock of the highest rank would wait for a task that can move. -/
theorem Disciplined.finished_of_quiet [Nonempty I] (h : sys.Disciplined C rank)
    (hquiet : sys.Quiet) : sys.Finished := by
  obtain ⟨i⟩ := ‹Nonempty I›
  have hstay {t : Task L A I S ε} (ht : t ∈ sys.tasks) :
      t.step sys.free i sys.shared = none := by
    obtain ⟨n, hn⟩ := List.mem_iff_getElem?.mp ht
    simpa [move, hn] using hquiet n i
  -- whoever has not ended waits for a lock that somebody holds
  have hblocked {t : Task L A I S ε} (ht : t ∈ sys.tasks) :
      ((∃ result, t.code = .done result) ∧ t.held = []) ∨
        ∃ l next, t.code = .acquire l next ∧ ∃ t' ∈ sys.tasks, l ∈ t'.held := by
    have hno := hstay ht
    have hcode := h t ht
    obtain ⟨code, held⟩ := t
    cases code with
    | done result => exact Or.inl ⟨⟨result, rfl⟩, hcode⟩
    | acquire l next =>
      refine Or.inr ⟨l, next, rfl, ?_⟩
      by_contra hfree
      have : sys.free l = true := by
        rw [free_iff]
        intro t' ht' hl
        exact hfree ⟨t', ht', hl⟩
      simp [Task.step, this] at hno
    | release l next => cases hno
    | step site effect next => cases hno
  -- so from a wait one comes to a wait for a lock of a higher rank, without an end
  have hnone (r : Nat) : ∀ t ∈ sys.tasks, ∀ l next, t.code = .acquire l next →
      (∀ t' ∈ sys.tasks, ∀ m ∈ t'.held, rank m < rank l + r) → False := by
    induction r with
    | zero =>
      intro t ht l next hcode hrank
      rcases hblocked ht with ⟨⟨result, hdone⟩, -⟩ | ⟨l', next', hcode', t', ht', hl⟩
      · exact absurd (hdone.symm.trans hcode) (by simp)
      · cases hcode.symm.trans hcode'
        exact lt_irrefl _ (hrank t' ht' l hl)
    | succ r ih =>
      intro t ht l next hcode hrank
      rcases hblocked ht with ⟨⟨result, hdone⟩, -⟩ | ⟨l', next', hcode', t', ht', hl⟩
      · exact absurd (hdone.symm.trans hcode) (by simp)
      · cases hcode.symm.trans hcode'
        rcases hblocked ht' with ⟨-, hempty⟩ | ⟨m, next'', hcode'', -⟩
        · rw [hempty] at hl
          exact List.not_mem_nil hl
        · have hlt : rank l < rank m := by
            have := h t' ht'
            rw [hcode''] at this
            exact this.1 l hl
          refine ih t' ht' m next'' hcode'' fun t₁ ht₁ m₁ hm₁ => ?_
          have := hrank t₁ ht₁ m₁ hm₁
          omega
  intro t ht
  rcases hblocked ht with hdone | ⟨l, next, hcode, -⟩
  · exact hdone
  · let ranks := sys.tasks.flatMap fun t => t.held.map rank
    refine (hnone (ranks.sum + 1) t ht l next hcode fun t' ht' m hm => ?_).elim
    have hmem : rank m ∈ ranks :=
      List.mem_flatMap.mpr ⟨t', ht', List.mem_map_of_mem hm⟩
    have := List.single_le_sum (by simp) _ hmem
    omega

/-- No task waits for a lock it holds, and tasks come to rest only when all have ended and
hold no lock. -/
def Sound (sys : System L A I S ε) : Prop := ¬sys.SelfWait ∧ (sys.Quiet → sys.Finished)

/-- A run of disciplined tasks is sound throughout exactly when its steps meet the
condition. -/
theorem Disciplined.always_sound_iff [Nonempty I] (h : sys.Disciplined C rank)
    (es : List (Nat × I)) :
    Always System.step Sound sys es ↔ StepsMeet System.step (Meets C) sys es := by
  constructor
  · intro hsound
    induction es generalizing sys with
    | nil => trivial
    | cons e es ih =>
      have hmet : sys.Meets C e := by
        by_contra hmet
        exact hsound.2.head.1 (h.selfWait_step hmet)
      exact ⟨hmet, ih (h.step hmet) hsound.2⟩
  · intro hmet
    exact (always_of_stepsMeet (fun _ _ => Disciplined.step) h hmet).mono fun _ hsys =>
      ⟨hsys.not_selfWait, hsys.finished_of_quiet⟩

/-- The tasks cannot move for ever: each move replaces the coroutine of a task by one that
it leads to. -/
theorem wellFounded_moved : WellFounded (@Moved L A I S ε _) := by
  let codes (sys : System L A I S ε) : Multiset (Coroutine L A I S ε Unit) :=
    sys.tasks.map Task.code
  refine Subrelation.wf (r := InvImage (Relation.CutExpand Coroutine.Next) codes) ?_
    (InvImage.wf codes Coroutine.wellFounded_next.cutExpand)
  rintro _ before ⟨n, i, hmoves, rfl⟩
  obtain ⟨⟨t, s⟩, hmove⟩ := Option.isSome_iff_exists.mp hmoves
  obtain ⟨t', hget, hstep⟩ := move_eq_some hmove
  refine ⟨{t.code}, t'.code, ?_, ?_⟩
  · intro p hp
    rw [Multiset.mem_singleton.mp hp]
    exact next_of_step hstep
  · obtain ⟨hn, rfl⟩ := List.getElem?_eq_some_iff.mp hget
    have hsplit : before.tasks =
        before.tasks.take n ++ before.tasks[n] :: before.tasks.drop (n + 1) := by
      rw [← List.drop_eq_getElem_cons hn, List.take_append_drop]
    have hset : before.tasks.set n t =
        before.tasks.take n ++ t :: before.tasks.drop (n + 1) := by
      rw [List.set_eq_take_append_cons_drop, if_pos hn]
    dsimp only [codes]
    rw [step_of_move hmove]
    dsimp only
    rw [hset]
    conv_rhs => rw [hsplit]
    simp only [List.map_append, List.map_cons, ← Multiset.coe_add, ← Multiset.cons_coe]
    simp only [← Multiset.singleton_add]
    ac_rfl

end System

end Concurrency
