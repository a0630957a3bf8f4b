import Ccbt.Peer.ConnectionPool
import Ccbt.Transition.Run

/-!
# The slots of the connection pool

The slots that are free, those behind the connections of the pool and those of connections that are
being made, over runs of the pool.
-/

namespace Ccbt.ConnectionPool

open Python Transition PeerConnectionPool

/-- The slots that a call holds while its connection is made. -/
def Task.slots : Task → Nat
  | acquireCreating _ => 1
  | _ => 0

/-- The call is an `acquire` that has not come to its end. -/
def Task.acquiring : Task → Bool
  | acquireRemoving _ | acquireWaiting _ | acquireCreating _ => true
  | _ => false

/-- The slots of a pool, without those of connections that are being made. -/
def PeerConnectionPool.slots (s : PeerConnectionPool) : Nat := s.semaphore + s.pool.size

/-- All slots of a system. -/
def PoolSystem.slots (x : PoolSystem) : Nat := x.state.slots + (x.tasks.map Task.slots).sum

/-- The first of these connections to be removed is in the pool. -/
def Removable (s : PeerConnectionPool) (peer_ids : List Str) : Prop :=
  ∀ peer_id ∈ peer_ids.head?, s.pool.contains peer_id = true

/-- A call up to its first await gives no slot back for a connection that is not in the pool. -/
def BeginMeets (config : PoolConfig) (s : PeerConnectionPool) (now : Time) : Call → Prop
  | .release peer_id => Removable s [peer_id]
  | .remove_connection peer_id => Removable s [peer_id]
  | ._perform_health_checks => Removable s (s.unhealthyConnections config now)
  | ._cleanup_stale_connections => Removable s (s.staleConnections config now)
  | _ => True

/-- A call from one await to the next does not remove a connection on the way to another one, does
not put a connection in the place of another one, and gives no slot back for a connection that is
not in the pool. -/
def ResumeMeets (s : PeerConnectionPool) (wakeup : Wakeup) : Task → Prop
  | .acquireRemoving peer_id => s.pool.contains peer_id = false
  | .acquireCreating peer_id => wakeup.connection.isSome = true →
      s.metrics.contains peer_id = true → s.pool.contains peer_id = false
  | .removing peer_id rest => s.pool.contains peer_id = true →
      Removable (s.dropConnection peer_id) rest
  | _ => True

def Meets (config : PoolConfig) (x : PoolSystem) : Event → Prop
  | .call call now => BeginMeets config x.state now call
  | .resume n wakeup => ∀ task, x.tasks[n]? = some task → ResumeMeets x.state wakeup task

section Slots

variable {config : PoolConfig} {s : PeerConnectionPool} {peer_id : Str} {now : Time}

@[simp] theorem slots_releaseSlot : s.releaseSlot.slots = s.slots + 1 := by
  show s.semaphore + 1 + s.pool.size = s.semaphore + s.pool.size + 1
  omega

theorem slots_dropConnection (h : s.pool.contains peer_id = true) :
    (s.dropConnection peer_id).slots + 1 = s.slots := by
  have hsize := s.pool.size_erase peer_id
  rw [if_pos h] at hsize
  rw [PeerConnectionPool.slots, PeerConnectionPool.slots, dropConnection]
  dsimp only
  omega

theorem slots_le_removeAll (peer_ids : List Str) (s : PeerConnectionPool) :
    s.slots ≤ (removeAll s peer_ids).1.slots ∧ (removeAll s peer_ids).2.slots = 0 := by
  induction peer_ids generalizing s with
  | nil => exact ⟨Nat.le_refl _, rfl⟩
  | cons peer_id rest ih =>
    rw [removeAll]
    split_ifs
    · exact ⟨Nat.le_refl _, rfl⟩
    · obtain ⟨hle, hzero⟩ := ih s.releaseSlot
      rw [slots_releaseSlot] at hle
      exact ⟨by omega, hzero⟩

/-- Removing connections leaves the slots as they are exactly when it begins with a connection of
the pool. -/
theorem slots_removeAll_iff {peer_ids : List Str} :
    (removeAll s peer_ids).1.slots + (removeAll s peer_ids).2.slots = s.slots ↔
      Removable s peer_ids := by
  rw [(slots_le_removeAll peer_ids s).2, Nat.add_zero]
  cases peer_ids with
  | nil => exact iff_of_true rfl fun _ h => by cases h
  | cons peer_id rest =>
    have hhead : Removable s (peer_id :: rest) ↔ s.pool.contains peer_id = true := by
      simp [Removable]
    rw [hhead, removeAll]
    split_ifs with hin
    · exact iff_of_true rfl hin
    · have hle := (slots_le_removeAll rest s.releaseSlot).1
      rw [slots_releaseSlot] at hle
      exact iff_of_false (by omega) hin

theorem slots_begin_iff (call : Call) :
    (begin config s now call).1.slots + (begin config s now call).2.slots = s.slots ↔
      BeginMeets config s now call := by
  cases call with
  | acquire peer_id valid =>
    refine iff_of_true ?_ trivial
    rw [begin, acquire]
    split_ifs
    · split
      · rfl
      · split_ifs
        · rfl
        · rfl
    · rfl
  | release peer_id =>
    rw [begin, BeginMeets, release]
    split_ifs with hin
    · have hremovable : Removable s [peer_id] := by simpa [Removable] using hin
      refine iff_of_true ?_ hremovable
      split
      · rfl
      · dsimp only
        split_ifs
        · exact slots_removeAll_iff.mpr (by simpa [Removable] using hin)
        · rfl
    · refine iff_of_false ?_ (by simpa [Removable] using hin)
      rw [slots_releaseSlot]
      exact Nat.succ_ne_self _
  | remove_connection peer_id => exact slots_removeAll_iff
  | _perform_health_checks => exact slots_removeAll_iff
  | _cleanup_stale_connections => exact slots_removeAll_iff
  | update_connection_metrics peer_id errors =>
    refine iff_of_true ?_ trivial
    rw [begin, updateConnectionMetrics]
    split
    · rfl
    · rfl

theorem slots_resume_iff (wakeup : Wakeup) (task : Task) :
    (resume s wakeup task).1.slots + (resume s wakeup task).2.slots = s.slots + task.slots ↔
      ResumeMeets s wakeup task := by
  cases task with
  | acquireRemoving peer_id =>
    rw [resume, ResumeMeets]
    split_ifs with hin
    · have hdrop := slots_dropConnection hin
      refine iff_of_false ?_ (by rw [hin]; decide)
      show (s.dropConnection peer_id).slots + 0 ≠ s.slots + 0
      omega
    · exact iff_of_true rfl (Bool.eq_false_of_not_eq_true hin)
  | acquireWaiting peer_id =>
    refine iff_of_true ?_ trivial
    rw [resume]
    split_ifs with htime hfull
    · rfl
    · rfl
    · show s.semaphore - 1 + s.pool.size + 1 = s.semaphore + s.pool.size
      omega
  | acquireCreating peer_id =>
    rw [resume, ResumeMeets]
    cases wakeup.connection with
    | none => exact iff_of_true slots_releaseSlot fun h => by cases h
    | some connection =>
      rw [finishCreation]
      dsimp only
      split_ifs with hmetrics
      · have hsize := s.pool.size_set peer_id connection
        show s.semaphore + (s.pool.set peer_id connection).size + 0 = s.semaphore + s.pool.size + 1 ↔ _
        cases hin : s.pool.contains peer_id with
        | true =>
          rw [hin, if_pos rfl] at hsize
          exact iff_of_false (by omega) fun h => Bool.noConfusion (h rfl hmetrics)
        | false =>
          rw [hin, if_neg Bool.false_ne_true] at hsize
          exact iff_of_true (by omega) fun _ _ => rfl
      · exact iff_of_true slots_releaseSlot fun _ h => absurd h hmetrics
  | removing peer_id rest =>
    rw [resume, ResumeMeets]
    split_ifs with hin
    · have hdrop := slots_dropConnection hin
      have hkeep : Removable (s.dropConnection peer_id).releaseSlot rest ↔
          Removable (s.dropConnection peer_id) rest := Iff.rfl
      rw [forall_prop_of_true hin, ← hkeep, ← slots_removeAll_iff, slots_releaseSlot, hdrop]
      exact Iff.rfl
    · exact iff_of_true rfl fun h => absurd h hin
  | done => exact iff_of_true rfl trivial

end Slots

section Runs

variable {config : PoolConfig} {x : PoolSystem} {es : List Event}

theorem sum_slots_set {tasks : List Task} {n : Nat} {task : Task} (h : tasks[n]? = some task)
    (task' : Task) :
    ((tasks.set n task').map Task.slots).sum + task.slots =
      (tasks.map Task.slots).sum + task'.slots := by
  induction tasks generalizing n with
  | nil => cases h
  | cons t tasks ih =>
    cases n with
    | zero =>
      cases h
      simp only [List.set_cons_zero, List.map_cons, List.sum_cons]
      omega
    | succ n =>
      have := ih (n := n) h
      simp only [List.set_cons_succ, List.map_cons, List.sum_cons]
      omega

/-- No slot is lost and none is made exactly when the step meets its condition. -/
theorem slots_step_iff (x : PoolSystem) (e : Event) :
    (step config x e).slots = x.slots ↔ Meets config x e := by
  cases e with
  | call call now =>
    rw [Meets, ← slots_begin_iff (s := x.state), step, PoolSystem.slots, PoolSystem.slots]
    simp only [List.map_append, List.map_cons, List.map_nil, List.sum_append, List.sum_cons,
      List.sum_nil]
    omega
  | resume n wakeup =>
    rw [Meets, step]
    cases htask : x.tasks[n]? with
    | none => exact iff_of_true rfl fun task h => by cases h
    | some task =>
      have honly : (∀ task', some task = some task' → ResumeMeets x.state wakeup task') ↔
          ResumeMeets x.state wakeup task := by simp
      have hsum := sum_slots_set htask (resume x.state wakeup task).2
      rw [honly, ← slots_resume_iff, PoolSystem.slots, PoolSystem.slots]
      dsimp only
      omega

/-- The pool holds no more connections than it may, and while no `acquire` is in progress each
connection has its slot and all other slots are free. -/
structure Conserved (config : PoolConfig) (x : PoolSystem) : Prop where
  size_le : x.state.pool.size ≤ config.max_connections
  slots_eq : (∀ task ∈ x.tasks, task.acquiring = false) →
    x.state.semaphore + x.state.pool.size = config.max_connections

theorem conserved_of_slots (h : x.slots = config.max_connections) : Conserved config x := by
  rw [PoolSystem.slots, PeerConnectionPool.slots] at h
  refine ⟨by omega, fun hnone => ?_⟩
  have hzero : (x.tasks.map Task.slots).sum = 0 := by
    apply List.sum_eq_zero
    intro k hk
    obtain ⟨task, htask, rfl⟩ := List.mem_map.mp hk
    have := hnone task htask
    cases task with
    | acquireCreating peer_id => cases this
    | acquireRemoving | acquireWaiting | removing | done => rfl
  rwa [hzero] at h

theorem slots_new : (PoolSystem.new config).slots = config.max_connections := rfl

/-- The slots are conserved in every run whose steps meet their conditions; and these are the runs
in which, with those of connections that are being made, there are as many slots at every point as
there were at first. -/
theorem always_conserved_of_meets (config : PoolConfig) (es : List Event) :
    (StepsMeet (step config) (Meets config) (PoolSystem.new config) es →
      Always (step config) (Conserved config) (PoolSystem.new config) es) ∧
    (Always (step config) (fun x => x.slots = config.max_connections) (PoolSystem.new config) es ↔
      StepsMeet (step config) (Meets config) (PoolSystem.new config) es) := by
  have hiff : Always (step config) (fun x => x.slots = config.max_connections)
      (PoolSystem.new config) es ↔
        StepsMeet (step config) (Meets config) (PoolSystem.new config) es := by
    refine always_iff_stepsMeet (fun x e hx => ?_) slots_new
    rw [← slots_step_iff, hx]
  exact ⟨fun h => (hiff.mpr h).mono fun _ hx => conserved_of_slots hx, hiff⟩

/-- An attempt that fails, and a health check when its metrics are old. -/
def failedAttempt : List Event :=
  [.call (.acquire ['p'] true) 0, .resume 0 {}, .resume 0 {}, .call ._perform_health_checks 1000]

/-- A peer that was never in the pool gives a slot back. -/
theorem not_always_conserved_failedAttempt :
    ¬Always (step {}) (Conserved {}) (PoolSystem.new {}) failedAttempt := by
  intro h
  have hlast : Conserved {} (run (step {}) (PoolSystem.new {}) failedAttempt) :=
    always_iff_take.mp h failedAttempt.length
  have hslots := hlast.slots_eq (by decide +kernel)
  revert hslots
  decide +kernel

end Runs

end Ccbt.ConnectionPool
