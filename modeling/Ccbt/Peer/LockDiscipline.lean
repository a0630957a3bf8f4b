import Ccbt.Concurrency.Discipline
import Ccbt.Peer.Locks

/-!
# Who waits for whom among the tasks of `AsyncPeerConnectionManager`

`_failed_peer_lock` is taken before `connection_lock`. The operations keep to this except
where one that holds `connection_lock` calls a helper that takes it again: `Site.Meets` says
for each such place when that does not happen.
-/

namespace Ccbt

open Concurrency Transition

namespace Peer

def LockName.rank : LockName → Nat
  | _failed_peer_lock => 0
  | connection_lock => 1

/-- What keeps an operation that holds `connection_lock` from asking for it again. -/
def Site.Meets (config : NetworkConfig) : Site → Input → ConnectionManager → Prop
  | disconnectPeer peer_key, _, s => s.connections.get? peer_key = none
  | disconnectAll, _, s => s.connections.values = []
  | optimisticUnchoke, i, s =>
    s.optimisticDue config.optimistic_unchoke_interval i.now = true →
      s.outgoingOptimistic ≠ none
  | optimisticChoke connection, _, s => (s.object connection).am_choking = false
  | optimisticChoked, i, _ => i.raises = true
  | attemptEnded peer_key, _, s => s.connections.contains peer_key = true
  | elsewhere, _, _ => True

namespace Operation

open Coroutine LockName

variable {config : NetworkConfig} {α : Type} {held : List LockName}

/-- An operation that respects the order of the locks and gives back what it takes. -/
abbrev Disciplined (config : NetworkConfig) (held : List LockName) (p : Code α) : Prop :=
  Coroutine.Disciplined (Site.Meets config) rank p held held

theorem disciplined_get (f : Input → ConnectionManager → α) :
    Disciplined config held (get f) :=
  disciplined_atomic (fun _ _ => trivial) _

theorem disciplined_update (f : Input → ConnectionManager → ConnectionManager) :
    Disciplined config held (update f) :=
  disciplined_atomic (fun _ _ => trivial) _

theorem disciplined_await (e : PyException) (f : ConnectionManager → ConnectionManager) :
    Disciplined config held (await .elsewhere e f) :=
  disciplined_atomic (fun _ _ => trivial) _

theorem disciplined_chokePeer (connection : ConnectionRef) :
    Disciplined config held (chokePeer .elsewhere .elsewhere connection) := by
  apply disciplined_bind (disciplined_get _)
  intro am_choking
  split
  · exact disciplined_pure ()
  · exact disciplined_await _ _

theorem disciplined_unchokePeer (connection : ConnectionRef) :
    Disciplined config held (unchokePeer connection) := by
  apply disciplined_bind (disciplined_get _)
  intro am_choking
  split
  · exact disciplined_await _ _
  · exact disciplined_pure ()

theorem disciplined_disconnectConnection (connection : ConnectionRef) :
    Disciplined config [] (_disconnectPeer connection) := by
  apply disciplined_bind (disciplined_withLock (by simp) (disciplined_update _))
  intro _
  apply disciplined_bind (disciplined_await _ _)
  intro _
  apply disciplined_bind (disciplined_update _)
  intro _
  exact disciplined_await _ _

/-- `_disconnect_peer` called with the lock held waits for ever. -/
theorem awaits_disconnectPeer (connection : ConnectionRef) :
    (_disconnectPeer connection).Awaits [connection_lock] :=
  List.mem_singleton_self _

theorem disciplined_disconnectPeer (peer_info : PeerInfo) :
    Disciplined config [] (disconnectPeer peer_info) := by
  apply disciplined_withLock (by simp)
  apply disciplined_read_bind
  · intro i s hmet
    rw [show s.connections.get? peer_info.str = none from hmet]
    exact disciplined_pure ()
  · intro i s hnot
    obtain ⟨connection, hfound⟩ := Option.ne_none_iff_exists'.mp hnot
    rw [hfound]
    exact awaits_disconnectPeer connection

theorem disciplined_disconnectAll : Disciplined config [] disconnectAll := by
  apply disciplined_withLock (by simp)
  apply disciplined_read_bind
  · intro i s hmet
    rw [show s.connections.values = [] from hmet]
    exact disciplined_pure ()
  · intro i s hnot
    obtain ⟨connection, rest, hvalues⟩ := List.exists_cons_of_ne_nil hnot
    rw [hvalues]
    exact (awaits_disconnectPeer connection).bind _

theorem awaits_selectOptimistic (current_time : Time) :
    (selectOptimistic current_time).Awaits [connection_lock] :=
  List.mem_singleton_self _

/-- A choke message that cannot be sent ends the operation; after one that is sent it comes
to the lock. -/
theorem disciplined_choked_bind {g : Unit → Code α} {f : ConnectionManager → ConnectionManager}
    {e : PyException} (hg : (g ()).Awaits held) :
    Disciplined config held (await .optimisticChoked e f >>= g) := by
  intro i s
  cases hraises : i.raises with
  | true =>
    refine ⟨fun _ => ?_, fun hnot => absurd hraises hnot⟩
    simp only [hraises, if_pos]
    rfl
  | false =>
    refine ⟨fun hmet => absurd (hraises.symm.trans hmet) Bool.false_ne_true, fun _ => ?_⟩
    simp only [hraises, Bool.false_eq_true, if_false]
    exact hg

/-- The one call of `_update_optimistic_unchoke` is made with the lock held: it comes to the
second request for the lock unless it is not due or choking the peer so far raises. -/
theorem disciplined_updateOptimisticUnchoke :
    Disciplined config [connection_lock] (updateOptimisticUnchoke config) := by
  apply disciplined_read_bind
  · intro i s hmet
    by_cases hdue : s.optimisticDue config.optimistic_unchoke_interval i.now = true
    · obtain ⟨outgoing, hout⟩ := Option.ne_none_iff_exists'.mp (hmet hdue)
      rw [if_pos hdue, hout]
      apply disciplined_read_bind_bind
      · intro i s hchoking
        have hsend : (s.object outgoing).am_choking = false := hchoking
        rw [hsend]
        exact disciplined_choked_bind (awaits_selectOptimistic _)
      · intro i s hchoking
        have hsent : (s.object outgoing).am_choking = true := Bool.eq_true_of_not_eq_false hchoking
        rw [hsent]
        exact awaits_selectOptimistic _
    · rw [if_neg hdue]
      exact disciplined_pure ()
  · intro i s hnot
    obtain ⟨hdue, hout⟩ := Classical.not_imp.mp hnot
    rw [if_pos hdue, not_not.mp hout]
    exact awaits_selectOptimistic _

theorem disciplined_updateChoking : Disciplined config [] (updateChoking config) := by
  apply disciplined_withLock (by simp)
  apply disciplined_bind (disciplined_get _)
  rintro ⟨active_peers, new_upload_slots, n⟩
  dsimp only
  split
  · exact disciplined_pure ()
  apply disciplined_bind
  · apply disciplined_forM
    intro k
    apply disciplined_bind (disciplined_get _)
    intro peer
    cases peer with
    | none => exact disciplined_pure ()
    | some connection => exact disciplined_chokePeer connection
  intro _
  apply disciplined_bind
  · apply disciplined_forM
    intro connection
    apply disciplined_bind (disciplined_get _)
    intro unchoked
    split
    · exact disciplined_pure ()
    · exact disciplined_unchokePeer connection
  intro _
  apply disciplined_bind (disciplined_update _)
  intro _
  exact disciplined_updateOptimisticUnchoke

theorem disciplined_connectToPeer (peer_info : PeerInfo) :
    Disciplined config [] (_connectToPeer config peer_info) := by
  have hlook : Disciplined config [] (withLock connection_lock (pure ())) :=
    disciplined_withLock (by simp) (disciplined_pure ())
  apply disciplined_bind (disciplined_atomic (fun _ _ => trivial) _)
  rintro ⟨connection, error⟩
  cases error with
  | none =>
    apply disciplined_bind (disciplined_withLock (by simp) (disciplined_update _))
    intro _
    exact hlook
  | some e =>
    cases connection with
    | none =>
      dsimp only
      split
      · apply disciplined_bind hlook
        intro _
        exact disciplined_raise e
      · exact disciplined_raise e
    | some r =>
      have hrest : Disciplined config [] (_disconnectPeer r >>= fun _ => raise (α := Unit) e) := by
        apply disciplined_bind (disciplined_disconnectConnection r)
        intro _
        exact disciplined_raise e
      dsimp only
      split
      · apply disciplined_bind hlook
        intro _
        exact hrest
      · exact hrest

theorem disciplined_selectPeers (max_connections : Nat) (current_time : Time)
    (peer_list : List PeerData) (chosen : List PeerInfo) (skipped_failed : Nat) :
    Disciplined config []
      (selectPeers max_connections current_time peer_list chosen skipped_failed) := by
  induction peer_list generalizing chosen skipped_failed with
  | nil => exact disciplined_pure _
  | cons peer_data rest ih =>
    cases peer_data with
    | other => exact ih chosen skipped_failed
    | incomplete => exact ih chosen skipped_failed
    | invalid => exact disciplined_raise _
    | valid p =>
      apply disciplined_bind (disciplined_get _)
      intro connected
      split
      · exact ih chosen skipped_failed
      apply disciplined_bind (disciplined_withLock (by simp) (disciplined_get _))
      intro skip
      split
      · exact ih chosen (skipped_failed + 1)
      split
      · exact disciplined_pure _
      · exact ih (chosen ++ [p]) skipped_failed

theorem disciplined_recordResult (p : PeerInfo) (attempt : Attempt) :
    Disciplined config [] (recordResult p attempt) := by
  cases attempt with
  | raised is_temporary reason =>
    exact disciplined_withLock (by simp) (disciplined_update _)
  | ended =>
    apply disciplined_withLock (by simp)
    apply disciplined_read_bind
    · intro i s hmet
      have hconnected : s.connections.contains p.str = true := hmet
      rw [if_pos hconnected]
      exact disciplined_pure ()
    · intro i s hnot
      have hconnected : ¬s.connections.contains p.str = true := hnot
      rw [if_neg hconnected]
      exact List.mem_singleton_self _

theorem disciplined_connectToPeers (peer_list : List PeerData) :
    Disciplined config [] (connectToPeers config peer_list) := by
  unfold connectToPeers
  split
  · exact disciplined_pure ()
  split
  · exact disciplined_raise _
  apply disciplined_bind (disciplined_get _)
  intro current_time
  apply disciplined_bind (disciplined_withLock (by simp) (disciplined_update _))
  intro _
  apply disciplined_bind (disciplined_selectPeers _ _ _ _ _)
  rintro ⟨peer_info_list, skipped_failed⟩
  have hbatches (batch_size : Nat) : Disciplined config []
      (forM (peer_info_list.toChunks batch_size) connectBatch) := by
    apply disciplined_forM
    intro batch
    apply disciplined_bind (disciplined_get _)
    intro results
    apply disciplined_forM
    rintro ⟨p, attempt⟩
    exact disciplined_recordResult p attempt
  have hconnect (batch_size : Nat) : Disciplined config []
      (if peer_info_list = [] then pure ()
      else forM (peer_info_list.toChunks batch_size) connectBatch) := by
    split
    · exact disciplined_pure ()
    · exact hbatches batch_size
  have hwarmup (batch_size : Nat) (p : Prop) [Decidable p] : Disciplined config []
      (if p then await .elsewhere .other id >>= fun _ =>
          if peer_info_list = [] then pure ()
          else forM (peer_info_list.toChunks batch_size) connectBatch
        else if peer_info_list = [] then pure ()
          else forM (peer_info_list.toChunks batch_size) connectBatch) := by
    split
    · exact disciplined_bind (disciplined_await _ _) fun _ => hconnect batch_size
    · exact hconnect batch_size
  dsimp only
  split
  · apply disciplined_bind (disciplined_withLock (by simp) (disciplined_pure ()))
    intro _
    exact hwarmup _ _
  · exact hwarmup _ _

theorem disciplined_retryCandidates (current_time : Time) (failed : List (String × FailInfo))
    (candidates : List String) : Disciplined config [_failed_peer_lock]
      (retryCandidates current_time failed candidates) := by
  induction failed generalizing candidates with
  | nil => exact disciplined_pure _
  | cons entry rest ih =>
    rw [retryCandidates]
    split
    · apply disciplined_bind (disciplined_withLock (by simp [rank]) (disciplined_get _))
      intro connected
      exact ih _
    · exact ih candidates

theorem disciplined_reconnectionLoopStep :
    Disciplined config [] (reconnectionLoopStep config) := by
  apply disciplined_bind
  · apply disciplined_withLock (by simp)
    apply disciplined_bind (disciplined_get _)
    rintro ⟨current_time, failed⟩
    exact disciplined_retryCandidates current_time failed []
  intro retry_candidates
  apply disciplined_forM
  intro peer_key
  split
  · exact disciplined_tryCatch (disciplined_connectToPeers _) fun _ => disciplined_pure ()
  · exact disciplined_pure ()

theorem disciplined_code (operation : Operation) :
    Disciplined config [] (operation.code config) := by
  cases operation with
  | connect_to_peers peer_list => exact disciplined_connectToPeers peer_list
  | _connect_to_peer peer_info => exact disciplined_connectToPeer peer_info
  | _update_choking => exact disciplined_updateChoking
  | disconnect_peer peer_info => exact disciplined_disconnectPeer peer_info
  | disconnect_all => exact disciplined_disconnectAll
  | _disconnect_peer connection => exact disciplined_disconnectConnection connection
  | _reconnection_loop => exact disciplined_reconnectionLoopStep
  | _handle_message connection => exact disciplined_update _

end Operation

/-- In every run of operations that start with both locks free, no task waits for a lock it
holds and tasks rest only when all have ended and given back their locks, exactly when each
step meets its condition; and no run can go on for ever. -/
theorem locksSound_iff (config : NetworkConfig) (operations : List Operation)
    (s : ConnectionManager) (es : List (Nat × Input)) :
    (Always System.step System.Sound (startOperations config operations s) es ↔
      StepsMeet System.step (System.Meets (Site.Meets config))
        (startOperations config operations s) es) ∧
    WellFounded
      (@System.Moved LockName Site Input ConnectionManager PyException _) := by
  have hstart : (startOperations config operations s).Disciplined (Site.Meets config)
      LockName.rank := by
    apply System.disciplined_start
    intro code hcode
    obtain ⟨operation, -, rfl⟩ := List.mem_map.mp hcode
    exact Operation.disciplined_code operation
  exact ⟨hstart.always_sound_iff es, System.wellFounded_moved⟩

/-- `disconnect_peer` of a connected peer waits for the lock it holds. -/
theorem not_locksSound_disconnectPeer :
    ¬∀ (config : NetworkConfig) (operations : List Operation) (s : ConnectionManager)
      (es : List (Nat × Input)),
      Always System.step System.Sound (startOperations config operations s) es := by
  intro h
  have hrun := h {} [.disconnect_peer default]
    { connections := Python.Dict.empty.set (PeerInfo.str default) 0
      object := fun _ => { peer_info := default } }
    [(0, default), (0, default)]
  exact hrun.2.2.1 (by decide +kernel)

end Peer

end Ccbt
