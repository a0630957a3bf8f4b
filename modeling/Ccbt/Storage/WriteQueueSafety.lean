import Ccbt.Storage.WriteQueue

/-!
# Which writes are accounted for

When `stop` has ended, every write that was accepted should be on disk or reported. Every future
that is not done belongs to a request that is still on its way (`Good`), as long as no batch is lost
whose futures are not done, nothing is queued when `stop` fails the queue, and nothing is put into
the queue afterwards (`Meets`).
-/

namespace Ccbt.Storage

open Python Transition

variable {Path : Type}

/-- The futures of the batch that the batcher awaits. -/
def Batcher.numbers : Batcher Path → List Nat
  | .flushing _ batch _ => batch.map QueuedWrite.future
  | _ => []

/-- The futures of the batches that `stop` has given to the executor. -/
def Stopping.numbers : Stopping Path → List Nat
  | .flushing batches => batches.flatten.map QueuedWrite.future
  | .raised batches => batches.flatten.map QueuedWrite.future
  | _ => []

/-- `stop` has begun to flush, or has got further. -/
def Stopping.Flushes : Stopping Path → Prop
  | .running => False
  | .cancelling => False
  | _ => True

/-- What is put into the queue now stays there. -/
def Stopping.Drained : Stopping Path → Prop
  | .closing _ => True
  | .finished _ => True
  | .raised _ => True
  | _ => False

/-- The flush of `stop` has not come to its end. -/
def Stopping.Failed : Stopping Path → Prop
  | .flushed ok => ok = false
  | .closing ok => ok = false
  | .finished ok => ok = false
  | .raised _ => True
  | _ => False

/-- `stop` has ended, with an exception or without. -/
def Stopping.Ended : Stopping Path → Prop
  | .finished _ => True
  | .raised _ => True
  | _ => False

/-- The executor has a batch of the batcher. -/
def Batcher.isFlushing : Batcher Path → Bool
  | .flushing _ _ _ => true
  | _ => false

/-- `stop` awaits the end of the batcher. -/
def Stopping.isCancelling : Stopping Path → Bool
  | .cancelling => true
  | _ => false

/-- `stop` awaits the flush. -/
def Stopping.isFlushing : Stopping Path → Bool
  | .flushing _ => true
  | _ => false

/-- The flush of `stop` has come to its end. -/
def Stopping.isFlushed : Stopping Path → Bool
  | .flushed ok => ok
  | _ => false

/-- `stop` has ended without an exception, and its flush has come to its end. -/
def Stopping.succeeded : Stopping Path → Bool
  | .finished ok => ok
  | _ => false

instance Stopping.decidableDrained : (t : Stopping Path) → Decidable t.Drained
  | .closing _ => .isTrue trivial
  | .finished _ => .isTrue trivial
  | .raised _ => .isTrue trivial
  | .running => .isFalse id
  | .cancelling => .isFalse id
  | .flushing _ => .isFalse id
  | .flushed _ => .isFalse id

theorem Stopping.Ended.drained {t : Stopping Path} (h : t.Ended) : t.Drained := by
  cases t with
  | finished | raised => trivial
  | running | cancelling | flushing | flushed | closing => exact h.elim

theorem Stopping.Drained.flushes {t : Stopping Path} (h : t.Drained) : t.Flushes := by
  cases t with
  | closing | finished | raised => trivial
  | running | cancelling | flushing | flushed => exact h.elim

namespace WriteQueue

variable [DecidableEq Path] (s : WriteQueue Path)

/-- The request of the future has been written. -/
def OnDisk (n : Nat) : Prop := n ∈ s.written.map QueuedWrite.future

/-- The request of the future is in the queue. -/
def Queued (n : Nat) : Prop := n ∈ s.queue.map QueuedWrite.future

/-- The request of the future is collected, or in a batch that the executor has. -/
def Carried (n : Nat) : Prop :=
  (∃ file_path, n ∈ (s.requestsOf file_path).map QueuedWrite.future) ∨ n ∈ s.batcher.numbers ∨
    n ∈ s.stopping.numbers

/-- The futures of all requests in the batches of `stop` are done. -/
def Settled : Prop := ∀ n ∈ s.stopping.numbers, s.futures n ≠ .pending

/-- A future that is done without an exception has its data on disk; and when `stop` has ended, all
futures are done, and none of them has been cancelled without being written if `stop` has flushed
successfully. A future may also tell that the queue was full. -/
structure Accounted : Prop where
  on_disk : ∀ n < s.created, s.futures n = .result → s.OnDisk n
  done : s.stopping.Ended → ∀ n < s.created, s.futures n ≠ .pending
  not_discarded : s.stopping.succeeded = true →
    ∀ n < s.created, s.futures n = .exception .CancelledError → s.OnDisk n

/-- The regular queue has reached its maximal size. -/
def QueueFull (config : QueueConfig) : Prop :=
  config.write_queue_priority = false ∧ config.queue_size > 0 ∧ s.queue.length ≥ config.queue_size

/-- The condition for the next event: nothing is accepted into the queue behind its end; the
executor writes what the batcher gives it, and is done with it before the batcher is cancelled; the
flush of `stop` raises or times out only when all futures of its batches are done, and raises only
when the queue is empty; and the queue is empty when `stop` fails it after a flush. -/
def Meets (config : QueueConfig) : Event Path → Prop
  | .write_block _ _ _ _ _ => s.QueueFull config ∨ ¬s.stopping.Drained
  | .batcherResume error => s.batcher.isFlushing = true → error = false
  | .batcherCancel _ => s.stopping.isCancelling = true → s.batcher.isFlushing = false
  | .stopResume _ error => s.stopping.isFlushing = true → error = true → s.queue = [] ∧ s.Settled
  | .stopTimeout _ => s.stopping.isFlushing = true → s.Settled
  | .stopDrain => s.stopping.isFlushed = true → s.queue = []
  | _ => True

instance decidableSettled : Decidable s.Settled := List.decidableBAll _ _

instance decidableQueueFull (config : QueueConfig) : Decidable (s.QueueFull config) :=
  inferInstanceAs (Decidable (_ ∧ _ ∧ _))

instance decidableMeets (config : QueueConfig) : (e : Event Path) → Decidable (s.Meets config e)
  | .write_block _ _ _ _ _ => inferInstanceAs (Decidable (_ ∨ ¬_))
  | .batcherGet _ => .isTrue trivial
  | .batcherTimeout _ => .isTrue trivial
  | .batcherResume _ => inferInstanceAs (Decidable (_ = true → _ = false))
  | .batcherWake => .isTrue trivial
  | .batcherCancel _ => inferInstanceAs (Decidable (_ = true → _ = false))
  | .stop => .isTrue trivial
  | .stopFlush => .isTrue trivial
  | .stopResume _ _ => inferInstanceAs (Decidable (_ = true → _ = true → s.queue = [] ∧ s.Settled))
  | .stopTimeout _ => inferInstanceAs (Decidable (_ = true → s.Settled))
  | .stopDrain => inferInstanceAs (Decidable (_ = true → s.queue = []))
  | .stopFinish => .isTrue trivial

/-- Where the futures belong. -/
structure Core : Prop where
  pending : ∀ n < s.created, s.futures n = .pending → s.Queued n ∨ s.Carried n
  result : ∀ n, s.futures n = .result → s.OnDisk n
  cancelled : ∀ n, s.futures n = .exception .CancelledError →
    s.OnDisk n ∨ s.Carried n ∨ s.stopping.Failed

/-- The invariant. -/
structure Good : Prop extends Core s where
  ended : s.stopping.Flushes → s.batcher = .ended ∧ ∀ file_path, s.requestsOf file_path = []
  drained : s.stopping.Drained → s.queue = []
  settled : s.stopping.Ended → s.Settled

section Core

variable {s} {s' : WriteQueue Path}

/-- Requests that move on, with their futures as they are. -/
theorem Core.move (h : s.Core) (hfutures : s'.futures = s.futures)
    (hcreated : s'.created = s.created) (hwritten : ∀ n, s.OnDisk n → s'.OnDisk n)
    (hqueued : ∀ n, s.Queued n → s'.Queued n ∨ s'.Carried n)
    (hcarried : ∀ n, s.Carried n → s'.Carried n)
    (hfailed : s.stopping.Failed → s'.stopping.Failed) : s'.Core where
  pending := fun n hn hpending => by
    rw [hcreated] at hn
    rw [hfutures] at hpending
    exact (h.pending n hn hpending).elim (hqueued n) fun hcar => .inr (hcarried n hcar)
  result := fun n hresult => hwritten n (h.result n (hfutures ▸ hresult))
  cancelled := fun n hcancelled => by
    rw [hfutures] at hcancelled
    rcases h.cancelled n hcancelled with hdisk | hcar | hfailed'
    · exact .inl (hwritten n hdisk)
    · exact .inr (.inl (hcarried n hcar))
    · exact .inr (.inr (hfailed hfailed'))

/-- A batch that has been written, and its futures with a result. -/
theorem Core.complete (h : s.Core) {batch : List (QueuedWrite Path)}
    (hfutures : s'.futures = (s.complete batch).futures) (hcreated : s'.created = s.created)
    (hwritten : s'.written = s.written ++ batch) (hqueue : s'.queue = s.queue)
    (hcarried : ∀ n, s.Carried n → n ∈ batch.map QueuedWrite.future ∨ s'.Carried n)
    (hfailed : s.stopping.Failed → s'.stopping.Failed) : s'.Core := by
  have hdisk : ∀ n, s'.OnDisk n ↔ s.OnDisk n ∨ n ∈ batch.map QueuedWrite.future := by
    intro n
    rw [OnDisk, hwritten, List.map_append, List.mem_append]
    rfl
  have hold : ∀ n, s'.futures n =
      if s.futures n = .pending ∧ n ∈ batch.map QueuedWrite.future then .result
      else s.futures n := fun n => congrFun hfutures n
  refine ⟨fun n hn hpending => ?_, fun n hresult => ?_, fun n hcancelled => ?_⟩
  · rw [hold] at hpending
    split at hpending
    · cases hpending
    · next hnot =>
      rcases h.pending n (hcreated ▸ hn) hpending with hqueued | hcar
      · exact .inl (by rw [Queued, hqueue]; exact hqueued)
      · exact .inr ((hcarried n hcar).resolve_left fun hbatch => hnot ⟨hpending, hbatch⟩)
  · rw [hold] at hresult
    split at hresult
    · next hin => exact (hdisk n).mpr (.inr hin.2)
    · exact (hdisk n).mpr (.inl (h.result n hresult))
  · rw [hold] at hcancelled
    split at hcancelled
    · cases hcancelled
    · rcases h.cancelled n hcancelled with hdisk' | hcar | hfailed'
      · exact .inl ((hdisk n).mpr (.inl hdisk'))
      · exact (hcarried n hcar).elim (fun hbatch => .inl ((hdisk n).mpr (.inr hbatch)))
          fun hcar' => .inr (.inl hcar')
      · exact .inr (.inr (hfailed hfailed'))

/-- Futures that are cancelled, of requests that are carried on or after a flush that failed. -/
theorem Core.fail (h : s.Core) {numbers : List Nat}
    (hfutures : s'.futures = (s.settle numbers (.exception .CancelledError)).futures)
    (hcreated : s'.created = s.created) (hwritten : s'.written = s.written)
    (hqueued : ∀ n, s.Queued n → n ∈ numbers ∨ s'.Queued n)
    (hcarried : ∀ n, s.Carried n → s'.Carried n)
    (hnumbers : ∀ n ∈ numbers, s'.Carried n ∨ s'.stopping.Failed)
    (hfailed : s.stopping.Failed → s'.stopping.Failed) : s'.Core := by
  have hold : ∀ n, s'.futures n =
      if s.futures n = .pending ∧ n ∈ numbers then .exception .CancelledError
      else s.futures n := fun n => congrFun hfutures n
  refine ⟨fun n hn hpending => ?_, fun n hresult => ?_, fun n hcancelled => ?_⟩
  · rw [hold] at hpending
    split at hpending
    · cases hpending
    · next hnot =>
      rcases h.pending n (hcreated ▸ hn) hpending with hqueue | hcar
      · exact .inl ((hqueued n hqueue).resolve_left fun hin => hnot ⟨hpending, hin⟩)
      · exact .inr (hcarried n hcar)
  · rw [hold] at hresult
    split at hresult
    · cases hresult
    · rw [OnDisk, hwritten]
      exact h.result n hresult
  · rw [hold] at hcancelled
    split at hcancelled
    · next hin => exact .inr (hnumbers n hin.2)
    · rcases h.cancelled n hcancelled with hdisk | hcar | hfailed'
      · exact .inl (by rw [OnDisk, hwritten]; exact hdisk)
      · exact .inr (.inl (hcarried n hcar))
      · exact .inr (.inr (hfailed hfailed'))

/-- Before `stop` flushes nothing more is to be shown. -/
theorem Core.good (h : s.Core) (hrunning : ¬s.stopping.Flushes) : s.Good where
  toCore := h
  ended := fun hflushes => absurd hflushes hrunning
  drained := fun hdrained => absurd hdrained.flushes hrunning
  settled := fun hended => absurd hended.drained.flushes hrunning

theorem mem_collectedFutures {n : Nat} : n ∈ s.collectedFutures ↔
    ∃ file_path, n ∈ (s.requestsOf file_path).map QueuedWrite.future := by
  rw [collectedFutures, List.mem_map]
  simp only [List.mem_flatten, Dict.mem_values_iff, List.mem_map]
  constructor
  · rintro ⟨r, ⟨requests, ⟨file_path, hget⟩, hr⟩, rfl⟩
    refine ⟨file_path, r, ?_, rfl⟩
    rw [requestsOf, hget]
    exact hr
  · rintro ⟨file_path, r, hr, rfl⟩
    rw [requestsOf] at hr
    cases hget : s.write_requests.get? file_path with
    | none =>
      rw [hget] at hr
      cases hr
    | some requests =>
      rw [hget] at hr
      exact ⟨r, ⟨requests, ⟨file_path, hget⟩, hr⟩, rfl⟩

/-- When `stop` has ended, all is accounted for. -/
theorem Good.accounted (h : s.Good) : s.Accounted where
  on_disk := fun n _ => h.result n
  done := fun hended n hn hpending => by
    obtain ⟨hbatcher, hrequests⟩ := h.ended hended.drained.flushes
    rcases h.pending n hn hpending with hqueued | ⟨file_path, hin⟩ | hin | hin
    · rw [Queued, h.drained hended.drained] at hqueued
      cases hqueued
    · rw [hrequests] at hin
      cases hin
    · rw [hbatcher] at hin
      cases hin
    · exact h.settled hended n hin hpending
  not_discarded := fun hsucceeded n _ hcancelled => by
    cases hstop : s.stopping with
    | finished ok =>
      obtain ⟨hbatcher, hrequests⟩ := h.ended (by rw [hstop]; trivial)
      rw [hstop] at hsucceeded
      rcases h.cancelled n hcancelled with hdisk | (⟨file_path, hin⟩ | hin | hin) | hfailed
      · exact hdisk
      · rw [hrequests] at hin
        cases hin
      · rw [hbatcher] at hin
        cases hin
      · rw [hstop] at hin
        cases hin
      · rw [hstop] at hfailed
        exact absurd (hfailed.symm.trans hsucceeded) (by decide)
    | running | cancelling | flushing | flushed | closing | raised =>
      rw [hstop] at hsucceeded
      cases hsucceeded

end Core

end WriteQueue

end Ccbt.Storage
