import Ccbt.Storage.WriteQueueSafety

/-!
# Runs of the write queue

Every event that meets the condition keeps the invariant, so that in every run of such events all
writes are accounted for (`accounted_of_meets`).
-/

namespace Ccbt.Storage

open Python Transition

namespace WriteQueue

variable {Path : Type} [DecidableEq Path] {config : QueueConfig} {s : WriteQueue Path}

section Collecting

theorem mem_requestsOf_set {file_path file_path' : Path} {requests : List (QueuedWrite Path)} :
    ({ s with write_requests := s.write_requests.set file_path requests } :
      WriteQueue Path).requestsOf file_path' =
        if file_path' = file_path then requests else s.requestsOf file_path' := by
  rw [requestsOf, Dict.get?_set]
  split
  · rfl
  · rfl

theorem requestsOf_popRequests {file_path file_path' : Path} :
    (s.popRequests file_path).requestsOf file_path' =
      if file_path' = file_path then [] else s.requestsOf file_path' := by
  rw [requestsOf, popRequests, Dict.get?_erase]
  split
  · rfl
  · rfl

/-- The requests of a file that are taken away to be flushed. -/
theorem Core.flush (h : s.Core) (hbatcher : s.batcher.numbers = []) (file_path : Path)
    (stale : Option (List Path)) :
    ({ s.popRequests file_path with
        batcher := .flushing file_path (s.requestsOf file_path) stale } :
      WriteQueue Path).Core := by
  refine h.move rfl rfl (fun _ hdisk => hdisk) (fun _ hqueued => .inl hqueued) ?_ fun hf => hf
  rintro n (⟨file_path', hin⟩ | hin | hin)
  · by_cases heq : file_path' = file_path
    · exact .inr (.inl (heq ▸ hin))
    · refine .inl ⟨file_path', ?_⟩
      show n ∈ ((s.popRequests file_path).requestsOf file_path').map QueuedWrite.future
      rw [requestsOf_popRequests, if_neg heq]
      exact hin
  · rw [hbatcher] at hin
    cases hin
  · exact .inr (.inr hin)

/-- A batcher that awaits no batch may stand anywhere else. -/
theorem Core.rest (h : s.Core) (hbatcher : s.batcher.numbers = []) (batcher : Batcher Path) :
    ({ s with batcher := batcher } : WriteQueue Path).Core := by
  refine h.move rfl rfl (fun _ hdisk => hdisk) (fun _ hqueued => .inl hqueued) ?_ fun hf => hf
  rintro n (hin | hin | hin)
  · exact .inl hin
  · rw [hbatcher] at hin
    cases hin
  · exact .inr (.inr hin)

theorem Core.loop (h : s.Core) (hbatcher : s.batcher.numbers = []) : s.loop.Core :=
  h.rest hbatcher _

theorem Core.flushStale (h : s.Core) (hbatcher : s.batcher.numbers = []) (stale : List Path) :
    (flushStale stale s).Core := by
  induction stale generalizing s with
  | nil => exact h.loop hbatcher
  | cons file_path stale ih =>
    rw [WriteQueue.flushStale]
    split
    · next hnone =>
      refine ih ?_ hbatcher
      refine h.move rfl rfl (fun _ hdisk => hdisk) (fun _ hqueued => .inl hqueued) ?_ fun hf => hf
      rintro n (⟨file_path', hin⟩ | hin)
      · refine .inl ⟨file_path', ?_⟩
        rw [requestsOf_popRequests]
        split
        · next heq =>
          rw [heq, hnone] at hin
          exact hin
        · exact hin
      · exact .inr hin
    · exact h.flush hbatcher file_path (some stale)

/-- Where the batcher has stood makes no difference. -/
theorem flushStale_batcher (stale : List Path) (batcher : Batcher Path) :
    WriteQueue.flushStale stale { s with batcher := batcher } = WriteQueue.flushStale stale s := by
  induction stale generalizing s with
  | nil => rfl
  | cons file_path stale ih =>
    rw [WriteQueue.flushStale, WriteQueue.flushStale]
    show (if s.requestsOf file_path = [] then
      WriteQueue.flushStale stale { s.popRequests file_path with batcher := batcher } else _) = _
    rw [ih]
    rfl

theorem stopping_flushStale (stale : List Path) :
    (WriteQueue.flushStale stale s).stopping = s.stopping := by
  induction stale generalizing s with
  | nil => rfl
  | cons file_path stale ih =>
    rw [WriteQueue.flushStale]
    split
    · exact ih
    · rfl

end Collecting

section Steps

/-- Where the batcher has not ended, `stop` has not begun to flush. -/
theorem Good.not_flushes (h : s.Good) (hbatcher : s.batcher ≠ .ended) : ¬s.stopping.Flushes :=
  fun hflushes => hbatcher (h.ended hflushes).1

/-- The request is in the queue unless the queue is full. -/
theorem putWriteRequest_cases (config : QueueConfig) (s : WriteQueue Path)
    (request : QueuedWrite Path) :
    (s.QueueFull config ∧ s.putWriteRequest config request = none) ∨
      ¬s.QueueFull config ∧ ∃ queue, s.putWriteRequest config request = some queue ∧
        queue.Perm (s.queue ++ [request]) := by
  rw [putWriteRequest]
  split
  · next hpriority =>
    have hcomparable : Heapq.Comparable (fun a b : QueuedWrite Path => some (a.lt b))
        (s.queue ++ [request]) := fun _ _ _ _ => rfl
    obtain ⟨queue, hpush, hperm⟩ := Heapq.heappush_spec hcomparable
    rw [hpush]
    refine .inr ⟨fun hfull => ?_, queue, rfl, hperm⟩
    rw [hfull.1] at hpriority
    cases hpriority
  · next hpriority =>
    split
    · next hfull => exact .inl ⟨⟨by simpa using hpriority, hfull⟩, rfl⟩
    · next hfull => exact .inr ⟨fun h => hfull h.2, _, rfl, List.Perm.refl _⟩

theorem getWriteRequest_perm {request : QueuedWrite Path} {queue : List (QueuedWrite Path)}
    (h : s.getWriteRequest config = some (request, queue)) :
    (request :: queue).Perm s.queue := by
  rw [getWriteRequest] at h
  split at h
  · cases hqueue : s.queue with
    | nil =>
      rw [hqueue] at h
      cases h
    | cons first rest =>
      have hcomparable : Heapq.Comparable (fun a b : QueuedWrite Path => some (a.lt b))
          (first :: rest) := fun _ _ _ _ => rfl
      obtain ⟨item, heap, hpop, hperm⟩ :=
        Heapq.heappop_spec (List.cons_ne_nil first rest) hcomparable
      rw [hqueue, hpop] at h
      cases h
      exact hperm
  · cases hqueue : s.queue with
    | nil =>
      rw [hqueue] at h
      cases h
    | cons first rest =>
      rw [hqueue] at h
      cases h
      exact List.Perm.refl _

/-- A new future, of a request in the queue or of one that was refused. -/
theorem Core.issue (h : s.Core) {s' : WriteQueue Path} {outcome : FutureState}
    (hfutures : s'.futures = Function.update s.futures s.created outcome)
    (hcreated : s'.created = s.created + 1) (hwritten : s'.written = s.written)
    (houtcome : outcome = .pending ∧ s'.Queued s.created ∨ outcome = .exception .queue_full)
    (hqueued : ∀ n, s.Queued n → s'.Queued n) (hcarried : ∀ n, s.Carried n → s'.Carried n)
    (hfailed : s.stopping.Failed → s'.stopping.Failed) : s'.Core := by
  have hnew : s'.futures s.created = outcome := by rw [hfutures, Function.update_self]
  have hold : ∀ n, n ≠ s.created → s'.futures n = s.futures n := by
    intro n hne
    rw [hfutures, Function.update_of_ne hne]
  refine ⟨fun n hn hpending => ?_, fun n hresult => ?_, fun n hcancelled => ?_⟩
  · by_cases heq : n = s.created
    · rw [heq, hnew] at hpending
      rcases houtcome with ⟨-, hin⟩ | hfull
      · exact .inl (heq ▸ hin)
      · rw [hfull] at hpending
        cases hpending
    · rw [hold n heq] at hpending
      exact (h.pending n (by omega) hpending).imp (hqueued n) (hcarried n)
  · by_cases heq : n = s.created
    · rw [heq, hnew] at hresult
      rcases houtcome with ⟨hpending, -⟩ | hfull
      · rw [hpending] at hresult
        cases hresult
      · rw [hfull] at hresult
        cases hresult
    · rw [OnDisk, hwritten]
      exact h.result n (hold n heq ▸ hresult)
  · by_cases heq : n = s.created
    · rw [heq, hnew] at hcancelled
      rcases houtcome with ⟨hpending, -⟩ | hfull
      · rw [hpending] at hcancelled
        cases hcancelled
      · rw [hfull] at hcancelled
        cases hcancelled
    · rw [hold n heq] at hcancelled
      rcases h.cancelled n hcancelled with hdisk | hcar | hfailed'
      · exact .inl (by rw [OnDisk, hwritten]; exact hdisk)
      · exact .inr (.inl (hcarried n hcar))
      · exact .inr (.inr (hfailed hfailed'))

theorem Good.writeBlock (h : s.Good) (file_path : Path) (offset : Nat) (data : Bytes)
    (priority : Int) (now : Time) (hmeets : s.QueueFull config ∨ ¬s.stopping.Drained) :
    (s.writeBlock config file_path offset data priority now).Good := by
  rw [WriteQueue.writeBlock]
  rcases putWriteRequest_cases config s
    ⟨⟨offset, data⟩, file_path, s.created, now, priority⟩ with
    ⟨-, hnone⟩ | ⟨hroom, queue, hsome, hperm⟩
  · rw [hnone]
    refine ⟨h.issue rfl rfl rfl (.inr rfl) (fun _ hin => hin) (fun _ hin => hin) fun hf => hf,
      h.ended, h.drained, fun hended n hn => ?_⟩
    have hsettled := h.settled hended n hn
    dsimp only
    by_cases heq : n = s.created
    · rw [heq, Function.update_self]
      decide
    · rw [Function.update_of_ne heq]
      exact hsettled
  · rw [hsome]
    have hopen : ¬s.stopping.Drained := hmeets.resolve_left hroom
    have hqueue := hperm.map QueuedWrite.future
    rw [List.map_append, List.map_singleton] at hqueue
    refine ⟨h.issue rfl rfl rfl (.inl ⟨rfl, ?_⟩) (fun n hin => ?_) (fun _ hin => hin) fun hf => hf,
      h.ended, fun hdrained => absurd hdrained hopen, fun hended => absurd hended.drained hopen⟩
    · exact hqueue.symm.subset (List.mem_append_right _ (List.mem_singleton_self _))
    · exact hqueue.symm.subset (List.mem_append_left _ hin)

theorem Good.batcherGet (h : s.Good) (now : Time) : (s.batcherGet config now).Good := by
  rw [WriteQueue.batcherGet]
  split
  · next request queue hbatcher hget =>
    have hrunning : ¬s.stopping.Flushes := h.not_flushes (by rw [hbatcher]; simp)
    have hperm := (getWriteRequest_perm hget).map QueuedWrite.future
    rw [List.map_cons] at hperm
    let s' : WriteQueue Path := { s with
      queue := queue
      write_requests := s.write_requests.set request.file_path
        (s.requestsOf request.file_path ++ [request]) }
    have hrequests : ∀ file_path, s'.requestsOf file_path =
        if file_path = request.file_path then s.requestsOf request.file_path ++ [request]
        else s.requestsOf file_path := fun file_path => mem_requestsOf_set
    have hcore : s'.Core := by
      refine h.move rfl rfl (fun _ hdisk => hdisk) (fun n hin => ?_) ?_ fun hf => hf
      · obtain rfl | hin := List.mem_cons.mp (hperm.symm.subset hin)
        · refine .inr (.inl ⟨request.file_path, ?_⟩)
          rw [hrequests, if_pos rfl, List.map_append]
          exact List.mem_append_right _ (List.mem_singleton_self _)
        · exact .inl hin
      · rintro n (⟨file_path, hin⟩ | hin)
        · refine .inl ⟨file_path, ?_⟩
          rw [hrequests]
          split
          · next heq =>
            rw [List.map_append]
            exact List.mem_append_left _ (heq ▸ hin)
          · exact hin
        · exact .inr hin
    have hnone : s'.batcher.numbers = [] := by
      show s.batcher.numbers = []
      rw [hbatcher]
      rfl
    dsimp only
    split
    · have hflush := hcore.flush hnone request.file_path none
      rw [hrequests, if_pos rfl] at hflush
      exact hflush.good hrunning
    · exact (hcore.loop hnone).good hrunning
  · exact h

theorem Good.batcherTimeout (h : s.Good) (now : Time) : (s.batcherTimeout now).Good := by
  rw [WriteQueue.batcherTimeout]
  split
  · next hbatcher =>
    have hrunning : ¬s.stopping.Flushes := h.not_flushes (by rw [hbatcher]; simp)
    refine (h.flushStale (by rw [hbatcher]; rfl) (s.staleFiles now)).good ?_
    rw [stopping_flushStale]
    exact hrunning
  · exact h

theorem Good.batcherResume (h : s.Good) {error : Bool}
    (hmeets : s.Meets config (.batcherResume error)) : (s.batcherResume error).Good := by
  rw [WriteQueue.batcherResume]
  cases hbatcher : s.batcher with
  | flushing file_path batch stale =>
    have hdone : error = false := hmeets (by rw [hbatcher]; rfl)
    have hrunning : ¬s.stopping.Flushes := h.not_flushes (by rw [hbatcher]; simp)
    have hcore : ({ s.complete batch with batcher := .sleeping } : WriteQueue Path).Core := by
      refine h.complete rfl rfl rfl rfl ?_ fun hf => hf
      rintro n (hin | hin | hin)
      · exact .inr (.inl hin)
      · rw [hbatcher] at hin
        exact .inl hin
      · exact .inr (.inr (.inr hin))
    dsimp only
    rw [if_neg (by rw [hdone]; decide)]
    cases stale with
    | none => exact (hcore.loop rfl).good hrunning
    | some stale =>
      have hstale := hcore.flushStale rfl stale
      rw [flushStale_batcher] at hstale
      refine hstale.good ?_
      rw [stopping_flushStale]
      exact hrunning
  | waiting | sleeping | ended => exact h

theorem Good.batcherWake (h : s.Good) : s.batcherWake.Good := by
  rw [WriteQueue.batcherWake]
  split
  · next hbatcher =>
    have hrunning : ¬s.stopping.Flushes := h.not_flushes (by rw [hbatcher]; simp)
    exact (h.loop (by rw [hbatcher]; rfl)).good hrunning
  · exact h

theorem Good.batcherCancel (h : s.Good) {done : Bool}
    (hmeets : s.Meets config (.batcherCancel done)) : (s.batcherCancel done).Good := by
  rw [WriteQueue.batcherCancel]
  split
  · next hstop hbatcher =>
    have hcore : s.failCollected.Core := by
      refine h.fail rfl rfl rfl (fun _ hin => .inr hin) ?_ (fun n hin => ?_) fun hf => hf
      · rintro n (hin | hin | hin)
        · exact .inl hin
        · rw [hbatcher] at hin
          cases hin
        · exact .inr (.inr hin)
      · exact .inl (.inl (mem_collectedFutures.mp hin))
    refine hcore.good ?_
    show ¬s.stopping.Flushes
    rw [hstop]
    exact id
  · next hstop hbatcher =>
    have hidle := hmeets (by rw [hstop]; rfl)
    rw [hbatcher] at hidle
    cases hidle
  · next hstop hbatcher =>
    refine (h.rest (by rw [hbatcher]; rfl) _).good ?_
    show ¬s.stopping.Flushes
    rw [hstop]
    exact id
  · exact h

theorem Good.stop (h : s.Good) : s.stop.Good := by
  rw [WriteQueue.stop]
  split
  · next hstop =>
    refine Core.good ?_ id
    refine h.move rfl rfl (fun _ hdisk => hdisk) (fun _ hin => .inl hin) ?_ fun hf => ?_
    · rintro n (hin | hin | hin)
      · exact .inl hin
      · exact .inr (.inl hin)
      · rw [hstop] at hin
        cases hin
    · rw [hstop] at hf
      exact hf.elim
  · exact h

omit [DecidableEq Path] in
/-- With batches left to write `stop` flushes, otherwise the flush is over. -/
theorem numbers_flush (batches : List (List (QueuedWrite Path))) :
    (if batches.length = 0 then .flushed true else .flushing batches : Stopping Path).numbers =
      batches.flatten.map QueuedWrite.future := by
  split
  · next hnone =>
    rw [List.length_eq_zero_iff.mp hnone]
    rfl
  · rfl

omit [DecidableEq Path] in
theorem not_drained_flush (batches : List (List (QueuedWrite Path))) :
    ¬(if batches.length = 0 then .flushed true else .flushing batches : Stopping Path).Drained := by
  split <;> exact id

theorem Good.stopFlush (h : s.Good) : s.stopFlush.Good := by
  rw [WriteQueue.stopFlush]
  split
  · next hstop hbatcher =>
    have hcollected : ∀ n, (∃ file_path, n ∈ (s.requestsOf file_path).map QueuedWrite.future) →
        n ∈ (s.write_requests.values.filter fun requests =>
          requests.length ≠ 0).flatten.map QueuedWrite.future := by
      rintro n ⟨file_path, hin⟩
      rw [requestsOf] at hin
      cases hget : s.write_requests.get? file_path with
      | none =>
        rw [hget] at hin
        cases hin
      | some requests =>
        rw [hget, Option.getD_some] at hin
        obtain ⟨r, hr, rfl⟩ := List.mem_map.mp hin
        have hvalue := (Dict.mem_values_iff _).mpr ⟨file_path, hget⟩
        have hlength : requests.length ≠ 0 := Nat.pos_iff_ne_zero.mp (List.length_pos_of_mem hr)
        exact List.mem_map_of_mem (List.mem_flatten.mpr
          ⟨requests, List.mem_filter.mpr ⟨hvalue, by simpa using hlength⟩, hr⟩)
    dsimp only
    generalize s.write_requests.values.filter (fun requests => decide (requests.length ≠ 0)) =
      batches at hcollected
    refine ⟨?_, fun _ => ⟨hbatcher, fun _ => rfl⟩,
      fun hdrained => absurd hdrained (not_drained_flush batches),
      fun hended => absurd hended.drained (not_drained_flush batches)⟩
    · refine h.move rfl rfl (fun _ hdisk => hdisk) (fun _ hin => .inl hin) ?_ fun hf => ?_
      · rintro n (hin | hin | hin)
        · refine .inr (.inr ?_)
          rw [numbers_flush]
          exact hcollected n hin
        · exact .inr (.inl hin)
        · rw [hstop] at hin
          cases hin
      · rw [hstop] at hf
        exact hf.elim
  · exact h

omit [DecidableEq Path] in
/-- What is in the batches is in one of them or in the others. -/
theorem mem_flatten_eraseIdx {batches : List (List (QueuedWrite Path))} {i n : Nat}
    {batch : List (QueuedWrite Path)} (hi : batches[i]? = some batch) :
    n ∈ batches.flatten.map QueuedWrite.future ↔ n ∈ batch.map QueuedWrite.future ∨
      n ∈ (batches.eraseIdx i).flatten.map QueuedWrite.future := by
  obtain ⟨hlt, hget⟩ := List.getElem?_eq_some_iff.mp hi
  have hperm := ((List.getElem_cons_eraseIdx_perm hlt).symm.flatten.map QueuedWrite.future)
  rw [hget, List.flatten_cons, List.map_append] at hperm
  rw [hperm.mem_iff, List.mem_append]

section Batches

variable {batches : List (List (QueuedWrite Path))} {batch : List (QueuedWrite Path)} {i : Nat}

/-- The exception of a batch goes through `stop`, and nobody is left to do the futures. -/
theorem Good.flushRaises (h : s.Good) (hstop : s.stopping = .flushing batches)
    (hi : batches[i]? = some batch) (hqueue : s.queue = []) (hsettled : s.Settled) :
    Good { s with stopping := .raised (batches.eraseIdx i) } := by
  obtain ⟨hbatcher, hrequests⟩ := h.ended (by rw [hstop]; trivial)
  refine ⟨⟨fun n hn hpending => ?_, h.result, fun n _ => .inr (.inr trivial)⟩,
    fun _ => ⟨hbatcher, hrequests⟩, fun _ => hqueue, fun _ n hin => ?_⟩
  · rcases h.pending n hn hpending with hin | ⟨file_path, hin⟩ | hin | hin
    · rw [Queued, hqueue] at hin
      cases hin
    · rw [hrequests] at hin
      cases hin
    · rw [hbatcher] at hin
      cases hin
    · exact absurd hpending (hsettled n hin)
  · refine hsettled n ?_
    rw [hstop]
    exact (mem_flatten_eraseIdx hi).mpr (.inr hin)

theorem Good.flushWrites (h : s.Good) (hstop : s.stopping = .flushing batches)
    (hi : batches[i]? = some batch) : Good { s.complete batch with
      stopping := if (batches.eraseIdx i).length = 0 then .flushed true
        else .flushing (batches.eraseIdx i) } := by
  refine ⟨h.complete rfl rfl rfl rfl ?_ fun hf => ?_,
    fun _ => h.ended (by rw [hstop]; trivial),
    fun hdrained => absurd hdrained (not_drained_flush _),
    fun hended => absurd hended.drained (not_drained_flush _)⟩
  · rintro n (hin | hin | hin)
    · exact .inr (.inl hin)
    · exact .inr (.inr (.inl hin))
    · rw [hstop] at hin
      refine ((mem_flatten_eraseIdx hi).mp hin).imp id fun hin => .inr (.inr ?_)
      rw [numbers_flush]
      exact hin
  · rw [hstop] at hf
    exact hf.elim

/-- After an exception the executor still writes the other batches. -/
theorem Good.raisedResume (h : s.Good) (hstop : s.stopping = .raised batches)
    (hi : batches[i]? = some batch) (error : Bool) :
    Good { (if error then s else s.complete batch) with
      stopping := .raised (batches.eraseIdx i) } := by
  have hended := h.ended (by rw [hstop]; trivial)
  have hqueue := h.drained (by rw [hstop]; trivial)
  have hsettled := h.settled (by rw [hstop]; trivial)
  rw [Settled, hstop] at hsettled
  have hpending : ∀ n < s.created, s.futures n ≠ .pending :=
    h.accounted.done (by rw [hstop]; trivial)
  split
  · exact ⟨⟨fun n hn hpend => absurd hpend (hpending n hn), h.result,
      fun n _ => .inr (.inr trivial)⟩, fun _ => hended, fun _ => hqueue,
      fun _ n hin => hsettled n ((mem_flatten_eraseIdx hi).mpr (.inr hin))⟩
  · refine ⟨h.complete rfl rfl rfl rfl ?_ fun _ => trivial, fun _ => hended,
      fun _ => hqueue, fun _ n hin => ?_⟩
    · rintro n (hin | hin | hin)
      · exact .inr (.inl hin)
      · exact .inr (.inr (.inl hin))
      · rw [hstop] at hin
        exact ((mem_flatten_eraseIdx hi).mp hin).imp id fun hin => .inr (.inr hin)
    · have hdone := hsettled n ((mem_flatten_eraseIdx hi).mpr (.inr hin))
      show (if s.futures n = .pending ∧ n ∈ batch.map QueuedWrite.future then .result
        else s.futures n) ≠ .pending
      rw [if_neg fun h => hdone h.1]
      exact hdone

end Batches

theorem Good.stopResume (h : s.Good) {i : Nat} {error : Bool}
    (hmeets : s.Meets config (.stopResume i error)) : (s.stopResume i error).Good := by
  rw [WriteQueue.stopResume]
  cases hstop : s.stopping with
  | flushing batches =>
    dsimp only
    cases hi : batches[i]? with
    | none => exact h
    | some batch =>
      dsimp only
      split
      · next herror =>
        obtain ⟨hqueue, hsettled⟩ := hmeets (by rw [hstop]; rfl) herror
        exact h.flushRaises hstop hi hqueue hsettled
      · exact h.flushWrites hstop hi
  | raised batches =>
    dsimp only
    cases hi : batches[i]? with
    | none => exact h
    | some batch => exact h.raisedResume hstop hi error
  | running | cancelling | flushed | closing | finished => exact h

theorem Good.stopTimeout (h : s.Good) {done : Nat → Bool}
    (hmeets : s.Meets config (.stopTimeout done)) : (s.stopTimeout done).Good := by
  rw [WriteQueue.stopTimeout]
  cases hstop : s.stopping with
  | flushing batches =>
    have hsettled := hmeets (by rw [hstop]; rfl)
    obtain ⟨hbatcher, hrequests⟩ := h.ended (by rw [hstop]; trivial)
    refine ⟨⟨fun n hn hpending => ?_, fun n hresult => ?_, fun n _ => .inr (.inr rfl)⟩,
      fun _ => ⟨hbatcher, hrequests⟩, fun hdrained => hdrained.elim, fun hended => hended.elim⟩
    · rcases h.pending n hn hpending with hin | ⟨file_path, hin⟩ | hin | hin
      · exact .inl hin
      · rw [hrequests] at hin
        cases hin
      · rw [hbatcher] at hin
        cases hin
      · exact absurd hpending (hsettled n hin)
    · show n ∈ List.map _ (_ ++ _)
      rw [List.map_append]
      exact List.mem_append_left _ (h.result n hresult)
  | raised | running | cancelling | flushed | closing | finished => exact h

theorem Good.stopDrain (h : s.Good) (hmeets : s.Meets config .stopDrain) : s.stopDrain.Good := by
  rw [WriteQueue.stopDrain]
  cases hstop : s.stopping with
  | flushed ok =>
    have hempty : ok = true → s.queue = [] := fun hok => hmeets (by rw [hstop, hok]; rfl)
    obtain ⟨hbatcher, hrequests⟩ := h.ended (by rw [hstop]; trivial)
    have hnone : s.collectedFutures = [] := by
      refine List.eq_nil_iff_forall_not_mem.mpr fun n hin => ?_
      obtain ⟨file_path, hin⟩ := mem_collectedFutures.mp hin
      rw [hrequests] at hin
      cases hin
    refine ⟨h.fail rfl rfl rfl (fun n hin => .inl (List.mem_append_right _ hin)) ?_
      (fun n hin => ?_) fun hf => ?_, fun _ => ⟨hbatcher, hrequests⟩, fun _ => rfl,
        fun hended => hended.elim⟩
    · rintro n (hin | hin | hin)
      · exact .inl hin
      · exact .inr (.inl hin)
      · rw [hstop] at hin
        cases hin
    · rw [hnone, List.nil_append] at hin
      refine .inr ?_
      show ok = false
      cases ok with
      | false => rfl
      | true =>
        rw [hempty rfl] at hin
        cases hin
    · rw [hstop] at hf
      exact hf
  | raised | running | cancelling | flushing | closing | finished => exact h

theorem Good.stopFinish (h : s.Good) : s.stopFinish.Good := by
  rw [WriteQueue.stopFinish]
  cases hstop : s.stopping with
  | closing ok =>
    obtain ⟨hbatcher, hrequests⟩ := h.ended (by rw [hstop]; trivial)
    have hqueue := h.drained (by rw [hstop]; trivial)
    refine ⟨h.move rfl rfl (fun _ hdisk => hdisk) (fun _ hin => .inl hin) ?_ fun hf => ?_,
      fun _ => ⟨hbatcher, hrequests⟩, fun _ => hqueue, fun _ _ hin => absurd hin List.not_mem_nil⟩
    · rintro n (hin | hin | hin)
      · exact .inl hin
      · exact .inr (.inl hin)
      · rw [hstop] at hin
        cases hin
    · rw [hstop] at hf
      exact hf
  | raised | running | cancelling | flushing | flushed | finished => exact h

/-- Every event that meets the condition keeps the invariant. -/
theorem Good.step (h : s.Good) {e : Event Path} (hmeets : s.Meets config e) :
    (s.step config e).Good := by
  cases e with
  | write_block file_path offset data priority now =>
    exact h.writeBlock file_path offset data priority now hmeets
  | batcherGet now => exact h.batcherGet now
  | batcherTimeout now => exact h.batcherTimeout now
  | batcherResume error => exact h.batcherResume hmeets
  | batcherWake => exact h.batcherWake
  | batcherCancel done => exact h.batcherCancel hmeets
  | stop => exact h.stop
  | stopFlush => exact h.stopFlush
  | stopResume i error => exact h.stopResume hmeets
  | stopTimeout done => exact h.stopTimeout hmeets
  | stopDrain => exact h.stopDrain hmeets
  | stopFinish => exact h.stopFinish

end Steps

section Runs

/-- Nothing has been written yet, and nothing is on its way. -/
theorem good_empty : ({} : WriteQueue Path).Good :=
  Core.good ⟨fun n hn => absurd hn (Nat.not_lt_zero n), fun _ hresult => (nomatch hresult),
    fun _ hcancelled => (nomatch hcancelled)⟩ id

/-- In every run of a started manager whose events all meet the condition, every accepted write is
accounted for in every state. -/
theorem accounted_of_meets {history : List (Event Path)}
    (h : StepsMeet (step config) (fun s e => s.Meets config e) {} history) :
    Always (step config) Accounted {} history :=
  (always_of_stepsMeet (fun _ _ hs hmeets => hs.step hmeets) good_empty h).mono
    fun _ hs => hs.accounted

/-- A write that is flushed, and a stop afterwards. -/
def plainHistory : List (Event Unit) :=
  [.write_block () 0 [1] 0 0, .batcherGet 1, .batcherResume false, .stop, .batcherCancel false,
    .stopFlush, .stopDrain, .stopFinish]

/-- In this history all is accounted for. -/
theorem plainHistory_accounted :
    StepsMeet (step {}) (fun s e => s.Meets {} e) {} plainHistory ∧
      Always (step {}) Accounted {} plainHistory := by
  have hmeets : StepsMeet (step {}) (fun s e => s.Meets {} e) {} plainHistory := by
    decide +kernel
  exact ⟨hmeets, accounted_of_meets hmeets⟩

/-- A batch that cannot be written, and a request that is still queued when the manager is stopped:
the future of the first one is never done, and the data of the second one are never written. -/
theorem lostWrite_and_droppedWrite :
    let failed := run (step {}) ({} : WriteQueue Unit) [.write_block () 0 [1] 0 0, .batcherGet 1,
      .batcherResume true, .batcherWake, .stop, .batcherCancel false, .stopFlush, .stopDrain,
      .stopFinish]
    let dropped := run (step {}) ({} : WriteQueue Unit) [.write_block () 0 [1] 0 0, .stop,
      .batcherCancel false, .stopFlush, .stopDrain, .stopFinish]
    (failed.stopping.succeeded = true ∧ failed.created = 1 ∧ failed.futures 0 = .pending) ∧
      dropped.stopping.succeeded = true ∧ dropped.created = 1 ∧
      dropped.futures 0 = .exception .CancelledError ∧ dropped.written.length = 0 := by
  decide +kernel

end Runs

end WriteQueue

end Ccbt.Storage
