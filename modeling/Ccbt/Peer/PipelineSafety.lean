import Ccbt.Peer.Dispatch
import Ccbt.Peer.Pipeline

/-!
# What the request pipeline keeps

The table of outstanding requests against the record of the wire, the limit of the
pipeline, calls that return, and the promptness of what was queued: along every run whose
steps meet `PipelineEvent.Meets` all of this holds, and without it each of the four fails.
-/

namespace Ccbt

open Python Transition

namespace Peer

/-- The requests sent and neither answered nor discarded, after one more occurrence. -/
def pendingStep (pending : List RequestKey) : Occurrence → List RequestKey
  | .request key _ => key :: pending
  | .piece key => pending.filter fun k => k ≠ key
  | .choke => []

/-- The requests sent and neither answered by their block nor discarded by a choke. -/
def pending (wire : List Occurrence) : List RequestKey := wire.foldl pendingStep []

@[simp] theorem pending_append_singleton (wire : List Occurrence) (o : Occurrence) :
    pending (wire ++ [o]) = pendingStep (pending wire) o := by
  simp [pending]

def RequestInfo.Fits (r : RequestInfo) : Prop :=
  r.piece_index < 2 ^ 32 ∧ r.begin + r.length < 2 ^ 32

/-- The requests in the queues of a connection. -/
def AsyncPeerConnection.queued (c : AsyncPeerConnection) : List RequestInfo :=
  c.request_queue ++ (c.priority_queue.getD []).map fun e => e.2.2

namespace Pipeline

def connection (p : Pipeline) : AsyncPeerConnection := p.link.session.connection

/-- The requests that were accepted and not sent yet. -/
def unsent (p : Pipeline) : List RequestInfo :=
  p.connection.queued ++ p.tasks.flatMap RequestTask.unsent

/-- What is expected of the pipeline in every state. -/
structure Sound (p : Pipeline) : Prop where
  outstanding : ∀ key, p.connection.outstanding_requests.contains key = true ↔
    key ∈ pending p.link.wire
  depth : ∀ key n, .request key n ∈ p.link.wire → n < p.connection.max_pipeline_depth
  returns : .raised ∉ p.tasks
  prompt : p.connection.peer_choking = false →
    p.connection.outstanding_requests.size < p.connection.max_pipeline_depth → p.unsent = []

end Pipeline

/-- What a call that goes on must find for the pipeline to stay sound. -/
def RequestTask.Meets (config : PipelineConfig) (c : AsyncPeerConnection) (i : Resumption) :
    RequestTask → Prop
  -- the block fits a message, and the entries of the priority queue can be compared
  | priority key =>
    key.1 < 2 ^ 32 ∧ key.2.1 + key.2.2 < 2 ^ 32 ∧
      (config.pipeline_enable_prioritization → Heapq.Comparable QueueEntry.lt
        (c.priority_queue.getD [] ++ [(-i.priority, i.now,
          { piece_index := key.1, begin := key.2.1, length := key.2.2
            timestamp := i.timestamp })]))
  -- the sending did not fail, and what remains finds a slot or is outstanding already
  | sending rest =>
    i.raises = false ∧ (c.outstanding_requests.size < c.max_pipeline_depth ∨
      ∀ r ∈ rest, c.outstanding_requests.contains r.key = true)
  | interested _ | returned | raised => True

/-- What a step must find for the pipeline to stay sound. -/
def PipelineEvent.Meets (config : PipelineConfig) (p : Pipeline) : PipelineEvent → Prop
  | request_piece _ => True
  | resume n i => ∀ t ∈ p.tasks[n]?, t.Meets config p.connection i
  -- a choke finds nothing outstanding
  | receive .ChokeMessage => p.connection.outstanding_requests.size = 0
  -- an unchoke and a block find nothing unsent that could be sent now
  | receive .UnchokeMessage =>
    p.connection.outstanding_requests.size < p.connection.max_pipeline_depth → p.unsent = []
  | receive (.PieceMessage piece_index begin block) =>
    p.connection.peer_choking = false →
      (p.connection.outstanding_requests.erase
        (piece_index.toNat, begin.toNat, block.length)).size < p.connection.max_pipeline_depth →
      p.unsent = []
  | receive _ => True

instance (config : PipelineConfig) (c : AsyncPeerConnection) (i : Resumption) :
    (t : RequestTask) → Decidable (t.Meets config c i)
  | .priority _ => inferInstanceAs (Decidable (_ ∧ _))
  | .sending _ => inferInstanceAs (Decidable (_ ∧ _))
  | .interested _ | .returned | .raised => .isTrue trivial

instance (config : PipelineConfig) (p : Pipeline) :
    (e : PipelineEvent) → Decidable (e.Meets config p)
  | .request_piece _ => .isTrue trivial
  | .resume n i => inferInstanceAs (Decidable (∀ t ∈ p.tasks[n]?, t.Meets config p.connection i))
  | .receive .ChokeMessage => inferInstanceAs (Decidable (_ = 0))
  | .receive .UnchokeMessage => inferInstanceAs (Decidable (_ → _))
  | .receive (.PieceMessage _ _ _) => inferInstanceAs (Decidable (_ → _ → _))
  | .receive .KeepAliveMessage | .receive .InterestedMessage | .receive .NotInterestedMessage
  | .receive (.HaveMessage _) | .receive (.BitfieldMessage _)
  | .receive (.RequestMessage _ _ _) | .receive (.CancelMessage _ _ _) => .isTrue trivial

section Queues

variable {config : PipelineConfig}

theorem coalesceFrom_fits {threshold : Nat} {current : RequestInfo} {requests : List RequestInfo}
    (hcurrent : current.Fits) (h : ∀ r ∈ requests, r.Fits) :
    ∀ r ∈ coalesceFrom threshold current requests, r.Fits := by
  induction requests generalizing current with
  | nil =>
    intro r hr
    rwa [List.mem_singleton.mp hr]
  | cons req rest ih =>
    have hrest : ∀ r ∈ rest, r.Fits := fun r hr => h r (List.mem_cons_of_mem _ hr)
    have hreq := h req List.mem_cons_self
    rw [coalesceFrom]
    split
    · dsimp only
      split
      · refine ih ⟨hcurrent.1, ?_⟩ hrest
        dsimp only
        have := hreq.2
        omega
      · exact ih hcurrent hrest
    · intro r hr
      rcases List.mem_cons.mp hr with rfl | hr
      · exact hcurrent
      · exact ih hreq hrest r hr

theorem coalesceRequests_fits {requests : List RequestInfo} (h : ∀ r ∈ requests, r.Fits) :
    ∀ r ∈ coalesceRequests config requests, r.Fits := by
  rw [coalesceRequests]
  split
  · split
    · intro r hr
      exact absurd hr List.not_mem_nil
    · next current rest hsorted =>
      have hsort (r : RequestInfo) (hr : r ∈ current :: rest) : r.Fits := by
        rw [← hsorted] at hr
        exact h r (List.mem_mergeSort.mp hr)
      exact coalesceFrom_fits (hsort current List.mem_cons_self) fun r hr =>
        hsort r (List.mem_cons_of_mem _ hr)
  · exact h

@[simp] theorem coalesceRequests_nil : coalesceRequests config [] = [] := by
  simp [coalesceRequests]

@[simp] theorem coalesceRequests_singleton (r : RequestInfo) :
    coalesceRequests config [r] = [r] := by
  simp [coalesceRequests, coalesceFrom]

theorem popRequests_spec {n : Nat} {heap : List QueueEntry}
    (h : Heapq.Comparable QueueEntry.lt heap) :
    ∃ requests heap', popRequests n heap = .ok (requests, heap') ∧ requests.length ≤ n ∧
      (∀ r ∈ requests, r ∈ heap.map fun e => e.2.2) ∧ heap' ⊆ heap := by
  induction n generalizing heap with
  | zero => exact ⟨[], heap, rfl, le_rfl, by simp, List.Subset.refl heap⟩
  | succ n ih =>
    cases heap with
    | nil => exact ⟨[], [], rfl, Nat.zero_le _, by simp, List.Subset.refl []⟩
    | cons e heap =>
      obtain ⟨entry, heap', hpop, hperm⟩ := Heapq.heappop_spec (List.cons_ne_nil e heap) h
      have hsub : heap' ⊆ e :: heap := fun x hx => hperm.subset (List.mem_cons_of_mem _ hx)
      obtain ⟨requests, heap'', hrest, hlength, hmem, hsub'⟩ :=
        @ih heap' fun a ha b hb => h a (hsub ha) b (hsub hb)
      refine ⟨entry.2.2 :: requests, heap'', ?_, Nat.succ_le_succ hlength, ?_,
        fun x hx => hsub (hsub' hx)⟩
      · rw [popRequests, hpop]
        dsimp only
        rw [hrest]
      · intro r hr
        rcases List.mem_cons.mp hr with rfl | hr
        · exact List.mem_map_of_mem (hperm.subset List.mem_cons_self)
        · exact List.map_subset _ hsub (hmem r hr)

namespace AsyncPeerConnection

/-- The connection with other queues. -/
def withQueues (c : AsyncPeerConnection) (q : List RequestInfo) (pq : Option (List QueueEntry)) :
    AsyncPeerConnection :=
  { c with request_queue := q, priority_queue := pq }

theorem enqueue_spec {c : AsyncPeerConnection} {priority : Rat} {now : Time} {r : RequestInfo}
    (h : config.pipeline_enable_prioritization = true → Heapq.Comparable QueueEntry.lt
      (c.priority_queue.getD [] ++ [(-priority, now, r)])) :
    ∃ q pq, c.enqueue config priority now r = .ok (c.withQueues q pq) ∧
      (∀ r' ∈ (c.withQueues q pq).queued, r' = r ∨ r' ∈ c.queued) ∧
      (config.pipeline_enable_prioritization = true →
        Heapq.Comparable QueueEntry.lt (pq.getD [])) := by
  rw [enqueue]
  split
  · next hprio =>
    obtain ⟨heap, hpush, hperm⟩ := Heapq.heappush_spec (h hprio)
    refine ⟨c.request_queue, some heap, by rw [hpush]; rfl, ?_, fun _ => (h hprio).perm hperm⟩
    intro r' hr'
    rcases List.mem_append.mp hr' with hq | hq
    · exact Or.inr (List.mem_append_left _ hq)
    · obtain ⟨e, he, rfl⟩ := List.mem_map.mp hq
      rcases List.mem_append.mp (hperm.subset he) with he | he
      · exact Or.inr (List.mem_append_right _ (List.mem_map_of_mem he))
      · rw [List.mem_singleton.mp he]
        exact Or.inl rfl
  · next hprio =>
    refine ⟨c.request_queue ++ [r], c.priority_queue, rfl, ?_, fun hp => absurd hp hprio⟩
    intro r' hr'
    simp only [withQueues, queued, List.mem_append, List.mem_singleton] at hr' ⊢
    tauto

theorem takeRequests_spec {c : AsyncPeerConnection}
    (h : config.pipeline_enable_prioritization = true →
      Heapq.Comparable QueueEntry.lt (c.priority_queue.getD [])) :
    ∃ requests q pq, c.takeRequests config = .ok (requests, c.withQueues q pq) ∧
      requests.length ≤ c.getAvailablePipelineSlots ∧
      (∀ r ∈ requests, r ∈ c.queued) ∧ ∀ r ∈ (c.withQueues q pq).queued, r ∈ c.queued := by
  rw [takeRequests]
  split
  · next hprio =>
    obtain ⟨requests, heap, hpop, hlength, hmem, hsub⟩ :=
      @popRequests_spec c.getAvailablePipelineSlots _ (h hprio.1)
    refine ⟨requests, c.request_queue, some heap, by rw [hpop]; rfl, hlength,
      fun r hr => List.mem_append_right _ (hmem r hr), fun r hr => ?_⟩
    rcases List.mem_append.mp hr with hr | hr
    · exact List.mem_append_left _ hr
    · exact List.mem_append_right _ (List.map_subset _ hsub hr)
  · refine ⟨c.request_queue.take c.getAvailablePipelineSlots,
      c.request_queue.drop c.getAvailablePipelineSlots, c.priority_queue, rfl,
      List.length_take_le _ _, fun r hr => List.mem_append_left _ (List.mem_of_mem_take hr),
      fun r hr => ?_⟩
    rcases List.mem_append.mp hr with hr | hr
    · exact List.mem_append_left _ (List.mem_of_mem_drop hr)
    · exact List.mem_append_right _ hr

/-- With a free slot and nothing queued, a new request is taken at once. -/
theorem takeRequests_enqueue {c c' : AsyncPeerConnection} {priority : Rat} {now : Time}
    {r : RequestInfo} (hqueued : c.queued = []) (hslot : 0 < c.getAvailablePipelineSlots)
    (h : c.enqueue config priority now r = .ok c') :
    ∃ c'', c'.takeRequests config = .ok ([r], c'') ∧ c''.queued = [] := by
  obtain ⟨hq, hpq⟩ := List.append_eq_nil_iff.mp hqueued
  obtain ⟨n, hn⟩ := Nat.exists_eq_succ_of_ne_zero (Nat.ne_of_gt hslot)
  have hheap : c.priority_queue.getD [] = [] := List.map_eq_nil_iff.mp hpq
  rw [enqueue, hheap] at h
  by_cases hprio : config.pipeline_enable_prioritization = true
  · rw [if_pos hprio, Heapq.heappush_nil] at h
    obtain rfl := Except.ok.inj h
    let c' := c.withQueues c.request_queue (some [(-priority, now, r)])
    have hpop : popRequests c'.getAvailablePipelineSlots (c'.priority_queue.getD []) =
        .ok ([r], []) := by
      change popRequests c.getAvailablePipelineSlots [(-priority, now, r)] = _
      rw [hn, popRequests, Heapq.heappop_singleton]
      cases n <;> rfl
    refine ⟨c.withQueues c.request_queue (some []), ?_, by simp [withQueues, queued, hq]⟩
    change c'.takeRequests config = _
    rw [takeRequests, if_pos ⟨hprio, List.cons_ne_nil _ _⟩, hpop]
    rfl
  · rw [if_neg hprio] at h
    obtain rfl := Except.ok.inj h
    refine ⟨c.withQueues [] c.priority_queue, ?_, by simp [withQueues, queued, hheap]⟩
    rw [takeRequests, if_neg fun hboth => hprio hboth.1]
    change Except.ok ((c.request_queue ++ [r]).take c.getAvailablePipelineSlots,
      c.withQueues ((c.request_queue ++ [r]).drop c.getAvailablePipelineSlots) c.priority_queue) = _
    rw [hq, hn]
    simp

end AsyncPeerConnection

end Queues

section Messages

variable (env : Environment)

/-- What the pipeline of a connection consists of, but for the table of outstanding requests. -/
def AsyncPeerConnection.pipelinePart (c : AsyncPeerConnection) :
    Bool × List RequestInfo × Option (List QueueEntry) × Nat :=
  (c.writer, c.request_queue, c.priority_queue, c.max_pipeline_depth)

/-- The effect of a message on the table of outstanding requests: only a block has one. -/
def tableAfter (d : Dict RequestKey RequestInfo) : PeerMessage → Dict RequestKey RequestInfo
  | .PieceMessage piece_index begin block =>
    d.erase (piece_index.toNat, begin.toNat, block.length)
  | _ => d

theorem activate_pipeline (s : Session) :
    (Environment.activate s).connection.pipelinePart = s.connection.pipelinePart ∧
      (Environment.activate s).connection.outstanding_requests =
        s.connection.outstanding_requests := by
  rw [Environment.activate]
  split
  · exact ⟨rfl, rfl⟩
  · split <;> exact ⟨rfl, rfl⟩

theorem sendInterested_pipeline (s : Session) :
    (env.sendInterested s).connection.pipelinePart = s.connection.pipelinePart ∧
      (env.sendInterested s).connection.outstanding_requests =
        s.connection.outstanding_requests := by
  rw [Environment.sendInterested, Environment.sendMessage]
  by_cases hwriter : s.connection.writer = true
  · rw [if_pos hwriter]
    dsimp only
    split <;> exact ⟨rfl, rfl⟩
  · rw [if_neg hwriter]
    exact ⟨rfl, rfl⟩

theorem handleMessage_pipeline (s : Session) (m : PeerMessage) :
    (env.handleMessage s m).connection.pipelinePart = s.connection.pipelinePart ∧
      (env.handleMessage s m).connection.outstanding_requests =
        tableAfter s.connection.outstanding_requests m := by
  cases m with
  | HaveMessage piece_index =>
    change (env.handleHave s piece_index).connection.pipelinePart = _ ∧
      (env.handleHave s piece_index).connection.outstanding_requests = _
    rw [Environment.handleHave]
    dsimp only
    split
    · exact ⟨rfl, rfl⟩
    · split
      · rw [env.triggerSelection_connection, env.startDownload_connection]
        exact ⟨rfl, rfl⟩
      · rw [env.startDownload_connection]
        exact ⟨rfl, rfl⟩
  | PieceMessage piece_index begin block =>
    change (env.handlePiece s piece_index begin block).connection.pipelinePart = _ ∧
      (env.handlePiece s piece_index begin block).connection.outstanding_requests = _
    rw [Environment.handlePiece]
    split <;> exact ⟨rfl, rfl⟩
  | BitfieldMessage bitfield =>
    change (env.handleBitfield s bitfield).connection.pipelinePart = _ ∧
      (env.handleBitfield s bitfield).connection.outstanding_requests = _
    rw [Environment.handleBitfield]
    split
    · exact ⟨rfl, rfl⟩
    · rw [env.notifyBitfield_connection, env.startWithManager_connection]
      rw [(activate_pipeline _).1, (activate_pipeline _).2]
      split
      · exact ⟨rfl, rfl⟩
      · rw [(sendInterested_pipeline env _).1, (sendInterested_pipeline env _).2]
        exact ⟨rfl, rfl⟩
  | _ => exact ⟨rfl, rfl⟩

end Messages

namespace Link

/-- The table agrees with the record of the wire, and no request overran the limit. -/
structure Accounted (l : Link) : Prop where
  writer : l.session.connection.writer = true
  outstanding : ∀ key, l.session.connection.outstanding_requests.contains key = true ↔
    key ∈ pending l.wire
  depth : ∀ key n, .request key n ∈ l.wire → n < l.session.connection.max_pipeline_depth

/-- The links that agree in what `Accounted` speaks of. -/
theorem Accounted.congr {l l' : Link} (h : l.Accounted)
    (hwriter : l'.session.connection.writer = l.session.connection.writer)
    (htable : l'.session.connection.outstanding_requests =
      l.session.connection.outstanding_requests)
    (hdepth : l'.session.connection.max_pipeline_depth = l.session.connection.max_pipeline_depth)
    (hwire : l'.wire = l.wire) : l'.Accounted where
  writer := hwriter.trans h.writer
  outstanding := by
    rw [htable, hwire]
    exact h.outstanding
  depth := by
    rw [hwire, hdepth]
    exact h.depth

theorem Accounted.sent {l : Link} (h : l.Accounted) (r : RequestInfo)
    (hslot : l.session.connection.outstanding_requests.size <
      l.session.connection.max_pipeline_depth) : (l.sent r).Accounted where
  writer := h.writer
  outstanding key := by
    have hold := h.outstanding key
    change ((l.session.connection.outstanding_requests.set r.key r).contains key = true) ↔ _
    rw [Link.sent, pending_append_singleton, pendingStep, List.mem_cons, ← hold,
      Dict.contains, Dict.get?_set]
    split
    · next heq => simp [heq]
    · next hne => simp [hne, Dict.contains]
  depth key n hmem := by
    rcases List.mem_append.mp hmem with hmem | hmem
    · exact h.depth key n hmem
    · cases List.mem_singleton.mp hmem
      exact hslot

theorem Accounted.receive {l : Link} (h : l.Accounted) (env : Environment) (m : PeerMessage)
    (hchoke : m = .ChokeMessage → l.session.connection.outstanding_requests.size = 0) :
    (l.receive env m).Accounted := by
  obtain ⟨hpart, htable⟩ := handleMessage_pipeline env l.session m
  obtain ⟨hwriter, -, -, hdepth⟩ : _ ∧ _ ∧ _ ∧ _ := by
    simpa only [AsyncPeerConnection.pipelinePart, Prod.mk.injEq] using hpart
  refine ⟨hwriter.trans h.writer, fun key => ?_, fun key n hmem => ?_⟩
  · change ((env.handleMessage l.session m).connection.outstanding_requests.contains key = true) ↔ _
    rw [htable]
    have hold := h.outstanding key
    cases m with
    | ChokeMessage =>
      rw [Link.receive, occurrences, pending_append_singleton]
      have hempty : l.session.connection.outstanding_requests.entries = [] :=
        List.length_eq_zero_iff.mp (hchoke rfl)
      simp [tableAfter, pendingStep, Dict.contains, Dict.get?, hempty]
    | PieceMessage piece_index begin block =>
      rw [Link.receive, occurrences, pending_append_singleton, pendingStep, List.mem_filter,
        ← hold, tableAfter, Dict.contains, Dict.get?_erase]
      split
      · next heq => simp [heq]
      · next hne => simp [hne, Dict.contains]
    | _ => simpa [Link.receive, occurrences, tableAfter] using hold
  · change n < (env.handleMessage l.session m).connection.max_pipeline_depth
    rw [hdepth]
    rcases List.mem_append.mp hmem with hmem | hmem
    · exact h.depth key n hmem
    · cases m with
      | ChokeMessage | PieceMessage => simp [occurrences] at hmem
      | _ => exact absurd hmem List.not_mem_nil

/-- The loop over the coalesced requests skips those that are outstanding already; it sends the
first that is not, and the rest remains. -/
theorem sendRequests_cases {l : Link} {requests : List RequestInfo}
    (hwriter : l.session.connection.writer = true) (hfits : ∀ r ∈ requests, r.Fits) :
    (l.sendRequests requests = (l, .returned)) ∨
    ∃ r rest, l.sendRequests requests = (l.sent r, .sending rest) ∧ r ∈ requests ∧
      l.session.connection.outstanding_requests.contains r.key = false ∧
      rest ⊆ requests ∧ rest.length < requests.length := by
  induction requests with
  | nil => exact Or.inl rfl
  | cons r rest ih =>
    rw [sendRequests]
    split
    · next houtstanding =>
      rcases ih fun r' hr' => hfits r' (List.mem_cons_of_mem _ hr') with hnone |
        ⟨r', rest', hsend, hr', hnew, hsub, hlength⟩
      · exact Or.inl hnone
      · exact Or.inr ⟨r', rest', hsend, List.mem_cons_of_mem _ hr', hnew,
          fun x hx => List.mem_cons_of_mem _ (hsub hx), Nat.lt_succ_of_lt hlength⟩
    · next houtstanding =>
      obtain ⟨hpiece, hend⟩ := hfits r List.mem_cons_self
      rw [if_pos ⟨hwriter, hpiece, by omega, by omega⟩]
      exact Or.inr ⟨r, rest, rfl, List.mem_cons_self, Bool.eq_false_of_not_eq_true houtstanding,
        List.subset_cons_self r rest, Nat.lt_succ_self _⟩

/-- A second look only decides where the call waits next. -/
theorem checkAgain_spec (l : Link) (key : RequestKey) :
    (l.checkAgain key).1 = l ∧ (l.checkAgain key).2.unsent = [] ∧
      (l.checkAgain key).2 ≠ .raised := by
  rw [checkAgain]
  split <;> exact ⟨rfl, rfl, RequestTask.noConfusion⟩

/-- Up to its first wait a call changes neither the connection nor the record. -/
theorem requestPiece_spec (l : Link) (key : RequestKey) :
    (l.requestPiece key).1.session.connection = l.session.connection ∧
      (l.requestPiece key).1.wire = l.wire ∧ (l.requestPiece key).2.unsent = [] ∧
      (l.requestPiece key).2 ≠ .raised := by
  have hagain := l.checkAgain_spec key
  rw [requestPiece]
  split
  · exact ⟨rfl, rfl, rfl, RequestTask.noConfusion⟩
  split
  · exact ⟨by rw [hagain.1], by rw [hagain.1], hagain.2⟩
  split
  · exact ⟨rfl, rfl, rfl, RequestTask.noConfusion⟩
  · exact ⟨by rw [hagain.1], by rw [hagain.1], hagain.2⟩

end Link

namespace Pipeline

/-- Soundness, with what carries it: a writer, and blocks that fit a message. -/
structure Inv (p : Pipeline) : Prop where
  accounted : p.link.Accounted
  returns : .raised ∉ p.tasks
  prompt : p.connection.peer_choking = false →
    p.connection.outstanding_requests.size < p.connection.max_pipeline_depth → p.unsent = []
  fits : ∀ r ∈ p.unsent, r.Fits

theorem Inv.sound {p : Pipeline} (h : p.Inv) : p.Sound :=
  ⟨h.accounted.outstanding, h.accounted.depth, h.returns, h.prompt⟩

theorem inv_start (c : AsyncPeerConnection) : (start c).Inv where
  accounted := {
    writer := rfl
    outstanding := fun key => by
      change (Dict.empty.contains key = true) ↔ key ∈ []
      simp [Dict.contains]
    depth := fun key n hmem => absurd hmem List.not_mem_nil }
  returns := List.not_mem_nil
  prompt _ _ := rfl
  fits r hr := absurd hr List.not_mem_nil

variable {p : Pipeline}

theorem queued_subset_unsent : p.connection.queued ⊆ p.unsent :=
  List.subset_append_left _ _

/-- A step of one call: the invariant follows from what the step did to the connection and from
what the call is left with. -/
theorem Inv.of_task (h : p.Inv) {l : Link} {t : RequestTask} {tasks : List RequestTask}
    (htasks : ∀ t' ∈ tasks, t' ∈ p.tasks ∨ t' = t) (hacc : l.Accounted) (ht : t ≠ .raised)
    (hprompt : l.session.connection.peer_choking = false →
      l.session.connection.outstanding_requests.size < l.session.connection.max_pipeline_depth →
      p.unsent = [] ∧ l.session.connection.queued = [] ∧ t.unsent = [])
    (hqueued : ∀ r ∈ l.session.connection.queued, r.Fits) (hunsent : ∀ r ∈ t.unsent, r.Fits) :
    Inv ⟨l, tasks⟩ := by
  have hmem {r : RequestInfo} (hr : r ∈ unsent ⟨l, tasks⟩) :
      r ∈ l.session.connection.queued ∨ r ∈ t.unsent ∨ r ∈ p.unsent := by
    rcases List.mem_append.mp hr with hr | hr
    · exact Or.inl hr
    · obtain ⟨t', ht', hr⟩ := List.mem_flatMap.mp hr
      rcases htasks t' ht' with hold | rfl
      · exact Or.inr (Or.inr (List.mem_append_right _ (List.mem_flatMap.mpr ⟨t', hold, hr⟩)))
      · exact Or.inr (Or.inl hr)
  refine ⟨hacc, fun hraised => ?_, fun hchoking hslot => ?_, fun r hr => ?_⟩
  · rcases htasks _ hraised with hold | hnew
    · exact h.returns hold
    · exact ht hnew.symm
  · obtain ⟨hold, hqueue, htask⟩ := hprompt hchoking hslot
    rw [List.eq_nil_iff_forall_not_mem]
    intro r hr
    rcases hmem hr with hr | hr | hr
    · exact List.not_mem_nil (hqueue ▸ hr)
    · exact List.not_mem_nil (htask ▸ hr)
    · exact List.not_mem_nil (hold ▸ hr)
  · rcases hmem hr with hr | hr | hr
    · exact hqueued r hr
    · exact hunsent r hr
    · exact h.fits r hr

/-- A step of one call that leaves the pipeline part of the connection as it is. -/
theorem Inv.of_same (h : p.Inv) {l : Link} {t : RequestTask} {tasks : List RequestTask}
    (am_interested : Bool) (htasks : ∀ t' ∈ tasks, t' ∈ p.tasks ∨ t' = t) (ht : t ≠ .raised)
    (hunsent : t.unsent = [])
    (hl : l.session.connection = { p.connection with am_interested := am_interested })
    (hwire : l.wire = p.link.wire) : Inv ⟨l, tasks⟩ := by
  have hqueue : l.session.connection.queued = p.connection.queued := by rw [hl]; rfl
  refine h.of_task htasks (h.accounted.congr (by rw [hl]; rfl) (by rw [hl]; rfl) (by rw [hl]; rfl)
    hwire) ht (fun hchoking hslot => ?_) (fun r hr => ?_) (by simp [hunsent])
  · rw [hl] at hchoking hslot
    have hnone := h.prompt hchoking hslot
    exact ⟨hnone, hqueue.trans (List.append_eq_nil_iff.mp hnone).1, hunsent⟩
  · rw [hqueue] at hr
    exact h.fits r (queued_subset_unsent hr)

theorem Inv.request_piece (h : p.Inv) (env : Environment) (config : PipelineConfig)
    (key : RequestKey) : (p.step env config (.request_piece key)).Inv := by
  obtain ⟨hconnection, hwire, hunsent, ht⟩ := p.link.requestPiece_spec key
  refine h.of_same p.connection.am_interested (fun t' ht' => ?_) ht hunsent hconnection hwire
  rcases List.mem_append.mp ht' with hold | hnew
  · exact Or.inl hold
  · exact Or.inr (List.mem_singleton.mp hnew)

/-- The end of an interested message: a second look, and nothing is sent. -/
theorem Inv.resume_interested (h : p.Inv) (config : PipelineConfig) {n : Nat} {i : Resumption}
    {key : RequestKey} :
    Inv ⟨(p.link.resume config i (.interested key)).1,
      p.tasks.set n (p.link.resume config i (.interested key)).2⟩ := by
  have hagain (l : Link) := l.checkAgain_spec key
  rw [Link.resume]
  split
  · obtain ⟨hl, hunsent, ht⟩ := hagain p.link
    refine h.of_same p.connection.am_interested
      (fun t' => List.mem_or_eq_of_mem_set) ht hunsent (by rw [hl]; rfl) (by rw [hl])
  · obtain ⟨hl, hunsent, ht⟩ := hagain (p.link.setConnection
      { p.connection with am_interested := true })
    refine h.of_same true
      (fun t' => List.mem_or_eq_of_mem_set) ht hunsent ?_ ?_
    · exact congrArg (fun l : Link => l.session.connection) hl
    · exact (congrArg Link.wire hl).trans rfl

/-- The end of the sending of a request: the next one is sent, if there is one. -/
theorem Inv.resume_sending (h : p.Inv) (config : PipelineConfig) {n : Nat} {i : Resumption}
    {rest : List RequestInfo} (hget : p.tasks[n]? = some (.sending rest))
    (hraises : i.raises = false)
    (hslot : p.connection.outstanding_requests.size < p.connection.max_pipeline_depth ∨
      ∀ r ∈ rest, p.connection.outstanding_requests.contains r.key = true) :
    Inv ⟨(p.link.resume config i (.sending rest)).1,
      p.tasks.set n (p.link.resume config i (.sending rest)).2⟩ := by
  have hrest : rest ⊆ p.unsent := fun r hr => List.mem_append_right _
    (List.mem_flatMap.mpr ⟨_, List.mem_of_getElem? hget, hr⟩)
  rw [Link.resume, if_neg (by simp [hraises])]
  rcases Link.sendRequests_cases h.accounted.writer fun r hr => h.fits r (hrest hr) with
    hnone | ⟨r, rest', hsend, hr, hnew, hsub, -⟩
  · rw [hnone]
    exact h.of_same p.connection.am_interested
      (fun t' => List.mem_or_eq_of_mem_set) RequestTask.noConfusion rfl rfl rfl
  · rw [hsend]
    have hfree : p.connection.outstanding_requests.size < p.connection.max_pipeline_depth := by
      refine hslot.resolve_right fun hall => ?_
      exact absurd ((hall r hr).symm.trans hnew) (by decide)
    refine h.of_task (fun t' => List.mem_or_eq_of_mem_set) (h.accounted.sent r hfree)
      RequestTask.noConfusion (fun hchoking _ => ?_)
      (fun r' hr' => h.fits r' (queued_subset_unsent hr'))
      fun r' hr' => h.fits r' (hrest (hsub hr'))
    -- with a free slot nothing was unsent, but `r` was
    have hnone := h.prompt hchoking hfree
    exact absurd (hnone ▸ hrest hr) List.not_mem_nil

theorem Link.processRequestQueue_of_take {config : PipelineConfig} (l : Link)
    {requests : List RequestInfo} {c : AsyncPeerConnection}
    (h : l.session.connection.takeRequests config = .ok (requests, c)) :
    l.processRequestQueue config =
      (l.setConnection c).sendRequests (coalesceRequests config requests) := by
  rw [Link.processRequestQueue, h]

theorem Link.resume_of_enqueue {config : PipelineConfig} (l : Link) {i : Resumption}
    {key : RequestKey} {c : AsyncPeerConnection}
    (h : l.session.connection.enqueue config
      (if config.pipeline_enable_prioritization then i.priority else 0) i.now
      { piece_index := key.1, begin := key.2.1, length := key.2.2
        timestamp := i.timestamp } = .ok c) :
    l.resume config i (.priority key) = (l.setConnection c).processRequestQueue config := by
  rw [Link.resume, h]

/-- The priority of the piece is known: the request enters the queue, and what the slots allow
leaves it. -/
theorem Inv.resume_priority (h : p.Inv) (config : PipelineConfig) {n : Nat} {i : Resumption}
    {key : RequestKey} (hfits : key.1 < 2 ^ 32 ∧ key.2.1 + key.2.2 < 2 ^ 32)
    (hcomparable : config.pipeline_enable_prioritization = true → Heapq.Comparable QueueEntry.lt
      (p.connection.priority_queue.getD [] ++ [(-i.priority, i.now,
        { piece_index := key.1, begin := key.2.1, length := key.2.2
          timestamp := i.timestamp })])) :
    Inv ⟨(p.link.resume config i (.priority key)).1,
      p.tasks.set n (p.link.resume config i (.priority key)).2⟩ := by
  let r : RequestInfo := { piece_index := key.1, begin := key.2.1, length := key.2.2
                           timestamp := i.timestamp }
  have hr : r.Fits := hfits
  obtain ⟨q, pq, henqueue, hqueued, hqueue⟩ := @AsyncPeerConnection.enqueue_spec config p.connection
    (if config.pipeline_enable_prioritization then i.priority else 0) i.now r fun hprio => by
      rw [if_pos hprio]
      exact hcomparable hprio
  obtain ⟨requests, q', pq', htake, hlength, hmem, hleft⟩ :=
    AsyncPeerConnection.takeRequests_spec (c := p.connection.withQueues q pq) hqueue
  have hall : ∀ r' ∈ (p.connection.withQueues q pq).queued, r'.Fits := fun r' hr' => by
    rcases hqueued r' hr' with rfl | hr'
    · exact hr
    · exact h.fits r' (queued_subset_unsent hr')
  let l := p.link.setConnection (p.connection.withQueues q' pq')
  have hresume : p.link.resume config i (.priority key) =
      l.sendRequests (coalesceRequests config requests) := by
    rw [Link.resume_of_enqueue p.link henqueue,
      Link.processRequestQueue_of_take (p.link.setConnection (p.connection.withQueues q pq)) htake]
    rfl
  have hacc : l.Accounted := h.accounted.congr rfl rfl rfl rfl
  -- with a free slot the request is alone and taken at once
  have halone : p.connection.peer_choking = false →
      p.connection.outstanding_requests.size < p.connection.max_pipeline_depth →
      p.unsent = [] ∧ requests = [r] ∧ (p.connection.withQueues q' pq').queued = [] := by
    intro hchoking hslot
    have hnone := h.prompt hchoking hslot
    obtain ⟨c, htake', hc⟩ := AsyncPeerConnection.takeRequests_enqueue
      (List.append_eq_nil_iff.mp hnone).1 (Nat.sub_pos_of_lt hslot) henqueue
    cases htake.symm.trans htake'
    exact ⟨hnone, rfl, hc⟩
  have hleft' : ∀ r' ∈ l.session.connection.queued, r'.Fits := fun r' hr' =>
    hall r' (hleft r' hr')
  rw [hresume]
  have hcoalesced : ∀ r' ∈ coalesceRequests config requests, r'.Fits :=
    coalesceRequests_fits fun r' hr' => hall r' (hmem r' hr')
  rcases Link.sendRequests_cases hacc.writer hcoalesced with
    hnone | ⟨r', rest, hsend, hr', -, hsub, hshort⟩
  · rw [hnone]
    refine h.of_task (fun t' => List.mem_or_eq_of_mem_set) hacc RequestTask.noConfusion
      (fun hchoking hslot => ?_) hleft' (by simp [RequestTask.unsent])
    obtain ⟨hunsent, -, hqueue'⟩ := halone hchoking hslot
    exact ⟨hunsent, hqueue', rfl⟩
  · rw [hsend]
    have hfree : p.connection.outstanding_requests.size < p.connection.max_pipeline_depth := by
      by_contra hfull
      have hzero : requests = [] := by
        refine List.eq_nil_of_length_eq_zero (Nat.le_zero.mp (hlength.trans ?_))
        exact Nat.le_of_eq (Nat.sub_eq_zero_of_le (Nat.le_of_not_lt hfull))
      rw [hzero, coalesceRequests_nil] at hr'
      exact List.not_mem_nil hr'
    refine h.of_task (fun t' => List.mem_or_eq_of_mem_set) (hacc.sent r' hfree)
      RequestTask.noConfusion (fun hchoking _ => ?_) hleft'
      fun r'' hr'' => hcoalesced r'' (hsub hr'')
    obtain ⟨hunsent, hrequests, hqueue'⟩ := halone hchoking hfree
    refine ⟨hunsent, hqueue', ?_⟩
    rw [hrequests, coalesceRequests_singleton] at hshort
    exact List.length_eq_zero_iff.mp (Nat.lt_one_iff.mp hshort)

theorem Inv.receive (h : p.Inv) (env : Environment) (config : PipelineConfig) {m : PeerMessage}
    (hmeets : (PipelineEvent.receive m).Meets config p) :
    (p.step env config (.receive m)).Inv := by
  obtain ⟨hpart, htable⟩ := handleMessage_pipeline env p.link.session m
  obtain ⟨-, hrequest_queue, hpriority_queue, hdepth⟩ : _ ∧ _ ∧ _ ∧ _ := by
    simpa only [AsyncPeerConnection.pipelinePart, Prod.mk.injEq] using hpart
  have hunsent : (p.step env config (.receive m)).unsent = p.unsent := by
    change AsyncPeerConnection.queued (env.handleMessage p.link.session m).connection ++ _ = _
    rw [AsyncPeerConnection.queued, hrequest_queue, hpriority_queue]
    rfl
  refine ⟨h.accounted.receive env m ?_, h.returns, ?_, ?_⟩
  · rintro rfl
    exact hmeets
  · intro hchoking hslot
    rw [hunsent]
    change (env.handleMessage p.link.session m).connection.peer_choking = false at hchoking
    change (env.handleMessage p.link.session m).connection.outstanding_requests.size <
      (env.handleMessage p.link.session m).connection.max_pipeline_depth at hslot
    rw [htable, hdepth] at hslot
    rw [(env.handleMessage_cases p.link.session m).1] at hchoking
    cases m with
    | ChokeMessage => cases hchoking
    | UnchokeMessage => exact hmeets hslot
    | PieceMessage piece_index begin block => exact hmeets hchoking hslot
    | _ => exact h.prompt hchoking hslot
  · rw [hunsent]
    exact h.fits

theorem Inv.step (h : p.Inv) (env : Environment) (config : PipelineConfig) {e : PipelineEvent}
    (hmeets : e.Meets config p) : (p.step env config e).Inv := by
  cases e with
  | request_piece key => exact h.request_piece env config key
  | receive m => exact h.receive env config hmeets
  | resume n i =>
    rw [Pipeline.step]
    split
    · exact h
    · next t hget =>
      have hmeets := hmeets t hget
      cases t with
      | interested key => exact h.resume_interested config
      | priority key => exact h.resume_priority config ⟨hmeets.1, hmeets.2.1⟩ hmeets.2.2
      | sending rest => exact h.resume_sending config hget hmeets.1 hmeets.2
      | returned =>
        exact h.of_same p.connection.am_interested
          (fun t' => List.mem_or_eq_of_mem_set) RequestTask.noConfusion rfl rfl rfl
      | raised => exact absurd (List.mem_of_getElem? hget) h.returns

end Pipeline

end Peer

end Ccbt
