import Ccbt.Fifo.Bounded
import Ccbt.Python.Dict
import Ccbt.Python.Text

/-!
# The event bus of `utils/events.py`

Events are put in a bounded queue, out of which the tasks of `_process_events` take them one by one
and start the handlers. A task pauses only at the queue and while its handlers are at work; a
handler may return or raise, which is the same to the bus. All of it runs in one event loop.
-/

namespace Ccbt

open Python Transition Fifo

namespace Events

variable {δ η : Type}

/-- An event, by its type and what else it carries. -/
structure Event (δ : Type) where
  event_type : Str
  data : δ

structure EventBus (δ η : Type) where
  /-- A queue without a bound if it is not positive. -/
  max_queue_size : Int := 10000
  handlers : Dict Str (List η) := .empty
  event_queue : List (Event δ) := []
  replay_buffer : List (Event δ) := []
  max_replay_events : Nat := 1000
  running : Bool := false
  /-- The place of the task. -/
  _task : Option Nat := none
  events_processed : Nat := 0
  events_dropped : Nat := 0
  handlers_registered : Nat := 0
  queue_size : Nat := 0

namespace EventBus

variable (bus : EventBus δ η)

def handlersFor (event_type : Str) : List η := (bus.handlers.get? event_type).getD []

def registerHandler (event_type : Str) (handler : η) : EventBus δ η :=
  { bus with
    handlers := bus.handlers.set event_type (bus.handlersFor event_type ++ [handler])
    handlers_registered := bus.handlers_registered + 1 }

/-- `unregister_handler`; a handler that is not there is passed over. -/
def unregisterHandler [DecidableEq η] (event_type : Str) (handler : η) : EventBus δ η :=
  if bus.handlers.contains event_type then
    { bus with
      handlers := bus.handlers.set event_type ((bus.handlersFor event_type).erase handler) }
  else bus

theorem handlersFor_registerHandler (event_type other : Str) (handler : η) :
    (bus.registerHandler event_type handler).handlersFor other =
      if other = event_type then bus.handlersFor event_type ++ [handler]
      else bus.handlersFor other := by
  rw [registerHandler, handlersFor, Dict.get?_set]
  split <;> rfl

theorem handlersFor_unregisterHandler [DecidableEq η] (event_type other : Str) (handler : η) :
    (bus.unregisterHandler event_type handler).handlersFor other =
      if other = event_type then (bus.handlersFor event_type).erase handler
      else bus.handlersFor other := by
  rw [unregisterHandler]
  cases hknown : bus.handlers.contains event_type with
  | true =>
    rw [if_pos rfl, handlersFor, Dict.get?_set]
    split <;> rfl
  | false =>
    rw [if_neg Bool.false_ne_true]
    split
    · next heq =>
      have hnone : bus.handlers.get? event_type = none :=
        Option.isSome_eq_false_iff.mp hknown |> Option.isNone_iff_eq_none.mp
      rw [heq, handlersFor, hnone]
      rfl
    · rfl

def full : Bool := 0 < bus.max_queue_size ∧ bus.max_queue_size ≤ bus.event_queue.length

/-- The replay buffer with one more event. -/
def replayed (event : Event δ) : List (Event δ) :=
  let replay_buffer := bus.replay_buffer ++ [event]
  if bus.max_replay_events < replay_buffer.length then replay_buffer.tail else replay_buffer

/-- `emit`: nothing pauses between the look at the queue and `put`, which has room. -/
def emit (event : Event δ) : EventBus δ η :=
  if bus.full then
    { bus with replay_buffer := bus.replayed event, events_dropped := bus.events_dropped + 1 }
  else
    { bus with
      replay_buffer := bus.replayed event
      event_queue := bus.event_queue ++ [event]
      queue_size := bus.event_queue.length + 1 }

/-- The handlers that `_handle_event` starts, in their order. -/
def startedFor (can_handle : η → Event δ → Bool) (event : Event δ) : List η :=
  (bus.handlersFor event.event_type ++ bus.handlersFor ['*']).filter (can_handle · event)

def getReplayEvents (event_type : Option Str) (limit : Int) : List (Event δ) :=
  let events :=
    if 0 < limit then bus.replay_buffer.drop (bus.replay_buffer.length - limit.toNat)
    else bus.replay_buffer
  match event_type with
  | none | some [] => events
  | some event_type => events.filter fun e => e.event_type = event_type

end EventBus

/-- Where a task of `_process_events` goes on. -/
inductive Stage (δ η : Type)
  | looping
  /-- In `wait_for(self.event_queue.get(), timeout=1.0)`. -/
  | waiting
  /-- In `_handle_event`, as long as these handlers are at work. -/
  | handling (event : Event δ) (handlers : List η)
  | finished

/-- The task has an event in hand. -/
def Stage.busy : Stage δ η → Bool
  | .handling _ _ => true
  | _ => false

structure Task (δ η : Type) where
  stage : Stage δ η := .looping
  /-- `cancel` has been called. -/
  cancelled : Bool := false

/-- The bus with its tasks, and what has happened. -/
structure System (δ η : Type) where
  bus : EventBus δ η
  tasks : List (Task δ η) := []
  /-- The tasks that calls of `stop` wait for. -/
  stopping : List Nat := []
  emitted : List (Event δ) := []
  /-- What has been put in the queue and taken out of it. -/
  history : History (Event δ) := {}
  /-- The events that have been taken, each with the handlers started for it. -/
  started : List (Event δ × List η) := []
  /-- The events whose task was cancelled over them. -/
  cut : List (Event δ) := []

inductive Action (δ η : Type)
  | register_handler (event_type : Str) (handler : η)
  | unregister_handler (event_type : Str) (handler : η)
  | emit (event : Event δ)
  | start
  /-- A call of `stop` up to its pause. -/
  | stop
  /-- A call of `stop` goes on when the task it has cancelled is over. -/
  | stopped (task : Nat)
  /-- The task goes on to its next pause. -/
  | resume (task : Nat)
  /-- Nothing came for a second. -/
  | timeout (task : Nat)
  /-- A handler of the task's event returns or raises. -/
  | handled (task : Nat) (handler : η)

namespace System

variable (can_handle : η → Event δ → Bool) (s : System δ η)

/-- A bus with nothing in it. -/
def new (max_queue_size : Int) : System δ η where
  bus := { max_queue_size := max_queue_size }

def setStage (n : Nat) (stage : Stage δ η) : System δ η :=
  { s with tasks := s.tasks.modify n fun t => { t with stage := stage } }

def emit (event : Event δ) : System δ η :=
  { s with
    bus := s.bus.emit event
    emitted := s.emitted ++ [event]
    history := s.history.record s.bus.event_queue (.put [event])
      (.amount (if s.bus.full then 0 else 1)) }

/-- `while self.running` -/
def loop (n : Nat) : System δ η := s.setStage n (if s.bus.running then .waiting else .finished)

/-- The end of a round of `_process_events`. -/
def processed (n : Nat) : System δ η :=
  { s with bus := { s.bus with
      events_processed := s.bus.events_processed + 1
      queue_size := s.bus.event_queue.length } }.loop n

/-- An event comes out of the queue, and its handlers are started. Where there are none the round
is over at once. -/
def take (n : Nat) (event : Event δ) (rest : List (Event δ)) : System δ η :=
  let handlers := s.bus.startedFor can_handle event
  let s := { s with
    bus := { s.bus with event_queue := rest }
    history := s.history.record s.bus.event_queue (.get 1) (.items [event])
    started := s.started ++ [(event, handlers)] }
  if handlers.isEmpty then s.processed n else s.setStage n (.handling event handlers)

/-- `CancelledError` ends the task, with the event that it has in hand. -/
def cancel (n : Nat) : Stage δ η → System δ η
  | .handling event _ => { s with cut := s.cut ++ [event] }.setStage n .finished
  | _ => s.setStage n .finished

/-- A task goes on to its next pause. -/
def resume (n : Nat) : System δ η :=
  match s.tasks[n]? with
  | none => s
  | some t =>
    if t.cancelled then s.cancel n t.stage
    else
      match t.stage with
      | .looping => s.loop n
      | .waiting =>
        match s.bus.event_queue with
        | [] => s
        | event :: rest => s.take can_handle n event rest
      | .handling _ [] => s.processed n
      | .handling _ (_ :: _) => s
      | .finished => s

def timeout (n : Nat) : System δ η :=
  match s.tasks[n]? with
  | some ⟨.waiting, false⟩ => s.loop n
  | _ => s

def handled [DecidableEq η] (n : Nat) (handler : η) : System δ η :=
  match s.tasks[n]? with
  | some ⟨.handling event handlers, _⟩ => s.setStage n (.handling event (handlers.erase handler))
  | _ => s

def startBus : System δ η :=
  if s.bus.running then s
  else
    { s with
      bus := { s.bus with running := true, _task := some s.tasks.length }
      tasks := s.tasks ++ [{}] }

/-- `stop` up to the pause in which the cancelled task ends. -/
def stop : System δ η :=
  if s.bus.running then
    let s := { s with bus := { s.bus with running := false } }
    match s.bus._task with
    | none => s
    | some n =>
      { s with
        tasks := s.tasks.modify n fun t => { t with cancelled := true }
        stopping := s.stopping ++ [n] }
  else s

/-- The end of `stop`, which forgets the task of the bus whichever it is by now. -/
def stopped (n : Nat) : System δ η :=
  match s.tasks[n]? with
  | some ⟨.finished, _⟩ =>
    if n ∈ s.stopping then
      { s with bus := { s.bus with _task := none }, stopping := s.stopping.erase n }
    else s
  | _ => s

def step [DecidableEq η] (can_handle : η → Event δ → Bool) (s : System δ η) :
    Action δ η → System δ η
  | .register_handler event_type handler =>
    { s with bus := s.bus.registerHandler event_type handler }
  | .unregister_handler event_type handler =>
    { s with bus := s.bus.unregisterHandler event_type handler }
  | .emit event => s.emit event
  | .start => s.startBus
  | .stop => s.stop
  | .stopped n => s.stopped n
  | .resume n => s.resume can_handle n
  | .timeout n => s.timeout n
  | .handled n handler => s.handled n handler

section Counting

variable {s : System δ η} {n : Nat} {t : Task δ η}

/-- The events that tasks have in hand. -/
def inHand (s : System δ η) : Nat := s.tasks.countP fun t => t.stage.busy

theorem inHand_setStage (ht : s.tasks[n]? = some t) (stage : Stage δ η) :
    (s.setStage n stage).inHand + t.stage.busy.toNat = s.inHand + stage.busy.toNat := by
  obtain ⟨hlt, rfl⟩ := List.getElem?_eq_some_iff.mp ht
  have hle := List.boole_getElem_le_countP (p := fun t : Task δ η => t.stage.busy) hlt
  rw [inHand, inHand, setStage, List.modify_eq_set_getElem?, List.getElem?_eq_getElem hlt]
  show (s.tasks.set n { s.tasks[n] with stage := stage }).countP _ + _ = _
  rw [List.countP_set hlt]
  simp only [Bool.toNat, cond_eq_ite]
  omega

end Counting

/-- What the queue and the logs say of each other. -/
structure Kept (s : System δ η) : Prop where
  /-- Nothing is lost on the way through the queue, and the order stays. -/
  fifo : s.history.Accounts s.bus.event_queue
  room : 0 < s.bus.max_queue_size → s.bus.event_queue.length ≤ s.bus.max_queue_size
  started : s.started.map Prod.fst = s.history.taken
  accepted : s.history.accepted.Sublist s.emitted
  dropped : s.emitted.length = s.history.accepted.length + s.bus.events_dropped
  /-- The last events can be replayed, those that were dropped as well. -/
  replay : s.bus.replay_buffer =
    s.emitted.drop (s.emitted.length - s.bus.max_replay_events)

/-- What is kept, and every event that was taken is in hand, done with or cut off. -/
structure Sound (s : System δ η) : Prop extends Kept s where
  counted : s.started.length = s.bus.events_processed + s.inHand + s.cut.length

section Steps

variable {can_handle : η → Event δ → Bool} {s s' : System δ η} {n : Nat}

/-- The tasks do not matter to the logs. -/
def logs (s : System δ η) := (s.history, s.bus.event_queue, s.bus.max_queue_size, s.started,
  s.emitted, s.bus.events_dropped, s.bus.replay_buffer, s.bus.max_replay_events)

theorem Kept.of_logs (h : Kept s) (hlogs : s'.logs = s.logs) : Kept s' := by
  simp only [logs, Prod.mk.injEq] at hlogs
  obtain ⟨h1, h2, h3, h4, h5, h6, h7, h8⟩ := hlogs
  obtain ⟨hfifo, hroom, hstarted, haccepted, hdropped, hreplay⟩ := h
  constructor
  · rwa [h1, h2]
  · rwa [h2, h3]
  · rwa [h1, h4]
  · rwa [h1, h5]
  · rwa [h1, h5, h6]
  · rwa [h5, h7, h8]

/-- A list keeps its last items when one comes in and the first goes out as soon as there are too
many. -/
theorem drop_append_last {α : Type} (l : List α) (a : α) (k : Nat) :
    (if k < (l.drop (l.length - k) ++ [a]).length then (l.drop (l.length - k) ++ [a]).tail
      else l.drop (l.length - k) ++ [a]) = (l ++ [a]).drop ((l ++ [a]).length - k) := by
  rw [← List.drop_append_of_le_length (Nat.sub_le _ _), ← List.drop_one, List.drop_drop]
  simp only [List.length_drop, List.length_append, List.length_singleton]
  split
  · congr 1
    omega
  · congr 1
    omega

/-- The queue of the bus serves one more event if it is not full. -/
theorem serve_emit (event : Event δ) :
    serve (s.bus.event_queue.length + if s.bus.full then 0 else 1) s.bus.event_queue
        (.put [event]) =
      ((s.bus.emit event).event_queue, .amount (if s.bus.full then 0 else 1)) := by
  rw [EventBus.emit]
  cases s.bus.full <;> simp [serve]

theorem kept_emit (h : Kept s) (event : Event δ) : Kept (s.emit event) := by
  have hfifo := h.fifo.serve (s.bus.event_queue.length + if s.bus.full then 0 else 1) (.put [event])
  rw [serve_emit] at hfifo
  have hreplay := drop_append_last s.emitted event s.bus.max_replay_events
  rw [← h.replay] at hreplay
  have hfull : s.bus.full = decide (0 < s.bus.max_queue_size ∧
      s.bus.max_queue_size ≤ s.bus.event_queue.length) := rfl
  have hdropped := h.dropped
  cases hcase : s.bus.full with
  | true =>
    rw [hcase] at hfifo
    constructor
    · simpa only [emit, EventBus.emit, hcase] using hfifo
    · simpa only [emit, EventBus.emit, hcase, if_true] using h.room
    · exact h.started
    · simpa [emit, hcase, History.record] using
        h.accepted.trans (List.sublist_append_left s.emitted [event])
    · simp only [emit, EventBus.emit, hcase, if_true, History.record, List.take_zero,
        List.append_nil, List.length_append, List.length_singleton]
      omega
    · simpa only [emit, EventBus.emit, EventBus.replayed, hcase, if_true] using hreplay
  | false =>
    rw [hcase] at hfifo hfull
    have hspace := of_decide_eq_false hfull.symm
    constructor
    · simpa only [emit, EventBus.emit, hcase] using hfifo
    · simp only [emit, EventBus.emit, hcase, Bool.false_eq_true, if_false, List.length_append,
        List.length_singleton]
      omega
    · exact h.started
    · simpa [emit, hcase, History.record] using h.accepted
    · simp only [emit, EventBus.emit, hcase, Bool.false_eq_true, if_false, History.record,
        List.take_succ_cons, List.take_zero, List.length_append, List.length_singleton]
      omega
    · simpa only [emit, EventBus.emit, EventBus.replayed, hcase, Bool.false_eq_true, if_false]
        using hreplay

/-- An event has been taken out of the queue. -/
theorem kept_take (h : Kept s) {event : Event δ} {rest : List (Event δ)}
    (hqueue : s.bus.event_queue = event :: rest) (handlers : List η) : Kept { s with
      bus := { s.bus with event_queue := rest }
      history := s.history.record s.bus.event_queue (.get 1) (.items [event])
      started := s.started ++ [(event, handlers)] } := by
  have hfifo := h.fifo.serve 0 (.get 1)
  have hroom := h.room
  rw [hqueue] at hfifo hroom
  constructor
  · rw [hqueue]
    exact hfifo
  · intro hbound
    have hlength := hroom hbound
    rw [List.length_cons] at hlength
    show (rest.length : Int) ≤ s.bus.max_queue_size
    omega
  · show (s.started ++ [(event, handlers)]).map Prod.fst = s.history.taken ++ [event]
    rw [List.map_append, h.started]
    rfl
  · exact h.accepted
  · exact h.dropped
  · exact h.replay

section Rounds

variable {t : Task δ η}

theorem sound_setStage (h : Sound s) (ht : s.tasks[n]? = some t) {stage : Stage δ η}
    (hbusy : stage.busy = t.stage.busy) : Sound (s.setStage n stage) where
  toKept := h.toKept.of_logs rfl
  counted := by
    have hcount := inHand_setStage ht stage
    have hcounted := h.counted
    rw [hbusy] at hcount
    show s.started.length = s.bus.events_processed + (s.setStage n stage).inHand + s.cut.length
    omega

/-- The loop puts no event in the hand of its task. -/
theorem busy_loop (running : Bool) :
    (if running then Stage.waiting else Stage.finished : Stage δ η).busy = false := by
  cases running <;> rfl

theorem sound_loop (h : Sound s) (ht : s.tasks[n]? = some t) (hfree : t.stage.busy = false) :
    Sound (s.loop n) :=
  sound_setStage h ht ((busy_loop _).trans hfree.symm)

/-- A round ends: its event is done with, whether its task had it in hand or had nothing to do. -/
theorem sound_processed (h : Kept s) (ht : s.tasks[n]? = some t)
    (hcounted : s.started.length + t.stage.busy.toNat =
      s.bus.events_processed + s.inHand + s.cut.length + 1) : Sound (s.processed n) where
  toKept := h.of_logs rfl
  counted := by
    have hcount := inHand_setStage (s := { s with bus := { s.bus with
      events_processed := s.bus.events_processed + 1
      queue_size := s.bus.event_queue.length } }) ht
      (if s.bus.running then .waiting else .finished)
    rw [busy_loop] at hcount
    change (s.processed n).inHand + t.stage.busy.toNat = s.inHand + 0 at hcount
    show s.started.length =
      s.bus.events_processed + 1 + (s.processed n).inHand + s.cut.length
    omega

theorem sound_cancel (h : Sound s) (ht : s.tasks[n]? = some t) : Sound (s.cancel n t.stage) := by
  cases hstage : t.stage with
  | handling event handlers =>
    refine ⟨h.toKept.of_logs rfl, ?_⟩
    have hcount := inHand_setStage (s := { s with cut := s.cut ++ [event] }) ht .finished
    have hcounted := h.counted
    rw [hstage] at hcount
    change (s.cancel n (.handling event handlers)).inHand + 1 = s.inHand + 0 at hcount
    show s.started.length = s.bus.events_processed +
      (s.cancel n (.handling event handlers)).inHand + (s.cut ++ [event]).length
    rw [List.length_append, List.length_singleton]
    omega
  | looping | waiting | finished =>
    exact sound_setStage h ht (congrArg Stage.busy hstage).symm

theorem sound_take (h : Sound s) (ht : s.tasks[n]? = some t) (hwaiting : t.stage = .waiting)
    {event : Event δ} {rest : List (Event δ)} (hqueue : s.bus.event_queue = event :: rest) :
    Sound (s.take can_handle n event rest) := by
  have hkept := kept_take h.toKept hqueue (s.bus.startedFor can_handle event)
  have hcounted := h.counted
  rw [take]
  dsimp only
  split
  · refine sound_processed hkept ht ?_
    rw [hwaiting]
    show (s.started ++ [_]).length + 0 = s.bus.events_processed + s.inHand + s.cut.length + 1
    rw [List.length_append, List.length_singleton, hcounted]
  · refine ⟨hkept.of_logs rfl, ?_⟩
    have hcount := inHand_setStage ht (.handling event (s.bus.startedFor can_handle event))
    rw [hwaiting] at hcount
    change (s.setStage n _).inHand + 0 = s.inHand + 1 at hcount
    show (s.started ++ [_]).length = s.bus.events_processed + (s.setStage n _).inHand + s.cut.length
    rw [List.length_append, List.length_singleton, hcounted]
    omega

theorem sound_resume (h : Sound s) (n : Nat) : Sound (s.resume can_handle n) := by
  rw [resume]
  cases ht : s.tasks[n]? with
  | none => exact h
  | some t =>
    dsimp only
    split
    · exact sound_cancel h ht
    · split
      · next hstage => exact sound_loop h ht (by rw [hstage]; rfl)
      · next hstage =>
        split
        · exact h
        · next hqueue => exact sound_take h ht hstage hqueue
      · next hstage =>
        refine sound_processed h.toKept ht ?_
        rw [hstage, h.counted]
        rfl
      · exact h
      · exact h

end Rounds

/-- Whether a task is cancelled does not matter to what it has in hand. -/
theorem inHand_cancelled (tasks : List (Task δ η)) (n : Nat) :
    (tasks.modify n fun t => { t with cancelled := true }).countP (fun t => t.stage.busy) =
      tasks.countP fun t => t.stage.busy := by
  induction tasks generalizing n with
  | nil => rw [List.modify_nil]
  | cons t tasks ih =>
    cases n with
    | zero => rfl
    | succ n => rw [List.modify_succ_cons, List.countP_cons, List.countP_cons, ih]

theorem sound_step [DecidableEq η] (h : Sound s) (a : Action δ η) :
    Sound (s.step can_handle a) := by
  cases a with
  | register_handler event_type handler => exact ⟨h.toKept.of_logs rfl, h.counted⟩
  | unregister_handler event_type handler =>
    rw [step, EventBus.unregisterHandler]
    split
    · exact ⟨h.toKept.of_logs rfl, h.counted⟩
    · exact h
  | emit event =>
    refine ⟨kept_emit h.toKept event, ?_⟩
    show s.started.length = (s.bus.emit event).events_processed + s.inHand + s.cut.length
    rw [EventBus.emit]
    split <;> exact h.counted
  | start =>
    rw [step, startBus]
    split
    · exact h
    · refine ⟨h.toKept.of_logs rfl, h.counted.trans ?_⟩
      show _ = s.bus.events_processed + (s.tasks ++ [({} : Task δ η)]).countP _ + s.cut.length
      rw [List.countP_append]
      rfl
  | stop =>
    rw [step, stop]
    split
    · dsimp only
      split
      · exact ⟨h.toKept.of_logs rfl, h.counted⟩
      · refine ⟨h.toKept.of_logs rfl, h.counted.trans ?_⟩
        rw [inHand, inHand, inHand_cancelled]
    · exact h
  | stopped n =>
    rw [step, stopped]
    split
    · split
      · exact ⟨h.toKept.of_logs rfl, h.counted⟩
      · exact h
    · exact h
  | resume n => exact sound_resume h n
  | timeout n =>
    rw [step, timeout]
    split
    · next ht => exact sound_loop h ht rfl
    · exact h
  | handled n handler =>
    rw [step, handled]
    split
    · next ht => exact sound_setStage h ht rfl
    · exact h

end Steps

section Deliveries

variable {can_handle : η → Event δ → Bool} {s : System δ η} {n : Nat} {event_type : Str}
  {handler : η}

/-- What tasks do changes neither the handlers nor the log of the handlers started, unless an event
is taken. -/
theorem started_resume (n : Nat) : (s.resume can_handle n).bus.handlers = s.bus.handlers ∧
    ((s.resume can_handle n).started = s.started ∨ ∃ event,
      (s.resume can_handle n).started =
        s.started ++ [(event, s.bus.startedFor can_handle event)]) := by
  rw [resume]
  cases s.tasks[n]? with
  | none => exact ⟨rfl, .inl rfl⟩
  | some t =>
    dsimp only
    split
    · cases t.stage <;> exact ⟨rfl, .inl rfl⟩
    · split
      · exact ⟨rfl, .inl rfl⟩
      · split
        · exact ⟨rfl, .inl rfl⟩
        · next event rest _ =>
          rw [take]
          dsimp only
          split <;> exact ⟨rfl, .inr ⟨event, rfl⟩⟩
      all_goals exact ⟨rfl, .inl rfl⟩

/-- The handler is among those that were started for the event, if the event concerns it. -/
def Reaches (can_handle : η → Event δ → Bool) (event_type : Str) (handler : η)
    (start : Event δ × List η) : Prop :=
  (event_type = start.1.event_type ∨ event_type = ['*']) → can_handle handler start.1 = true →
    handler ∈ start.2

theorem reaches_startedFor (hreg : handler ∈ s.bus.handlersFor event_type) (event : Event δ) :
    Reaches can_handle event_type handler (event, s.bus.startedFor can_handle event) := by
  intro htype hcan
  refine List.mem_filter.mpr ⟨List.mem_append.mpr ?_, hcan⟩
  rcases htype with rfl | rfl
  · exact .inl hreg
  · exact .inr hreg

variable [DecidableEq η]

/-- What the deliveries depend on. -/
def deliveries (s : System δ η) := (s.bus.handlers, s.started)

/-- Only registrations and tasks that go on matter to the deliveries. -/
theorem deliveries_step (a : Action δ η) :
    (s.step can_handle a).deliveries = s.deliveries ∨ (∃ n, a = .resume n) ∨
      (∃ other handler', a = .register_handler other handler') ∨
      ∃ other handler', a = .unregister_handler other handler' := by
  cases a with
  | resume n => exact .inr (.inl ⟨n, rfl⟩)
  | register_handler other handler' => exact .inr (.inr (.inl ⟨other, handler', rfl⟩))
  | unregister_handler other handler' => exact .inr (.inr (.inr ⟨other, handler', rfl⟩))
  | emit event =>
    left
    show ((s.bus.emit event).handlers, s.started) = _
    rw [EventBus.emit]
    split <;> rfl
  | start =>
    rw [step, startBus]
    split <;> exact .inl rfl
  | stop =>
    rw [step, stop]
    split
    · dsimp only
      split <;> exact .inl rfl
    · exact .inl rfl
  | stopped n =>
    rw [step, stopped]
    split
    · split <;> exact .inl rfl
    · exact .inl rfl
  | timeout n =>
    rw [step, timeout]
    split <;> exact .inl rfl
  | handled n handler =>
    rw [step, handled]
    split <;> exact .inl rfl

/-- The events for which handlers are started in a step. -/
theorem started_step (a : Action δ η) : (s.step can_handle a).started = s.started ∨ ∃ event,
    (s.step can_handle a).started = s.started ++ [(event, s.bus.startedFor can_handle event)] := by
  obtain hsame | ⟨n, rfl⟩ | ⟨other, handler', rfl⟩ | ⟨other, handler', rfl⟩ :=
    (deliveries_step a : (s.step can_handle a).deliveries = s.deliveries ∨ _)
  · exact .inl (congrArg Prod.snd hsame)
  · exact (started_resume n).2
  · exact .inl rfl
  · exact .inl rfl

/-- A handler stays registered until it is unregistered. -/
theorem registered_step (hreg : handler ∈ s.bus.handlersFor event_type) {a : Action δ η}
    (ha : a ≠ .unregister_handler event_type handler) :
    handler ∈ (s.step can_handle a).bus.handlersFor event_type := by
  have hsame {s' : System δ η} (hhandlers : s'.bus.handlers = s.bus.handlers) :
      handler ∈ s'.bus.handlersFor event_type := by
    rwa [EventBus.handlersFor, hhandlers]
  obtain hstep | ⟨n, rfl⟩ | ⟨other, handler', rfl⟩ | ⟨other, handler', rfl⟩ :=
    (deliveries_step a : (s.step can_handle a).deliveries = s.deliveries ∨ _)
  · exact hsame (congrArg Prod.fst hstep)
  · exact hsame (started_resume n).1
  · show handler ∈ (s.bus.registerHandler other handler').handlersFor event_type
    rw [EventBus.handlersFor_registerHandler]
    split
    · next heq => exact List.mem_append_left _ (heq ▸ hreg)
    · exact hreg
  · show handler ∈ (s.bus.unregisterHandler other handler').handlersFor event_type
    rw [EventBus.handlersFor_unregisterHandler]
    split
    · next heq =>
      subst heq
      have hne : handler ≠ handler' := fun heq => ha (heq ▸ rfl)
      exact (List.mem_erase_of_ne hne).mpr hreg
    · exact hreg

/-- All events that are taken while a handler is registered reach it. -/
theorem reaches_run (hreg : handler ∈ s.bus.handlersFor event_type) {actions : List (Action δ η)}
    (hkept : ∀ a ∈ actions, a ≠ .unregister_handler event_type handler) :
    ∃ later, (run (step can_handle) s actions).started = s.started ++ later ∧
      ∀ start ∈ later, Reaches can_handle event_type handler start := by
  induction actions generalizing s with
  | nil => exact ⟨[], (List.append_nil _).symm, by simp⟩
  | cons a actions ih =>
    obtain ⟨hfirst, hrest⟩ := List.forall_mem_cons.mp hkept
    obtain ⟨later, hlater, hall⟩ := ih (registered_step hreg hfirst) hrest
    rw [run_cons, hlater]
    obtain hsame | ⟨event, hnew⟩ := (started_step a : (s.step can_handle a).started = s.started ∨ _)
    · exact ⟨later, by rw [hsame], hall⟩
    · refine ⟨(event, s.bus.startedFor can_handle event) :: later, ?_, ?_⟩
      · rw [hnew, List.append_assoc]
        rfl
      · exact List.forall_mem_cons.mpr ⟨reaches_startedFor hreg event, hall⟩

end Deliveries

section Runs

variable {can_handle : η → Event δ → Bool} {s : System δ η} {n : Nat}

/-- No task has been cancelled, and no event was cut off. -/
structure Undisturbed (s : System δ η) : Prop where
  cut : s.cut = []
  tasks : ∀ t ∈ s.tasks, t.cancelled = false

theorem Undisturbed.setStage (h : Undisturbed s) (n : Nat) (stage : Stage δ η) :
    Undisturbed (s.setStage n stage) where
  cut := h.cut
  tasks t ht := by
    obtain ⟨k, hk⟩ := List.mem_iff_getElem?.mp ht
    rw [System.setStage, List.getElem?_modify] at hk
    obtain ⟨u, hu, rfl⟩ := Option.map_eq_some_iff.mp hk
    have hold := h.tasks u (List.mem_of_getElem? hu)
    split <;> exact hold

theorem Undisturbed.processed (h : Undisturbed s) (n : Nat) : Undisturbed (s.processed n) := by
  rw [System.processed, loop]
  apply Undisturbed.setStage
  exact ⟨h.cut, h.tasks⟩

theorem Undisturbed.resume (h : Undisturbed s) (n : Nat) :
    Undisturbed (s.resume can_handle n) := by
  rw [System.resume]
  cases ht : s.tasks[n]? with
  | none => exact h
  | some t =>
    have hlive := h.tasks t (List.mem_of_getElem? ht)
    dsimp only
    rw [hlive, if_neg Bool.false_ne_true]
    split
    · exact h.setStage _ _
    · split
      · exact h
      · rw [take]
        dsimp only
        split
        · apply Undisturbed.processed
          exact ⟨h.cut, h.tasks⟩
        · apply Undisturbed.setStage
          exact ⟨h.cut, h.tasks⟩
    · exact h.processed n
    · exact h
    · exact h

theorem sound_new (max_queue_size : Int) : Sound (new max_queue_size : System δ η) where
  fifo := rfl
  room h := h.le
  started := rfl
  accepted := .slnil
  dropped := rfl
  replay := List.drop_nil.symm
  counted := rfl

/-- What can be replayed are the last events of all that were emitted. -/
theorem Kept.getReplayEvents (h : Kept s) {limit : Int} (hlimit : 0 < limit) :
    s.bus.getReplayEvents none limit =
      s.emitted.drop (s.emitted.length - min limit.toNat s.bus.max_replay_events) := by
  rw [EventBus.getReplayEvents, if_pos hlimit, h.replay]
  rw [List.drop_drop, List.length_drop]
  congr 1
  omega

variable [DecidableEq η]

theorem Undisturbed.step (h : Undisturbed s) {a : Action δ η} (ha : a ≠ .stop) :
    Undisturbed (s.step can_handle a) := by
  cases a with
  | register_handler | unregister_handler | emit => exact ⟨h.cut, h.tasks⟩
  | start =>
    rw [System.step, startBus]
    split
    · exact h
    · refine ⟨h.cut, fun t ht => ?_⟩
      rcases List.mem_append.mp ht with ht | ht
      · exact h.tasks t ht
      · rw [List.mem_singleton.mp ht]
  | stop => exact absurd rfl ha
  | stopped n =>
    rw [System.step, stopped]
    split
    · split
      · exact ⟨h.cut, h.tasks⟩
      · exact h
    · exact h
  | resume n => exact h.resume n
  | timeout n =>
    rw [System.step, timeout]
    split
    · exact h.setStage _ _
    · exact h
  | handled n handler =>
    rw [System.step, handled]
    split
    · exact h.setStage _ _
    · exact h

variable (can_handle) in
/-- In every run the events go through the queue in their order and none is lost but by a full queue
or a call of `stop`; and every event that is taken while a handler is registered for it reaches the
handler. -/
theorem bus_delivers (max_queue_size : Int) (before after : List (Action δ η)) (event_type : Str)
    (handler : η) (hkept : ∀ a ∈ after, a ≠ .unregister_handler event_type handler) :
    let s := run (step can_handle) (new max_queue_size)
      (before ++ [.register_handler event_type handler])
    let s' := run (step can_handle) s after
    Sound s' ∧ ((∀ a ∈ before ++ after, a ≠ .stop) → s'.cut = []) ∧
      (∀ limit > 0, s'.bus.getReplayEvents none limit =
        s'.emitted.drop (s'.emitted.length - min limit.toNat s'.bus.max_replay_events)) ∧
      ∃ later, s'.started = s.started ++ later ∧
        ∀ start ∈ later, Reaches can_handle event_type handler start := by
  intro s s'
  have hsound (s : System δ η) (a : Action δ η) (hs : Sound s) : Sound (s.step can_handle a) :=
    sound_step hs a
  have hend : Sound s' := run_of_invariant hsound (run_of_invariant hsound (sound_new _) _) _
  refine ⟨hend, fun hquiet => ?_, fun limit hlimit => hend.getReplayEvents hlimit, ?_⟩
  · have hnew : Undisturbed (new max_queue_size : System δ η) := ⟨rfl, by simp [new]⟩
    have hcalm (s : System δ η) (a : Action δ η) (hs : Undisturbed s) (ha : a ≠ .stop) :
        Undisturbed (s.step can_handle a) := hs.step ha
    obtain ⟨hbefore, hafter⟩ := List.forall_mem_append.mp hquiet
    have hmiddle : Undisturbed s := by
      refine (always_of_stepsMeet hcalm hnew (stepsMeet_event.mpr ?_)).last
      exact List.forall_mem_append.mpr ⟨hbefore, by simp⟩
    exact (always_of_stepsMeet hcalm hmiddle (stepsMeet_event.mpr hafter)).last.cut
  · refine reaches_run ?_ hkept
    show handler ∈ (run (step can_handle) (new max_queue_size)
      (before ++ [.register_handler event_type handler])).bus.handlersFor event_type
    rw [run_append, run_cons, run_nil]
    show handler ∈ (EventBus.registerHandler _ event_type handler).handlersFor event_type
    rw [EventBus.handlersFor_registerHandler, if_pos rfl]
    exact List.mem_append_right _ (List.mem_singleton_self handler)

end Runs

/-- The type of the event in the run below. -/
def ping : Str := "ping".toList

/-- One event comes in, and its handler returns. -/
def pinged : List (Action Unit Nat) :=
  [.start, .emit ⟨ping, ()⟩, .resume 0, .resume 0, .handled 0 7, .resume 0]

theorem bus_delivers_ping :
    let s' := run (step fun _ _ => true) (new 10000) ([.register_handler ping 7] ++ pinged)
    Sound s' ∧ s'.cut = [] ∧ s'.started.map Prod.snd = [[7]] ∧ s'.bus.events_processed = 1 := by
  have hends := bus_delivers (fun _ _ => true) 10000 [] pinged ping 7 (by simp [pinged])
  exact ⟨hends.1, hends.2.1 (by simp [pinged]), rfl, rfl⟩

end System

end Events

end Ccbt
