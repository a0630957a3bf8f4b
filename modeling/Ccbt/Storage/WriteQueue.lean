import Ccbt.Python.Dict
import Ccbt.Python.Heapq
import Ccbt.Storage.BatchedWrites
import Ccbt.Transition.Run
import Mathlib.Data.Rat.Defs

/-!
# The write queue

The way of a write request through `DiskIOManager` of `ccbt/storage/disk_io.py`: from the queue to
the requests of its file, from there to a batch that the executor writes, and what `stop` does with
all of them. Everything between two awaits is one event. What a batch makes of its file is told by
`flushFileWrites`; here it is only noted which requests a call of `_write_combined_sync` has
written.
-/

namespace Ccbt.Storage

open Python

/-- A time, in seconds. -/
abbrev Time := Rat

/-- A write request in the queue, with the number of its future, by which it is known. -/
structure QueuedWrite (Path : Type) extends WriteRequest where
  file_path : Path
  future : Nat
  timestamp : Time
  priority : Int := 0

/-- `WriteRequest.__lt__`; the number stands for the identity. -/
def QueuedWrite.lt {Path : Type} (req other : QueuedWrite Path) : Bool :=
  if req.priority ≠ other.priority then req.priority > other.priority
  else if req.timestamp ≠ other.timestamp then req.timestamp < other.timestamp
  else req.future < other.future

inductive WriteError
  /-- `DiskIOError("Disk I/O write queue is full")`. -/
  | queue_full
  | CancelledError
  deriving DecidableEq, Repr

inductive FutureState
  | pending
  | result
  | exception (e : WriteError)
  deriving DecidableEq, Repr

inductive StorageType
  | hdd
  | ssd
  | nvme
  deriving DecidableEq

structure QueueConfig where
  write_queue_priority : Bool := true
  queue_size : Nat := 200
  write_batch_kib : Nat := 64
  write_buffer_kib : Nat := 1024
  write_batch_timeout_adaptive : Bool := true
  write_batch_timeout_ms : Rat := 5
  storage_type : StorageType := .hdd

def QueueConfig.getAdaptiveTimeout (config : QueueConfig) : Time :=
  if config.write_batch_timeout_adaptive then
    match config.storage_type with
    | .nvme => 1 / 10000
    | .ssd => 5 / 1000
    | .hdd => 50 / 1000
  else config.write_batch_timeout_ms / 1000

/-- Where the task of `_write_batcher` stands. -/
inductive Batcher (Path : Type)
  /-- In `_get_write_request`. -/
  | waiting
  /-- The executor writes the batch; in `_flush_stale_writes`, with the files left to flush. -/
  | flushing (file_path : Path) (batch : List (QueuedWrite Path)) (stale : Option (List Path))
  /-- Behind an error. -/
  | sleeping
  | ended

/-- Where `stop` stands. -/
inductive Stopping (Path : Type)
  /-- It has not been called. -/
  | running
  /-- It has cancelled the batcher and awaits its end. -/
  | cancelling
  /-- In `_flush_all_writes`; the executor writes the batches. -/
  | flushing (batches : List (List (QueuedWrite Path)))
  /-- The flush is over; `ok` if it has come to its end. -/
  | flushed (ok : Bool)
  /-- The futures of what was queued have been failed. -/
  | closing (ok : Bool)
  | finished (ok : Bool)
  /-- An exception of a batch has gone through `stop`; the executor writes the others. -/
  | raised (batches : List (List (QueuedWrite Path)))

/-- The manager, with the requests that have been written. -/
structure WriteQueue (Path : Type) [DecidableEq Path] where
  queue : List (QueuedWrite Path) := []
  write_requests : Dict Path (List (QueuedWrite Path)) := Dict.empty
  /-- How many futures there are. -/
  created : Nat := 0
  futures : Nat → FutureState := fun _ => .pending
  batcher : Batcher Path := .waiting
  stopping : Stopping Path := .running
  written : List (QueuedWrite Path) := []

namespace WriteQueue

variable {Path : Type} [DecidableEq Path] (config : QueueConfig) (s : WriteQueue Path)

def isRunning : Bool :=
  match s.stopping with
  | .running => true
  | _ => false

/-- The futures with these numbers that are not done yet get the outcome. -/
def settle (numbers : List Nat) (outcome : FutureState) : WriteQueue Path :=
  { s with
    futures := fun n =>
      if s.futures n = .pending ∧ n ∈ numbers then outcome else s.futures n }

section Queueing

/-- The queue with the request put in by `write_block`, or `none` if it is full. -/
def putWriteRequest (request : QueuedWrite Path) : Option (List (QueuedWrite Path)) :=
  if config.write_queue_priority then
    match Heapq.heappush (fun a b => some (a.lt b)) s.queue request with
    | .ok queue => some queue
    | .error queue => some queue
  else if config.queue_size > 0 ∧ s.queue.length ≥ config.queue_size then none
  else some (s.queue ++ [request])

/-- `write_block`, which returns the future with the number `created`. -/
def writeBlock (file_path : Path) (offset : Nat) (data : Bytes) (priority : Int) (now : Time) :
    WriteQueue Path :=
  match s.putWriteRequest config ⟨⟨offset, data⟩, file_path, s.created, now, priority⟩ with
  | some queue =>
    { s with
      queue := queue, created := s.created + 1
      futures := Function.update s.futures s.created .pending }
  | none =>
    { s with
      created := s.created + 1
      futures := Function.update s.futures s.created (.exception .queue_full) }

/-- The next request of the queue, and the queue without it. -/
def getWriteRequest : Option (QueuedWrite Path × List (QueuedWrite Path)) :=
  if config.write_queue_priority then
    match Heapq.heappop (fun a b => some (a.lt b)) s.queue with
    | .ok popped => some popped
    | .error _ => none
  else
    match s.queue with
    | [] => none
    | request :: queue => some (request, queue)

end Queueing

section Flushing

/-- The requests that are collected for the file. -/
def requestsOf (file_path : Path) : List (QueuedWrite Path) :=
  (s.write_requests.get? file_path).getD []

/-- The collected requests of the file are taken away. -/
def popRequests (file_path : Path) : WriteQueue Path :=
  { s with write_requests := s.write_requests.erase file_path }

/-- What `_flush_file_writes` does when the executor has written the batch. -/
def complete (batch : List (QueuedWrite Path)) : WriteQueue Path :=
  { s with written := s.written ++ batch }.settle (batch.map QueuedWrite.future) .result

def loop : WriteQueue Path :=
  { s with batcher := if s.isRunning then .waiting else .ended }

/-- The rest of `_flush_stale_writes` and the next round, up to the next await. -/
def flushStale : List Path → WriteQueue Path → WriteQueue Path
  | [], s => s.loop
  | file_path :: stale, s =>
    if s.requestsOf file_path = [] then flushStale stale (s.popRequests file_path)
    else
      { s.popRequests file_path with
        batcher := .flushing file_path (s.requestsOf file_path) (some stale) }

def shouldFlush (now : Time) (request : QueuedWrite Path)
    (requests : List (QueuedWrite Path)) : Bool :=
  decide (requests.length ≥ max 1 (config.write_batch_kib * 1024 / 16384)) ||
    decide ((requests.map fun r => r.data.length).sum ≥
      max (64 * 1024) (config.write_buffer_kib * 1024)) ||
    decide (now - request.timestamp > config.getAdaptiveTimeout)

/-- The files that `_flush_stale_writes` flushes. -/
def staleFiles (now : Time) : List Path :=
  s.write_requests.keys.filter fun file_path =>
    (s.requestsOf file_path).any fun r => now - r.timestamp > 5 / 1000

end Flushing

section Batching

/-- The batcher gets a request. -/
def batcherGet (now : Time) : WriteQueue Path :=
  match s.batcher, s.getWriteRequest config with
  | .waiting, some (request, queue) =>
    let requests := s.requestsOf request.file_path ++ [request]
    let s := { s with
      queue := queue, write_requests := s.write_requests.set request.file_path requests }
    if shouldFlush config now request requests then
      { s.popRequests request.file_path with
        batcher := .flushing request.file_path requests none }
    else s.loop
  | _, _ => s

/-- The batcher has waited for a request in vain. -/
def batcherTimeout (now : Time) : WriteQueue Path :=
  match s.batcher with
  | .waiting => flushStale (s.staleFiles now) s
  | _ => s

/-- The executor is done with the batch of the batcher, or `_write_combined_sync` has raised. -/
def batcherResume (error : Bool) : WriteQueue Path :=
  match s.batcher with
  | .flushing _ batch stale =>
    if error then
      match stale with
      | none => { s with batcher := .sleeping }
      | some _ => s.loop
    else
      match stale with
      | none => (s.complete batch).loop
      | some stale => flushStale stale (s.complete batch)
  | _ => s

def batcherWake : WriteQueue Path :=
  match s.batcher with
  | .sleeping => s.loop
  | _ => s

/-- The numbers of the futures of all collected requests. -/
def collectedFutures : List Nat := s.write_requests.values.flatten.map QueuedWrite.future

/-- The handler of the batcher for `CancelledError`. -/
def failCollected : WriteQueue Path :=
  { s.settle s.collectedFutures (.exception .CancelledError) with batcher := .ended }

/-- The cancellation by `stop` gets to the batcher; the executor may have written the batch. -/
def batcherCancel (done : Bool) : WriteQueue Path :=
  match s.stopping, s.batcher with
  | .cancelling, .waiting => s.failCollected
  | .cancelling, .flushing _ batch _ =>
    (if done then { s with written := s.written ++ batch } else s).failCollected
  | .cancelling, .sleeping => { s with batcher := .ended }
  | _, _ => s

end Batching

section Stop

/-- `stop` is called. -/
def stop : WriteQueue Path :=
  match s.stopping with
  | .running => { s with stopping := .cancelling }
  | _ => s

/-- The batcher has ended, and `stop` begins to flush what is collected. -/
def stopFlush : WriteQueue Path :=
  match s.stopping, s.batcher with
  | .cancelling, .ended =>
    let batches := s.write_requests.values.filter fun requests => requests.length ≠ 0
    { s with
      write_requests := Dict.empty
      stopping := if batches.length = 0 then .flushed true else .flushing batches }
  | _, _ => s

/-- The executor is done with the batch, or `_write_combined_sync` has raised. -/
def stopResume (i : Nat) (error : Bool) : WriteQueue Path :=
  match s.stopping with
  | .flushing batches =>
    match batches[i]? with
    | none => s
    | some batch =>
      let batches := batches.eraseIdx i
      if error then { s with stopping := .raised batches }
      else
        { s.complete batch with
          stopping := if batches.length = 0 then .flushed true else .flushing batches }
  | .raised batches =>
    match batches[i]? with
    | none => s
    | some batch =>
      { (if error then s else s.complete batch) with stopping := .raised (batches.eraseIdx i) }
  | _ => s

/-- The flush has taken five seconds and is cancelled; the executor may have written a batch. -/
def stopTimeout (done : Nat → Bool) : WriteQueue Path :=
  match s.stopping with
  | .flushing batches =>
    { s with
      written := s.written ++ (batches.zipIdx.filter fun b => done b.2).flatMap Prod.fst
      stopping := .flushed false }
  | _ => s

/-- `stop` fails what is left: the futures of collected requests and of those in the queue. -/
def stopDrain : WriteQueue Path :=
  match s.stopping with
  | .flushed ok =>
    { s.settle (s.collectedFutures ++ s.queue.map QueuedWrite.future)
        (.exception .CancelledError) with queue := [], stopping := .closing ok }
  | _ => s

def stopFinish : WriteQueue Path :=
  match s.stopping with
  | .closing ok => { s with stopping := .finished ok }
  | _ => s

end Stop

/-- What can happen next. -/
inductive Event (Path : Type)
  | write_block (file_path : Path) (offset : Nat) (data : Bytes) (priority : Int) (now : Time)
  | batcherGet (now : Time)
  | batcherTimeout (now : Time)
  | batcherResume (error : Bool)
  | batcherWake
  | batcherCancel (done : Bool)
  | stop
  | stopFlush
  | stopResume (i : Nat) (error : Bool)
  | stopTimeout (done : Nat → Bool)
  | stopDrain
  | stopFinish

def step (s : WriteQueue Path) : Event Path → WriteQueue Path
  | .write_block file_path offset data priority now =>
    s.writeBlock config file_path offset data priority now
  | .batcherGet now => s.batcherGet config now
  | .batcherTimeout now => s.batcherTimeout now
  | .batcherResume error => s.batcherResume error
  | .batcherWake => s.batcherWake
  | .batcherCancel done => s.batcherCancel done
  | .stop => s.stop
  | .stopFlush => s.stopFlush
  | .stopResume i error => s.stopResume i error
  | .stopTimeout done => s.stopTimeout done
  | .stopDrain => s.stopDrain
  | .stopFinish => s.stopFinish

end WriteQueue

end Ccbt.Storage
