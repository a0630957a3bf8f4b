import Mathlib.Algebra.Order.Ring.Rat
import Ccbt.Python.Bytes
import Ccbt.Python.Dict

/-!
# The connection pool

`PeerConnectionPool` with the calls that take and give back its slots. A call runs until it awaits
the closing of a connection, a slot or a new connection; other calls come in between. The
connections themselves are told apart by a number.
-/

namespace Ccbt

open Python

namespace ConnectionPool

abbrev Time := Rat

/-- The identity of a connection. -/
abbrev Connection := Nat

/-- `ConnectionMetrics`, as far as the pool decides by it. -/
structure ConnectionMetrics where
  last_used : Time
  usage_count : Nat := 0
  errors : Nat := 0
  is_healthy : Bool := true

structure PoolConfig where
  max_connections : Nat := 200
  max_idle_time : Time := 300
  max_usage_count : Nat := 1000

/-- `PeerConnectionPool` with the value of its semaphore. -/
structure PeerConnectionPool where
  pool : Dict Str Connection := .empty
  metrics : Dict Str ConnectionMetrics := .empty
  semaphore : Nat

/-- Where a call stands. -/
inductive Task
  /-- `acquire` closes the connection that it has found. -/
  | acquireRemoving (peer_id : Str)
  /-- `acquire` waits for a slot. -/
  | acquireWaiting (peer_id : Str)
  /-- `acquire` has a slot and waits for the connection. -/
  | acquireCreating (peer_id : Str)
  /-- A connection is closed, before its slot is given back; the others come after it. -/
  | removing (peer_id : Str) (rest : List Str)
  | done
deriving DecidableEq

namespace PeerConnectionPool

variable (config : PoolConfig) (s : PeerConnectionPool) (peer_id : Str)

def releaseSlot : PeerConnectionPool := { s with semaphore := s.semaphore + 1 }

/-- What `_remove_connection` does behind the await. -/
def dropConnection : PeerConnectionPool :=
  { s with pool := s.pool.erase peer_id, metrics := s.metrics.erase peer_id }

/-- `_remove_connection` and `semaphore.release()` for one peer after the other, as far as it goes
without an await: there is nothing to await for a peer that is not in the pool. -/
def removeAll (s : PeerConnectionPool) : List Str → PeerConnectionPool × Task
  | [] => (s, .done)
  | peer_id :: rest =>
    if s.pool.contains peer_id then (s, .removing peer_id rest) else removeAll s.releaseSlot rest

/-- `acquire` up to its first await; `valid` is what `_is_connection_valid` says of the connection
in the pool. -/
def acquire (valid : Bool) (now : Time) : PeerConnectionPool × Task :=
  if s.pool.contains peer_id then
    match s.metrics.get? peer_id with
    -- `KeyError`
    | none => (s, .done)
    | some metrics =>
      if metrics.is_healthy && valid then
        let metrics := { metrics with last_used := now, usage_count := metrics.usage_count + 1 }
        ({ s with metrics := s.metrics.set peer_id metrics }, .done)
      else (s, .acquireRemoving peer_id)
  else (s, .acquireWaiting peer_id)

def release (now : Time) : PeerConnectionPool × Task :=
  if s.pool.contains peer_id then
    match s.metrics.get? peer_id with
    | none => (s, .done)
    | some metrics =>
      let s := { s with metrics := s.metrics.set peer_id { metrics with last_used := now } }
      if config.max_usage_count ≤ metrics.usage_count then removeAll s [peer_id] else (s, .done)
  else (s.releaseSlot, .done)

def removeConnection : PeerConnectionPool × Task := removeAll s [peer_id]

/-- The metrics of one connection after its check. -/
def checkHealth (now : Time) (metrics : ConnectionMetrics) : ConnectionMetrics :=
  if config.max_idle_time < now - metrics.last_used ∨ config.max_usage_count ≤ metrics.usage_count ∨
      10 < metrics.errors then { metrics with is_healthy := false }
  else metrics

/-- The peers whose metrics are unhealthy, whether they are in the pool or not. -/
def unhealthyConnections (now : Time) : List Str :=
  ((s.metrics.mapValues (checkHealth config now)).entries.filter fun e => !e.2.is_healthy).map Prod.fst

def performHealthChecks (now : Time) : PeerConnectionPool × Task :=
  removeAll { s with metrics := s.metrics.mapValues (checkHealth config now) }
    (s.unhealthyConnections config now)

/-- The peers whose connection has not been used for long. -/
def staleConnections (now : Time) : List Str :=
  (s.metrics.entries.filter fun e => config.max_idle_time * 2 < now - e.2.last_used).map Prod.fst

def cleanupStaleConnections (now : Time) : PeerConnectionPool × Task :=
  removeAll s (s.staleConnections config now)

def updateConnectionMetrics (errors : Nat) : PeerConnectionPool :=
  match s.metrics.get? peer_id with
  | none => s
  | some metrics =>
    { s with metrics := s.metrics.set peer_id { metrics with errors := metrics.errors + errors } }

/-- `acquire` with a slot, up to the await of the connection. -/
def beginCreation (now : Time) : PeerConnectionPool :=
  { s with
    semaphore := s.semaphore - 1
    metrics :=
      if s.metrics.contains peer_id then s.metrics else s.metrics.set peer_id { last_used := now } }

/-- The end of `acquire`: the new connection is put into the pool, or the slot is given back.
Without its metrics `_create_connection` fails even with a connection. -/
def finishCreation (connection : Option Connection) : PeerConnectionPool :=
  match connection with
  | some connection =>
    if s.metrics.contains peer_id then { s with pool := s.pool.set peer_id connection }
    else s.releaseSlot
  | none => s.releaseSlot

end PeerConnectionPool

/-- What the await of a call ends with. -/
structure Wakeup where
  now : Time := 0
  /-- The wait for a slot has taken too long. -/
  timed_out : Bool := false
  /-- The new connection, if the attempt succeeds. -/
  connection : Option Connection := none

inductive Call
  | acquire (peer_id : Str) (valid : Bool)
  | release (peer_id : Str)
  | remove_connection (peer_id : Str)
  | _perform_health_checks
  | _cleanup_stale_connections
  | update_connection_metrics (peer_id : Str) (errors : Nat)

inductive Event
  | call (call : Call) (now : Time)
  | resume (n : Nat) (wakeup : Wakeup)

structure PoolSystem where
  state : PeerConnectionPool
  tasks : List Task := []

/-- A call up to its first await. -/
def begin (config : PoolConfig) (s : PeerConnectionPool) (now : Time) :
    Call → PeerConnectionPool × Task
  | .acquire peer_id valid => s.acquire peer_id valid now
  | .release peer_id => s.release config peer_id now
  | .remove_connection peer_id => s.removeConnection peer_id
  | ._perform_health_checks => s.performHealthChecks config now
  | ._cleanup_stale_connections => s.cleanupStaleConnections config now
  | .update_connection_metrics peer_id errors => (s.updateConnectionMetrics peer_id errors, .done)

/-- A call from one await to the next. -/
def resume (s : PeerConnectionPool) (wakeup : Wakeup) : Task → PeerConnectionPool × Task
  | .acquireRemoving peer_id =>
    -- `del self.pool[peer_id]` raises when the connection has been removed meanwhile
    if s.pool.contains peer_id then (s.dropConnection peer_id, .acquireWaiting peer_id)
    else (s, .done)
  | .acquireWaiting peer_id =>
    if wakeup.timed_out then (s, .done)
    else if s.semaphore = 0 then (s, .acquireWaiting peer_id)
    else (s.beginCreation peer_id wakeup.now, .acquireCreating peer_id)
  | .acquireCreating peer_id => (s.finishCreation peer_id wakeup.connection, .done)
  | .removing peer_id rest =>
    if s.pool.contains peer_id then (s.dropConnection peer_id).releaseSlot.removeAll rest
    else (s, .done)
  | .done => (s, .done)

def step (config : PoolConfig) (x : PoolSystem) : Event → PoolSystem
  | .call call now =>
    let (state, task) := begin config x.state now call
    { state := state, tasks := x.tasks ++ [task] }
  | .resume n wakeup =>
    match x.tasks[n]? with
    | none => x
    | some task =>
      let (state, task) := resume x.state wakeup task
      { state := state, tasks := x.tasks.set n task }

def PoolSystem.new (config : PoolConfig) : PoolSystem :=
  { state := { semaphore := config.max_connections } }

end ConnectionPool

end Ccbt
