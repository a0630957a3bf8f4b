import Ccbt.Peer.Manager
import Ccbt.Python.Heapq
import Mathlib.Data.Rat.Init
import Mathlib.Algebra.Order.Ring.Unbundled.Rat

/-!
# The request pipeline: `request_piece` of `AsyncPeerConnectionManager`

A call of `request_piece` runs until it awaits something: the sending of an interested
message, the priority of the piece, or the sending of a request. Between such points no
other call and no message comes in. Beside the connection and the calls the model records
what goes over the wire: which requests were sent, and how many were outstanding then,
and which blocks and chokes came in.
-/

namespace Ccbt

open Python

namespace Peer

structure PipelineConfig where
  pipeline_enable_prioritization : Bool := true
  pipeline_enable_coalescing : Bool := true
  pipeline_coalesce_threshold_kib : Nat := 4

/-- An entry of the priority queue. -/
abbrev QueueEntry := Rat × Time × RequestInfo

/-- `a < b` for two entries: requests have no order, but equal ones need none. -/
def QueueEntry.lt (a b : QueueEntry) : Option Bool :=
  if a.1 ≠ b.1 then some (decide (a.1 < b.1))
  else if a.2.1 ≠ b.2.1 then some (decide (a.2.1 < b.2.1))
  else if a.2.2 = b.2.2 then some false
  else none

/-- The loop of `_coalesce_requests` over the sorted requests. -/
def coalesceFrom (threshold : Nat) (current : RequestInfo) : List RequestInfo → List RequestInfo
  | [] => [current]
  | req :: rest =>
    if current.piece_index = req.piece_index ∧
        req.begin ≤ current.begin + current.length + threshold then
      let new_end := req.begin + req.length
      if current.begin + current.length < new_end then
        coalesceFrom threshold
          { piece_index := current.piece_index
            begin := current.begin
            length := new_end - current.begin
            timestamp := min current.timestamp req.timestamp
            retry_count := max current.retry_count req.retry_count } rest
      else coalesceFrom threshold current rest
    else current :: coalesceFrom threshold req rest

def coalesceRequests (config : PipelineConfig) (requests : List RequestInfo) : List RequestInfo :=
  if config.pipeline_enable_coalescing then
    match requests.mergeSort fun a b => decide (a.piece_index < b.piece_index) ||
        decide (a.piece_index = b.piece_index ∧ a.begin ≤ b.begin) with
    | [] => []
    | current :: rest => coalesceFrom (config.pipeline_coalesce_threshold_kib * 1024) current rest
  else requests

/-- Pops from the priority queue until there are so many requests or none is left. -/
def popRequests : Nat → List QueueEntry →
    Except (List QueueEntry) (List RequestInfo × List QueueEntry)
  | 0, heap => .ok ([], heap)
  | _ + 1, [] => .ok ([], [])
  | n + 1, e :: heap =>
    match Heapq.heappop QueueEntry.lt (e :: heap) with
    | .error heap => .error heap
    | .ok (entry, heap) =>
      match popRequests n heap with
      | .error heap => .error heap
      | .ok (requests, heap) => .ok (entry.2.2 :: requests, heap)

namespace AsyncPeerConnection

def enqueue (config : PipelineConfig) (c : AsyncPeerConnection) (priority : Rat) (now : Time)
    (r : RequestInfo) : Except AsyncPeerConnection AsyncPeerConnection :=
  if config.pipeline_enable_prioritization then
    match Heapq.heappush QueueEntry.lt (c.priority_queue.getD []) (-priority, now, r) with
    | .ok heap => .ok { c with priority_queue := some heap }
    | .error heap => .error { c with priority_queue := some heap }
  else .ok { c with request_queue := c.request_queue ++ [r] }

/-- The requests that `_process_request_queue` takes out of the queue. -/
def takeRequests (config : PipelineConfig) (c : AsyncPeerConnection) :
    Except AsyncPeerConnection (List RequestInfo × AsyncPeerConnection) :=
  let heap := c.priority_queue.getD []
  let max_requests := c.getAvailablePipelineSlots
  if config.pipeline_enable_prioritization ∧ heap ≠ [] then
    match popRequests max_requests heap with
    | .ok (requests, heap) => .ok (requests, { c with priority_queue := some heap })
    | .error heap => .error { c with priority_queue := some heap }
  else .ok (c.request_queue.take max_requests,
    { c with request_queue := c.request_queue.drop max_requests })

end AsyncPeerConnection

/-- What went over the wire. -/
inductive Occurrence
  /-- A request was sent while so many others were outstanding. -/
  | request (key : RequestKey) (outstanding : Nat)
  | piece (key : RequestKey)
  | choke

/-- A call of `request_piece`, by what it waits for. -/
inductive RequestTask
  /-- The interested message is being sent. -/
  | interested (key : RequestKey)
  | priority (key : RequestKey)
  /-- A request is being sent; these are to follow. -/
  | sending (rest : List RequestInfo)
  | returned
  | raised
  deriving DecidableEq

/-- The requests that a call has taken out of the queue and not sent yet. -/
def RequestTask.unsent : RequestTask → List RequestInfo
  | sending rest => rest
  | _ => []

structure Resumption where
  raises : Bool := false
  priority : Rat := 1
  timestamp : Time := 0
  now : Time := 0

/-- The connection, with a record of the wire. -/
structure Link where
  session : Session
  wire : List Occurrence := []

namespace Link

def setConnection (l : Link) (c : AsyncPeerConnection) : Link :=
  { l with session := { l.session with connection := c } }

/-- The part of `request_piece` after the interested message. -/
def checkAgain (l : Link) (key : RequestKey) : Link × RequestTask :=
  if l.session.connection.canRequest then (l, .priority key) else (l, .returned)

/-- The beginning of `request_piece`. -/
def requestPiece (l : Link) (key : RequestKey) : Link × RequestTask :=
  if !l.session.connection.canRequest then (l, .returned)
  else if l.session.connection.am_interested then l.checkAgain key
  else if l.session.connection.writer then
    ({ l with session := Environment.call l.session (.send .InterestedMessage) }, .interested key)
  else l.checkAgain key

/-- The entry of a request into the table. -/
def track (l : Link) (r : RequestInfo) : Link :=
  let c := l.session.connection
  l.setConnection { c with outstanding_requests := c.outstanding_requests.set r.key r }

def sent (l : Link) (r : RequestInfo) : Link where
  session := Environment.call (l.track r).session (.send (.RequestMessage
    (.ofNat r.piece_index) (.ofNat r.begin) (.ofNat r.length)))
  wire := l.wire ++ [.request r.key l.session.connection.outstanding_requests.size]

/-- The loop that sends the coalesced requests: up to the next sending, and what then remains. -/
def sendRequests (l : Link) : List RequestInfo → Link × RequestTask
  | [] => (l, .returned)
  | r :: rest =>
    if l.session.connection.outstanding_requests.contains r.key then l.sendRequests rest
    else if l.session.connection.writer ∧
        r.piece_index < 2 ^ 32 ∧ r.begin < 2 ^ 32 ∧ r.length < 2 ^ 32 then
      (l.sent r, .sending rest)
    else (l.track r, .raised)

def processRequestQueue (config : PipelineConfig) (l : Link) : Link × RequestTask :=
  match l.session.connection.takeRequests config with
  | .error c => (l.setConnection c, .raised)
  | .ok (requests, c) => (l.setConnection c).sendRequests (coalesceRequests config requests)

def resume (config : PipelineConfig) (l : Link) (i : Resumption) : RequestTask → Link × RequestTask
  | .interested key =>
    let c := l.session.connection
    if i.raises then l.checkAgain key
    else (l.setConnection { c with am_interested := true }).checkAgain key
  | .priority key =>
    let priority := if config.pipeline_enable_prioritization then i.priority else 0
    match l.session.connection.enqueue config priority i.now
        { piece_index := key.1, begin := key.2.1, length := key.2.2, timestamp := i.timestamp } with
    | .error c => (l.setConnection c, .raised)
    | .ok c => (l.setConnection c).processRequestQueue config
  | .sending rest => if i.raises then (l, .raised) else l.sendRequests rest
  | .returned => (l, .returned)
  | .raised => (l, .raised)

def occurrences : PeerMessage → List Occurrence
  | .ChokeMessage => [.choke]
  | .PieceMessage piece_index begin block =>
    [.piece (piece_index.toNat, begin.toNat, block.length)]
  | _ => []

def receive (env : Environment) (l : Link) (m : PeerMessage) : Link :=
  { session := env.handleMessage l.session m, wire := l.wire ++ occurrences m }

end Link

structure Pipeline where
  link : Link
  tasks : List RequestTask := []

/-- What can happen on a connection. -/
inductive PipelineEvent
  | request_piece (key : RequestKey)
  | resume (task : Nat) (i : Resumption)
  | receive (m : PeerMessage)

namespace Pipeline

def step (env : Environment) (config : PipelineConfig) (p : Pipeline) : PipelineEvent → Pipeline
  | .request_piece key =>
    let (l, t) := p.link.requestPiece key
    ⟨l, p.tasks ++ [t]⟩
  | .resume n i =>
    match p.tasks[n]? with
    | none => p
    | some t =>
      let (l, t) := p.link.resume config i t
      ⟨l, p.tasks.set n t⟩
  | .receive m => ⟨p.link.receive env m, p.tasks⟩

/-- A connection with a writer on which nothing was requested yet. -/
def start (c : AsyncPeerConnection) : Pipeline :=
  { link := { session := { connection := { c with
      writer := true
      outstanding_requests := .empty
      request_queue := []
      priority_queue := none } } } }

end Pipeline

end Peer

end Ccbt
