import Ccbt.Peer.Message
import Ccbt.Python.Dict
import Mathlib.Data.Rat.Defs

/-!
# Peer connections: `AsyncPeerConnection` of `peer/async_peer_connection.py`

The state of one connection, with its request pipeline, and what it says about
whether blocks can be requested.
-/

namespace Ccbt

open Python

namespace Peer

inductive ConnectionState
  | DISCONNECTED
  | CONNECTING
  | HANDSHAKE_SENT
  | HANDSHAKE_RECEIVED
  | CONNECTED
  | BITFIELD_SENT
  | BITFIELD_RECEIVED
  | ACTIVE
  | CHOKED
  | ERROR
  deriving DecidableEq

abbrev Time := Rat

/-- A requested block: piece index, offset in the piece and length. -/
abbrev RequestKey := Nat × Nat × Nat

structure RequestInfo where
  piece_index : Nat
  begin : Nat
  length : Nat
  timestamp : Time
  retry_count : Nat := 0
  deriving DecidableEq

def RequestInfo.key (r : RequestInfo) : RequestKey := (r.piece_index, r.begin, r.length)

structure PeerState where
  bitfield : Option Bytes := none
  pieces_we_have : List UInt32 := []

structure AsyncPeerConnection where
  state : ConnectionState := .DISCONNECTED
  peer_state : PeerState := {}
  /-- Whether `writer` is set. -/
  writer : Bool := true
  outstanding_requests : Dict RequestKey RequestInfo := .empty
  request_queue : List RequestInfo := []
  /-- The entries are negated priority, time and request. -/
  priority_queue : Option (List (Rat × Time × RequestInfo)) := none
  max_pipeline_depth : Nat := 16
  am_choking : Bool := true
  peer_choking : Bool := true
  am_interested : Bool := false
  peer_interested : Bool := false
  bytes_downloaded : Nat := 0
  bytes_uploaded : Nat := 0

namespace AsyncPeerConnection

def isActive (c : AsyncPeerConnection) : Bool :=
  if c.state = .BITFIELD_RECEIVED ∧ ¬c.peer_choking then true
  else c.state = .ACTIVE ∨ c.state = .CHOKED

def canRequest (c : AsyncPeerConnection) : Bool :=
  c.isActive && !c.peer_choking && decide (c.outstanding_requests.size < c.max_pipeline_depth)

/-- `max(0, ...)` is the subtraction of natural numbers. -/
def getAvailablePipelineSlots (c : AsyncPeerConnection) : Nat :=
  c.max_pipeline_depth - c.outstanding_requests.size

end AsyncPeerConnection

end Peer

end Ccbt
