import Ccbt.Discovery.Announce
import Ccbt.Python.Bytes
import Ccbt.Python.SetOrder
import Ccbt.Replica.Delta

/-!
# Peer exchange

The rounds in which the PEX manager tells one session which peers are connected and which are not
any more, and the set that the remote peer holds after them. The peers are IPv4 peers.
-/

namespace Ccbt

open Python Transition

namespace Pex

structure Peer where
  ip : { octets : Bytes // octets.length = 4 }
  port : UInt16
deriving DecidableEq

section Compact

def encodeCompactPeer (peer : Peer) : Bytes := peer.ip.1 ++ packH peer.port

def decodeCompactPeer (data : Bytes) : Option Peer :=
  if h : data.length < 6 then none
  else some {
    ip := ⟨data.take 4, by rw [List.length_take]; omega⟩
    port := unpackH ((data.take 6).drop 4) }

def encodePeersList (peers : List Peer) : Bytes := peers.flatMap encodeCompactPeer

def decodePeersList (data : Bytes) : List Peer := (pieces 6 data).filterMap decodeCompactPeer

end Compact

structure PexSession where
  peer_key : Str
  ut_pex_id : Option Int
  is_supported : Bool
  consecutive_failures : Nat := 0

/-- What the manager keeps for one session. -/
structure AsyncPexManager where
  session : PexSession
  /-- Whether there is a `send_pex_callback`. -/
  send_pex_callback : Bool
  peers_sent_to_session : List Peer := []
  previous_connected_peers : List Peer := []

/-- One round, as it meets the world. -/
structure Round where
  /-- What `get_connected_peers_callback` returns, unless it raises. -/
  connected_peers : Option (List Peer)
  /-- The orders in which the two sets come. -/
  added_order : List Peer := []
  dropped_order : List Peer := []
  /-- What `send_pex_callback` returns for the added peers and for the dropped ones, unless it
  raises. -/
  send_added : Option Bool
  send_dropped : Option Bool

def max_peers_per_interval : Nat := 50

section Rounds

def targetOf (peer_key : Str) : Option (Str × Int) :=
  if ':' ∈ peer_key then
    let port := (peer_key.reverse.takeWhile (· ≠ ':')).reverse
    let target_ip := peer_key.take (peer_key.length - port.length - 1)
    match parseInt port with
    | none => none
    | some target_port =>
      if target_ip ≠ [] ∧ target_port ≠ 0 then some (target_ip, target_port) else none
  else none

def Peer.key (peer : Peer) : Str × Int := (Discovery.dotted peer.ip.1, peer.port.toNat)

/-- `current_connected` without the target. -/
def currentConnected (peer_key : Str) (connected_peers : Option (List Peer)) : List Peer :=
  (connected_peers.getD []).dedup.filter fun peer => some peer.key ≠ targetOf peer_key

namespace AsyncPexManager

variable (m : AsyncPexManager) (r : Round)

def current : List Peer := currentConnected m.session.peer_key r.connected_peers

def addedPeersSet : List Peer :=
  ((m.current r).filter (· ∉ m.previous_connected_peers)).filter (· ∉ m.peers_sent_to_session)

def droppedPeersSet : List Peer := m.previous_connected_peers.filter (· ∉ m.current r)

def pexPeersToAdd : List Peer :=
  (iterSet r.added_order (m.addedPeersSet r)).take max_peers_per_interval

def pexPeersToDrop : List Peer :=
  (iterSet r.dropped_order (m.droppedPeersSet r)).take max_peers_per_interval

def getPexPeerLists : AsyncPexManager × Bytes × Bytes :=
  ({ m with
      peers_sent_to_session := m.peers_sent_to_session ∪ m.pexPeersToAdd r
      previous_connected_peers := m.current r },
    encodePeersList (m.pexPeersToAdd r), encodePeersList (m.pexPeersToDrop r))

end AsyncPexManager

/-- One use of `send_pex_callback`, if there is anything to send: whether it succeeds, and the
failures in a row. -/
def sendPeers (peer_data : Bytes) (result : Option Bool) (failures : Nat) : Bool × Nat :=
  if peer_data = [] then (false, failures)
  else if result = some true then (true, failures)
  else (false, failures + 1)

structure Message where
  peer_data : Bytes
  is_added : Bool

/-- `_send_pex_to_peer`, with the messages that are sent. -/
def sendPexToPeer (m : AsyncPexManager) (r : Round) : AsyncPexManager × List Message :=
  if !m.session.is_supported || m.session.ut_pex_id.getD 0 = 0 then (m, [])
  else if !m.send_pex_callback then (m, [])
  else
    let (m, added_peers, dropped_peers) := m.getPexPeerLists r
    let (added_success, failures) :=
      sendPeers added_peers r.send_added m.session.consecutive_failures
    let (dropped_success, failures) := sendPeers dropped_peers r.send_dropped failures
    let failures := if added_success || dropped_success then 0 else failures
    ({ m with session := { m.session with consecutive_failures := failures } },
      (if added_success then [⟨added_peers, true⟩] else []) ++
        if dropped_success then [⟨dropped_peers, false⟩] else [])

def receive (view : Finset Peer) (message : Message) : Finset Peer :=
  if message.is_added then view ∪ (decodePeersList message.peer_data).toFinset
  else view \ (decodePeersList message.peer_data).toFinset

/-- The manager and the remote peer of the session. -/
structure Exchange where
  manager : AsyncPexManager
  view : Finset Peer := ∅

def step (x : Exchange) (r : Round) : Exchange :=
  { manager := (sendPexToPeer x.manager r).1
    view := (sendPexToPeer x.manager r).2.foldl receive x.view }

end Rounds

section CompactLemmas

variable (peer : Peer) (peers : List Peer)

@[simp] theorem length_encodeCompactPeer : (encodeCompactPeer peer).length = 6 := by
  rw [encodeCompactPeer, List.length_append, peer.ip.2, packH_length]

@[simp] theorem decodeCompactPeer_encode : decodeCompactPeer (encodeCompactPeer peer) = some peer := by
  obtain ⟨⟨octets, hocts⟩, port⟩ := peer
  have hlen : ¬(encodeCompactPeer ⟨⟨octets, hocts⟩, port⟩).length < 6 := by
    rw [length_encodeCompactPeer]
    decide
  have hport : ((octets ++ packH port).take 6).drop 4 = packH port := by
    rw [List.take_of_length_le, List.drop_left' hocts]
    exact (length_encodeCompactPeer ⟨⟨octets, hocts⟩, port⟩).le
  have hip : (octets ++ packH port).take 4 = octets := List.take_left' hocts
  rw [decodeCompactPeer, dif_neg hlen]
  simp only [encodeCompactPeer, hip, hport, unpackH_packH]

/-- The remote peer reads the peers that the manager has written. -/
theorem decodePeersList_encode : decodePeersList (encodePeersList peers) = peers := by
  induction peers with
  | nil => rfl
  | cons peer peers ih =>
    rw [decodePeersList, encodePeersList, List.flatMap_cons,
      pieces_append (by decide) (length_encodeCompactPeer peer), List.filterMap_cons,
      decodeCompactPeer_encode]
    exact congrArg _ ih

theorem encodePeersList_eq_nil : encodePeersList peers = [] ↔ peers = [] := by
  constructor
  · intro h
    rw [← decodePeersList_encode peers, h]
    rfl
  · rintro rfl
    rfl

end CompactLemmas

section Target

theorem strInt_natCast_bounds {n : Nat} {c : Char} (h : c ∈ strInt n) :
    48 ≤ c.toNat ∧ c.toNat ≤ 57 := by
  rw [strInt_natCast] at h
  exact toDigits_bounds h

theorem splitOn_dotted {octets : Bytes} (hne : octets ≠ []) :
    (Discovery.dotted octets).splitOn '.' = octets.map fun b => strInt b.toNat := by
  refine List.splitOn_intercalate '.' (fun s hs hin => ?_) (by simpa using hne)
  obtain ⟨b, -, rfl⟩ := List.mem_map.mp hs
  exact absurd (strInt_natCast_bounds hin) (by decide)

/-- The text of an address can be read back. -/
theorem dotted_injective {a b : Bytes} (ha : a ≠ []) (hb : b ≠ [])
    (h : Discovery.dotted a = Discovery.dotted b) : a = b := by
  have hmap := splitOn_dotted ha
  rw [h, splitOn_dotted hb] at hmap
  refine List.map_injective_iff.mpr (fun x y hxy => ?_) hmap.symm
  have hparse : parseInt (strInt x.toNat) = parseInt (strInt y.toNat) := congrArg parseInt hxy
  rw [parseInt_strInt, parseInt_strInt, Option.some.injEq, Nat.cast_inj] at hparse
  exact UInt8.toNat_inj.mp hparse

theorem Peer.octets_ne_nil (peer : Peer) : peer.ip.1 ≠ [] :=
  List.ne_nil_of_length_eq_add_one peer.ip.2

theorem Peer.key_injective : Function.Injective Peer.key := by
  intro peer peer' h
  rw [Peer.key, Peer.key, Prod.mk.injEq, Nat.cast_inj] at h
  have hip := dotted_injective peer.octets_ne_nil peer'.octets_ne_nil h.1
  have hport := UInt16.toNat_inj.mp h.2
  cases peer
  cases peer'
  rw [Peer.mk.injEq]
  exact ⟨Subtype.ext hip, hport⟩

/-- What counts as connected is what is connected, without the session's own peer. -/
theorem mem_currentConnected {peer_key : Str} {connected_peers : Option (List Peer)} {peer : Peer} :
    peer ∈ currentConnected peer_key connected_peers ↔
      peer ∈ connected_peers.getD [] ∧ some peer.key ≠ targetOf peer_key := by
  rw [currentConnected, List.mem_filter, List.mem_dedup, decide_eq_true_eq]

end Target

end Pex

end Ccbt
