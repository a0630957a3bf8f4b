import Ccbt.Discovery.Pex
import Ccbt.Discovery.UdpTracker
import Ccbt.Expiry.Board
import Mathlib.Algebra.Order.Ring.Rat

/-!
# The UDP tracker

`UDPTracker` of `discovery/tracker_server_udp.py`, and the announces that the client of
`discovery/tracker_udp_client.py` sends to it. Floats are rational numbers, and an address is its four
octets, which `inet_aton` makes of it. What cannot be sent in one datagram is not answered.
-/

namespace Ccbt.UdpTracker

open Python Pex Expiry

abbrev Time := Rat

section Server

structure InMemoryPeerStore where
  torrents : Board Time Peer Bytes := .empty
  interval : UInt32 := 1800

/-- `InMemoryPeerStore.announce`, with the compact peers. -/
def InMemoryPeerStore.announce (store : InMemoryPeerStore) (info_hash : Bytes) (peer : Peer)
    (event : UInt32) (now : Time) : InMemoryPeerStore × Bytes :=
  let note : Note Time Peer Bytes := {
    topic := info_hash
    member := peer
    leaves := event == 3
    time := now }
  let torrents := post 3600 store.torrents note
  ({ store with torrents }, encodePeersList (storeOf torrents info_hash).keys)

def sendError (transaction_id : UInt32) (message : Bytes) : Bytes :=
  packI 3 ++ packI transaction_id ++ message

def handleAnnounce (store : InMemoryPeerStore) (data : Bytes)
    (sender_ip : { octets : Bytes // octets.length = 4 }) (transaction_id : UInt32) (now : Time) :
    InMemoryPeerStore × Bytes :=
  if data.length < 98 then (store, sendError transaction_id (ascii "Bad announce length"))
  else
    let info_hash := (data.drop 16).take 20
    let event := unpackI ((data.drop 80).take 4)
    let port := unpackH ((data.drop 96).take 2)
    let (store, peers_compact) := store.announce info_hash ⟨sender_ip, port⟩ event now
    (store, packI 1 ++ packI transaction_id ++ packI store.interval ++
      (packI 0 ++ packI 0 ++ peers_compact))

/-- One round of `serve_forever`, with the datagram that is sent. `os.urandom` gives the connection
id. -/
def serve (store : InMemoryPeerStore) (data : Bytes)
    (sender_ip : { octets : Bytes // octets.length = 4 }) (urandom : UInt64) (now : Time) :
    InMemoryPeerStore × Option Bytes :=
  if data.length < 16 then (store, none)
  else
    let action := unpackI ((data.drop 8).take 4)
    let transaction_id := unpackI ((data.drop 12).take 4)
    if action = 0 then
      (store, some (packI 0 ++ packI transaction_id ++ bigEndian 8 urandom.toNat))
    else if action = 1 then
      let (store, response) := handleAnnounce store data sender_ip transaction_id now
      (store, some response)
    else (store, some (sendError transaction_id (ascii "Unsupported action")))

end Server

section Client

/-- The source address of a datagram is never 0.0.0.0. -/
abbrev SourceIp := { octets : Bytes // octets.length = 4 ∧ octets ≠ [0, 0, 0, 0] }

/-- An announce of a client, at the time at which it arrives. -/
structure Announce where
  ip : SourceIp
  connection_id : UInt64
  transaction_id : UInt32
  info_hash : { hash : Bytes // hash.length = 20 }
  our_peer_id : Bytes
  downloaded : UInt64
  left : UInt64
  uploaded : UInt64
  event : TrackerEvent
  port : { port : UInt16 // port ≠ 0 }
  time : Time

/-- The `20s` of a format. -/
def pack20s (data : Bytes) : Bytes := data.take 20 ++ List.replicate (20 - data.length) 0

def Announce.data (a : Announce) : Bytes :=
  bigEndian 8 a.connection_id.toNat ++ (packI TrackerAction.announce.value ++
    (packI a.transaction_id ++ (pack20s a.info_hash ++ (pack20s a.our_peer_id ++
      (bigEndian 8 a.downloaded.toNat ++ (bigEndian 8 a.left.toNat ++
        (bigEndian 8 a.uploaded.toNat ++ (packI a.event.value ++ (packI 0 ++ (packI 0 ++
          (packI (-1) ++ packH a.port)))))))))))

/-- The pair that an announce is about. -/
def Announce.pair (a : Announce) : Str × Nat := (Discovery.dotted a.ip, a.port.1.toNat)

/-- The pair has announced the hash within the last hour, with another event than STOPPED, and has
not announced STOPPED since. -/
def Announced (announces : List Announce) (info_hash : Bytes) (now : Time) (pair : Str × Nat) :
    Prop :=
  ∃ earlier a later, announces = earlier ++ a :: later ∧
    (a.info_hash.1 = info_hash ∧ a.pair = pair) ∧ a.event ≠ .stopped ∧ now - 3600 ≤ a.time ∧
    ∀ a' ∈ later, a'.info_hash.1 = info_hash → a'.pair = pair → a'.event ≠ .stopped

def receive (store : InMemoryPeerStore) (a : Announce) : InMemoryPeerStore × Option Bytes :=
  serve store a.data ⟨a.ip.1, a.ip.2.1⟩ 0 a.time

/-- The server behind announces, the earliest first. -/
def receiveAll (announces : List Announce) : InMemoryPeerStore :=
  announces.foldl (fun store a => (receive store a).1) {}

end Client

section Packets

/-- A field of a packet is passed over. -/
theorem drop_field {field rest : Bytes} {n i : Nat} (h : field.length = n) :
    (field ++ rest).drop (n + i) = rest.drop i := by
  rw [← List.drop_drop, List.drop_left' h]

@[simp] theorem pack20s_length (data : Bytes) : (pack20s data).length = 20 := by
  rw [pack20s, List.length_append, List.length_take, List.length_replicate]
  omega

theorem pack20s_of_length {data : Bytes} (h : data.length = 20) : pack20s data = data := by
  rw [pack20s, List.take_of_length_le h.le, h, Nat.sub_self, List.replicate_zero, List.append_nil]

variable (a : Announce)

theorem length_data : a.data.length = 98 := by
  simp [Announce.data]

theorem data_action : unpackI ((a.data.drop 8).take 4) = 1 := by
  show unpackI ((a.data.drop (8 + 0)).take 4) = 1
  rw [Announce.data, drop_field (bigEndian_length 8 _), List.drop_zero,
    List.take_left' (packI_length _), unpackI_packI]
  rfl

theorem data_transaction_id : unpackI ((a.data.drop 12).take 4) = a.transaction_id := by
  show unpackI ((a.data.drop (8 + (4 + 0))).take 4) = _
  rw [Announce.data, drop_field (bigEndian_length 8 _), drop_field (packI_length _),
    List.drop_zero, List.take_left' (packI_length _), unpackI_packI]

theorem data_info_hash : (a.data.drop 16).take 20 = a.info_hash := by
  show (a.data.drop (8 + (4 + (4 + 0)))).take 20 = _
  rw [Announce.data, drop_field (bigEndian_length 8 _), drop_field (packI_length _),
    drop_field (packI_length _), List.drop_zero, List.take_left' (pack20s_length _),
    pack20s_of_length a.info_hash.2]

theorem data_event : unpackI ((a.data.drop 80).take 4) = a.event.value := by
  show unpackI ((a.data.drop (8 + (4 + (4 + (20 + (20 + (8 + (8 + (8 + 0))))))))).take 4) = _
  rw [Announce.data, drop_field (bigEndian_length 8 _), drop_field (packI_length _),
    drop_field (packI_length _), drop_field (pack20s_length _), drop_field (pack20s_length _),
    drop_field (bigEndian_length 8 _), drop_field (bigEndian_length 8 _),
    drop_field (bigEndian_length 8 _), List.drop_zero, List.take_left' (packI_length _),
    unpackI_packI]

theorem data_port : unpackH ((a.data.drop 96).take 2) = a.port := by
  show unpackH ((a.data.drop
    (8 + (4 + (4 + (20 + (20 + (8 + (8 + (8 + (4 + (4 + (4 + (4 + 0))))))))))))).take 2) = _
  rw [Announce.data, drop_field (bigEndian_length 8 _), drop_field (packI_length _),
    drop_field (packI_length _), drop_field (pack20s_length _), drop_field (pack20s_length _),
    drop_field (bigEndian_length 8 _), drop_field (bigEndian_length 8 _),
    drop_field (bigEndian_length 8 _), drop_field (packI_length _), drop_field (packI_length _),
    drop_field (packI_length _), drop_field (packI_length _), List.drop_zero,
    List.take_of_length_le (packH_length _).le, unpackH_packH]

/-- What an announce says to the server. -/
def Announce.note : Note Time Peer Bytes where
  topic := a.info_hash
  member := ⟨⟨a.ip.1, a.ip.2.1⟩, a.port⟩
  leaves := a.event.value == 3
  time := a.time

/-- The server takes from an announce what the client has put there. -/
theorem receive_eq (store : InMemoryPeerStore) : receive store a =
    ({ store with torrents := post 3600 store.torrents a.note },
      some (packI 1 ++ packI a.transaction_id ++ packI store.interval ++ (packI 0 ++ packI 0 ++
        encodePeersList (storeOf (post 3600 store.torrents a.note) a.info_hash).keys))) := by
  have hlength := length_data a
  have hshort : ¬a.data.length < 16 := by
    rw [hlength]
    decide
  have hlong : ¬a.data.length < 98 := by
    rw [hlength]
    decide
  rw [receive, serve, if_neg hshort]
  simp only [data_action, data_transaction_id]
  rw [if_neg (by decide), if_pos trivial, handleAnnounce, if_neg hlong]
  simp only [data_info_hash, data_event, data_port]
  rfl

theorem receiveAll_torrents (announces : List Announce) :
    (receiveAll announces).torrents = posted 3600 (announces.reverse.map Announce.note) := by
  induction announces using List.reverseRecOn with
  | nil => rfl
  | append_singleton announces a ih =>
    rw [receiveAll, List.foldl_append, List.foldl_cons, List.foldl_nil, receive_eq,
      List.reverse_append, List.map_append]
    show post 3600 (receiveAll announces).torrents a.note = _
    rw [ih]
    rfl

end Packets

section Agreement

def peerOf (peer : Peer) : TrackerPeer where
  ip := Discovery.dotted peer.ip.1
  port := peer.port.toNat

def TrackerPeer.pair (peer : TrackerPeer) : Str × Nat := (peer.ip, peer.port)

theorem dotted_zero : Discovery.dotted [0, 0, 0, 0] = "0.0.0.0".toList := by decide

theorem parsePeer_encode {peer : Peer} (hip : peer.ip.1 ≠ [0, 0, 0, 0]) (hport : peer.port ≠ 0) :
    parsePeer (encodeCompactPeer peer) = some (peerOf peer) := by
  have htake : (encodeCompactPeer peer).take 4 = peer.ip.1 := List.take_left' peer.ip.2
  have hdrop : (encodeCompactPeer peer).drop 4 = packH peer.port := List.drop_left' peer.ip.2
  have hnumber : ofBigEndian (packH peer.port) = peer.port.toNat :=
    ofBigEndian_bigEndian peer.port.toNat_lt
  have hvalid : Discovery.dotted peer.ip.1 ≠ "0.0.0.0".toList := by
    rw [← dotted_zero]
    exact fun h => hip (dotted_injective peer.octets_ne_nil (by simp) h)
  have hpositive : 1 ≤ peer.port.toNat :=
    Nat.pos_of_ne_zero fun h => hport (UInt16.toNat_inj.mp h)
  rw [parsePeer]
  simp only [htake, hdrop, hnumber]
  exact if_pos ⟨hvalid, hpositive, Nat.le_of_lt_succ peer.port.toNat_lt⟩

/-- The client reads the peers that the server has written. -/
theorem parsePeers_encode {peers : List Peer}
    (h : ∀ peer ∈ peers, peer.ip.1 ≠ [0, 0, 0, 0] ∧ peer.port ≠ 0) :
    parsePeers (encodePeersList peers) = peers.map peerOf := by
  induction peers with
  | nil => rfl
  | cons peer peers ih =>
    obtain ⟨⟨hip, hport⟩, hrest⟩ := List.forall_mem_cons.mp h
    rw [parsePeers, encodePeersList, List.flatMap_cons,
      pieces_append (by decide) (length_encodeCompactPeer peer), List.filter_cons_of_pos (by simp),
      List.filterMap_cons, parsePeer_encode hip hport]
    exact congrArg _ (ih hrest)

/-- What the client makes of an answer. -/
theorem parseResponse_answer (transaction_id interval : UInt32) (peers : List Peer) :
    parseResponse (packI 1 ++ packI transaction_id ++ packI interval ++
        (packI 0 ++ packI 0 ++ encodePeersList peers)) = some {
      action := .announce
      transaction_id
      interval := some interval
      leechers := some 0
      seeders := some 0
      peers := some (parsePeers (encodePeersList peers)) } := by
  have haction : actionOf (packI 1 ++ packI transaction_id ++ packI interval ++
      (packI 0 ++ packI 0 ++ encodePeersList peers)) = 1 := by
    show unpackI (packI 1) = 1
    rw [unpackI_packI]
  have hlength : 20 ≤ (packI 1 ++ packI transaction_id ++ packI interval ++
      (packI 0 ++ packI 0 ++ encodePeersList peers)).length := by
    simp only [List.length_append, packI_length]
    omega
  rw [parseResponse, haction, if_neg (Nat.not_lt.mpr ((by decide : 8 ≤ 20).trans hlength)), if_neg (by decide),
    if_pos (by decide), if_pos hlength]
  show some (TrackerResponse.mk .announce (unpackI (packI transaction_id)) none
    (some (unpackI (packI interval))) (some (unpackI (packI 0))) (some (unpackI (packI 0)))
    (some (parsePeers (encodePeersList peers))) none none none none) = _
  rw [unpackI_packI, unpackI_packI, unpackI_packI]

theorem stopped_iff (event : TrackerEvent) : (event.value == 3) = false ↔ event ≠ .stopped := by
  cases event <;> decide

/-- A peer is told by its pair. -/
theorem pair_injective : Function.Injective fun peer => (peerOf peer).pair := by
  intro peer peer' h
  obtain ⟨hip, hport⟩ := Prod.mk.inj h
  exact Peer.key_injective (Prod.ext hip (congrArg Int.ofNat hport))

/-- The server holds the peers that have announced a hash lately, once the hash is announced. -/
theorem mem_keys_iff_announced {earlier : List Announce} {a : Announce}
    (htimes : (earlier ++ [a]).Pairwise fun x y => x.time ≤ y.time) (peer : Peer) :
    peer ∈ (storeOf (post 3600 (receiveAll earlier).torrents a.note) a.info_hash).keys ↔
      Announced (earlier ++ [a]) a.info_hash a.time (peerOf peer).pair := by
  have hnotes : (earlier ++ [a]).reverse.map Announce.note =
      a.note :: earlier.reverse.map Announce.note := by
    rw [List.reverse_append, List.map_append]
    rfl
  have hordered : (a.note :: earlier.reverse.map Announce.note).Pairwise
      fun later earlier => earlier.time ≤ later.time := by
    rw [← hnotes, List.pairwise_map, List.pairwise_reverse]
    exact htimes
  have hkeys : peer ∈ _ ↔ _ := mem_keys_posted_iff (3600 : Time) hordered
  rw [posted, List.foldr_cons, ← posted, ← receiveAll_torrents] at hkeys
  refine hkeys.trans ?_
  rw [← hnotes, seenSince_map, seenSince_reverse, Announced]
  have hpair (a' : Announce) : a'.note.member = peer ↔ a'.pair = (peerOf peer).pair :=
    pair_injective.eq_iff.symm
  have hleaves (a' : Announce) : a'.note.leaves = false ↔ a'.event ≠ .stopped :=
    stopped_iff a'.event
  simp only [hpair, hleaves, and_imp]
  rfl

/-- The answer to an announce has, as the client reads it, exactly the pairs that have announced the
same hash within the last hour and have not stopped since, each of them once. -/
def AnswerAgrees (earlier : List Announce) (a : Announce) : Prop :=
  ∃ data response peers, (receive (receiveAll earlier) a).2 = some data ∧
    parseResponse data = some response ∧ response.action = .announce ∧
    response.transaction_id = a.transaction_id ∧ response.peers = some peers ∧
    (peers.map TrackerPeer.pair).Nodup ∧
    ∀ pair, pair ∈ peers.map TrackerPeer.pair ↔
      Announced (earlier ++ [a]) a.info_hash a.time pair

/-- Client and server agree about every announce. -/
theorem answerAgrees_of_ordered (earlier : List Announce) (a : Announce)
    (htimes : (earlier ++ [a]).Pairwise fun x y => x.time ≤ y.time) : AnswerAgrees earlier a := by
  have hmem := mem_keys_iff_announced htimes
  have hvalid : ∀ peer ∈ (storeOf (post 3600 (receiveAll earlier).torrents a.note)
      a.info_hash).keys, peer.ip.1 ≠ [0, 0, 0, 0] ∧ peer.port ≠ 0 := by
    intro peer hpeer
    obtain ⟨_, a', _, -, ⟨-, hpair⟩, -⟩ := (hmem peer).mp hpeer
    have hpeer' : a'.note.member = peer := pair_injective hpair
    rw [← hpeer']
    exact ⟨a'.ip.2.2, a'.port.2⟩
  have hpairs : ((storeOf (post 3600 (receiveAll earlier).torrents a.note) a.info_hash).keys.map
      peerOf).map TrackerPeer.pair = (storeOf (post 3600 (receiveAll earlier).torrents a.note)
        a.info_hash).keys.map fun peer => (peerOf peer).pair := List.map_map
  refine ⟨_, _, _, by rw [receive_eq], parseResponse_answer _ _ _, rfl, rfl, rfl, ?_, fun pair => ?_⟩
  · rw [parsePeers_encode hvalid, hpairs]
    exact (Dict.nodup_keys _).map pair_injective
  · rw [parsePeers_encode hvalid, hpairs, List.mem_map]
    constructor
    · rintro ⟨peer, hpeer, rfl⟩
      exact (hmem peer).mp hpeer
    · intro h
      obtain ⟨_, a', _, -, ⟨-, hpair⟩, -⟩ := id h
      refine ⟨a'.note.member, (hmem _).mpr ?_, hpair⟩
      rwa [show (peerOf a'.note.member).pair = pair from hpair]

/-- A client announces that it has started. -/
def started : Announce where
  ip := ⟨[10, 0, 0, 1], by decide⟩
  connection_id := 7
  transaction_id := 1
  info_hash := ⟨List.replicate 20 1, by decide⟩
  our_peer_id := ascii "-CC0101-xxxxxxxxxxxx"
  downloaded := 0
  left := 100
  uploaded := 0
  event := .started
  port := ⟨6881, by decide⟩
  time := 0

/-- Another client announces two hours later. -/
def answered : Announce := { started with ip := ⟨[10, 0, 0, 2], by decide⟩, time := 7200 }

theorem answerAgrees_answered : AnswerAgrees [started] answered :=
  answerAgrees_of_ordered [started] answered (by decide +kernel)

end Agreement

end Ccbt.UdpTracker
