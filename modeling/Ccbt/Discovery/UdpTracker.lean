import Ccbt.Core.Torrent
import Ccbt.Discovery.Announce
import Ccbt.Python.Dict
import Ccbt.Python.Bytes
import Ccbt.Transition.Run

/-!
# The UDP tracker client

Messages and pending requests of `discovery/tracker_udp_client.py`. All requests to all trackers
share one socket, one table of futures and one counter. A request takes its transaction id before it
is sent, and its future stands in the table from the time it is waited for. The trackers of a torrent
are found in its announce list, which must be a list of tiers.
-/

namespace Ccbt.UdpTracker

open Python Transition

section Messages

inductive TrackerAction
  | connect
  | announce
  | scrape
  | error
deriving DecidableEq

def TrackerAction.value : TrackerAction → UInt32
  | .connect => 0
  | .announce => 1
  | .scrape => 2
  | .error => 3

inductive TrackerEvent
  | none
  | completed
  | started
  | stopped
deriving DecidableEq

def TrackerEvent.value : TrackerEvent → UInt32
  | .none => 0
  | .completed => 1
  | .started => 2
  | .stopped => 3

structure TrackerPeer where
  ip : Str
  port : Nat
  peer_source : Str := "tracker".toList
deriving DecidableEq

structure TrackerResponse where
  action : TrackerAction
  transaction_id : UInt32
  connection_id : Option Nat := none
  interval : Option UInt32 := none
  leechers : Option UInt32 := none
  seeders : Option UInt32 := none
  peers : Option (List TrackerPeer) := none
  error_message : Option Str := none
  complete : Option UInt32 := none
  downloaded : Option UInt32 := none
  incomplete : Option UInt32 := none

/-- One peer of six octets. The parts of such an address are always numbers up to 255. -/
def parsePeer (peer_bytes : Bytes) : Option TrackerPeer :=
  let ip := Discovery.dotted (peer_bytes.take 4)
  let port := ofBigEndian (peer_bytes.drop 4)
  if ip ≠ "0.0.0.0".toList ∧ 1 ≤ port ∧ port ≤ 65535 then some { ip, port } else none

/-- What is left at the end is too short for a peer and is skipped. -/
def parsePeers (peer_data : Bytes) : List TrackerPeer :=
  ((pieces 6 peer_data).filter fun peer_bytes => peer_bytes.length = 6).filterMap parsePeer

def actionOf (data : Bytes) : UInt32 := unpackI (data.take 4)

def transactionIdOf (data : Bytes) : UInt32 := unpackI ((data.drop 4).take 4)

def unpackAt (data : Bytes) (i : Nat) : UInt32 := unpackI ((data.drop i).take 4)

/-- What `handle_response` sets as the result of a future, where it sets one. -/
def parseResponse (data : Bytes) : Option TrackerResponse :=
  let transaction_id := transactionIdOf data
  if data.length < 8 then none
  else if actionOf data = TrackerAction.connect.value then
    if 16 ≤ data.length then some {
      action := .connect
      transaction_id
      connection_id := some (ofBigEndian ((data.drop 8).take 8)) }
    else none
  else if actionOf data = TrackerAction.announce.value then
    if 20 ≤ data.length then some {
      action := .announce
      transaction_id
      interval := some (unpackAt data 8)
      leechers := some (unpackAt data 12)
      seeders := some (unpackAt data 16)
      peers := some (parsePeers (data.drop 20)) }
    else none
  else if actionOf data = TrackerAction.scrape.value then
    if 20 ≤ data.length then some {
      action := .scrape
      transaction_id
      complete := some (unpackAt data 8)
      downloaded := some (unpackAt data 12)
      incomplete := some (unpackAt data 16) }
    else none
  else if actionOf data = TrackerAction.error.value then some {
    action := .error
    transaction_id
    error_message := some (utf8DecodeIgnore (data.drop 8)) }
  else none

/-- A datagram has a known action and is as long as the action asks for. -/
def Complete (data : Bytes) : Prop :=
  (actionOf data = TrackerAction.connect.value ∧ 16 ≤ data.length) ∨
    (actionOf data = TrackerAction.announce.value ∧ 20 ≤ data.length) ∨
    (actionOf data = TrackerAction.scrape.value ∧ 20 ≤ data.length) ∨
    (actionOf data = TrackerAction.error.value ∧ 8 ≤ data.length)

/-- A datagram gives a result if and only if it is complete, and the result has its action and its
transaction id. -/
theorem parseResponse_cases (data : Bytes) :
    (Complete data ∧ ∃ response, parseResponse data = some response ∧
      response.action.value = actionOf data ∧ response.transaction_id = transactionIdOf data) ∨
    (¬Complete data ∧ parseResponse data = none) := by
  rw [parseResponse, Complete]
  by_cases hshort : data.length < 8
  · rw [if_pos hshort]
    refine .inr ⟨?_, rfl⟩
    omega
  rw [if_neg hshort]
  by_cases hconnect : actionOf data = TrackerAction.connect.value
  · rw [if_pos hconnect, hconnect]
    split
    · exact .inl ⟨.inl ⟨rfl, ‹_›⟩, _, rfl, rfl, rfl⟩
    · exact .inr ⟨by simp [TrackerAction.value, *], rfl⟩
  rw [if_neg hconnect]
  by_cases hannounce : actionOf data = TrackerAction.announce.value
  · rw [if_pos hannounce, hannounce]
    split
    · exact .inl ⟨.inr (.inl ⟨rfl, ‹_›⟩), _, rfl, rfl, rfl⟩
    · exact .inr ⟨by simp [TrackerAction.value, *], rfl⟩
  rw [if_neg hannounce]
  by_cases hscrape : actionOf data = TrackerAction.scrape.value
  · rw [if_pos hscrape, hscrape]
    split
    · exact .inl ⟨.inr (.inr (.inl ⟨rfl, ‹_›⟩)), _, rfl, rfl, rfl⟩
    · exact .inr ⟨by simp [TrackerAction.value, *], rfl⟩
  rw [if_neg hscrape]
  by_cases herror : actionOf data = TrackerAction.error.value
  · rw [if_pos herror, herror]
    exact .inl ⟨.inr (.inr (.inr ⟨rfl, Nat.not_lt.mp hshort⟩)), _, rfl, rfl, rfl⟩
  · rw [if_neg herror]
    exact .inr ⟨by simp [*], rfl⟩

end Messages

section Requests

abbrev Address := Str × Nat

/-- The calls that wait for an answer. -/
inductive Kind
  | connect
  | announce
  | scrape
deriving DecidableEq

def Kind.action : Kind → TrackerAction
  | .connect => .connect
  | .announce => .announce
  | .scrape => .scrape

structure Request where
  kind : Kind
  address : Address
  transaction_id : Nat
deriving DecidableEq

inductive Phase
  /-- In front of `_wait_for_response`. -/
  | sending
  /-- The future is not done. -/
  | waiting
  /-- The future has a result or has been cancelled, and the request goes on later. -/
  | done
  | over
deriving DecidableEq

/-- A future has been given its result. -/
structure Completion where
  request : Nat
  data : Bytes
  address : Address

/-- Requests, and with them their futures, are known by their numbers. -/
structure Client where
  socket_ready : Bool := true
  transaction_counter : Nat := 0
  pending_requests : Dict Nat Nat := .empty
  requests : List Request := []
  phases : List Phase := []
  completions : List Completion := []

def Client.getTransactionId (c : Client) : Nat := (c.transaction_counter + 1) % 65536

def Client.setPhase (c : Client) (request : Nat) (phase : Phase) : Client :=
  { c with phases := c.phases.set request phase }

def Client.wait (c : Client) (request : Nat) : Client :=
  match c.requests[request]?, c.phases[request]? with
  | some r, some .sending =>
    { c.setPhase request .waiting with
      pending_requests := c.pending_requests.set r.transaction_id request }
  | _, _ => c

/-- The request whose future a datagram is for, if the future is not done. -/
def Client.awaiting (c : Client) (data : Bytes) : Option Nat :=
  if c.socket_ready = true ∧ 8 ≤ data.length then
    (c.pending_requests.get? (transactionIdOf data).toNat).filter fun request =>
      c.phases[request]? = some .waiting
  else none

/-- `handle_response`. The address is not looked at. -/
def Client.handleResponse (c : Client) (data : Bytes) (address : Address) : Client :=
  match c.awaiting data, parseResponse data with
  | some request, some _ =>
    { c.setPhase request .done with completions := ⟨request, data, address⟩ :: c.completions }
  | _, _ => c

def Client.timeout (c : Client) (request : Nat) : Client :=
  if c.phases[request]? = some .waiting then c.setPhase request .done else c

/-- The request goes on behind its future: `self.pending_requests.pop(transaction_id, None)` -/
def Client.resume (c : Client) (request : Nat) : Client :=
  match c.requests[request]?, c.phases[request]? with
  | some r, some .done =>
    { c.setPhase request .over with pending_requests := c.pending_requests.erase r.transaction_id }
  | _, _ => c

/-- The futures in the table are cancelled. -/
def Client.stop (c : Client) : Client := c.pending_requests.values.foldl Client.timeout c

inductive Event
  | request (kind : Kind) (address : Address)
  | wait (request : Nat)
  | datagram (data : Bytes) (address : Address)
  | timeout (request : Nat)
  | resume (request : Nat)
  | stop
  | socket (ready : Bool)

def step (c : Client) : Event → Client
  | .request kind address =>
    { c with
      transaction_counter := c.getTransactionId
      requests := c.requests ++ [{ kind, address, transaction_id := c.getTransactionId }]
      phases := c.phases ++ [.sending] }
  | .wait request => c.wait request
  | .datagram data address => c.handleResponse data address
  | .timeout request => c.timeout request
  | .resume request => c.resume request
  | .stop => c.stop
  | .socket ready => { c with socket_ready := ready }

/-- A datagram comes from the tracker of a request and has its action, or is an error. -/
def Answers (r : Request) (data : Bytes) (address : Address) : Prop :=
  address = r.address ∧
    (actionOf data = r.kind.action.value ∨ actionOf data = TrackerAction.error.value)

/-- A request is completed only by a datagram that comes from its tracker, carries its transaction
id, and has its action or is an error. -/
def Sound (c : Client) : Prop := ∀ completion ∈ c.completions, ∃ r,
  c.requests[completion.request]? = some r ∧
    (transactionIdOf completion.data).toNat = r.transaction_id ∧
    Answers r completion.data completion.address

/-- A complete datagram with the transaction id of a request that waits is an answer to it. -/
def Meets (c : Client) : Event → Prop
  | .datagram data address => Complete data → ∀ request r, c.awaiting data = some request →
      c.requests[request]? = some r → Answers r data address
  | _ => True

end Requests

section Runs

variable {c : Client}

/-- The requests in the table stand under their transaction ids. -/
def Keyed (c : Client) : Prop := ∀ transaction_id request,
  c.pending_requests.get? transaction_id = some request →
    ∃ r, c.requests[request]? = some r ∧ r.transaction_id = transaction_id

theorem awaiting_spec (h : Keyed c) {data : Bytes} {request : Nat}
    (hawaiting : c.awaiting data = some request) :
    ∃ r, c.requests[request]? = some r ∧ r.transaction_id = (transactionIdOf data).toNat := by
  rw [Client.awaiting] at hawaiting
  split at hawaiting
  · exact h _ request (Option.filter_eq_some_iff.mp hawaiting).1
  · cases hawaiting

/-- What a datagram does to the client, in two cases. -/
theorem handleResponse_cases (c : Client) (data : Bytes) (address : Address) :
    (Complete data ∧ ∃ request, c.awaiting data = some request ∧ c.handleResponse data address =
      { c.setPhase request .done with
        completions := ⟨request, data, address⟩ :: c.completions }) ∨
    ((Complete data → c.awaiting data = none) ∧ c.handleResponse data address = c) := by
  rw [Client.handleResponse]
  rcases parseResponse_cases data with ⟨hcomplete, response, hparse, -⟩ | ⟨hnot, hparse⟩
  · cases hawaiting : c.awaiting data with
    | none => exact .inr ⟨fun _ => rfl, rfl⟩
    | some request =>
      rw [hparse]
      exact .inl ⟨hcomplete, request, rfl, rfl⟩
  · rw [hparse]
    refine .inr ⟨fun hcomplete => absurd hcomplete hnot, ?_⟩
    cases c.awaiting data <;> rfl

structure Same (c c' : Client) : Prop where
  pending_requests : c'.pending_requests = c.pending_requests
  requests : c'.requests = c.requests
  completions : c'.completions = c.completions

theorem same_timeout (c : Client) (request : Nat) : Same c (c.timeout request) := by
  rw [Client.timeout]
  split <;> exact ⟨rfl, rfl, rfl⟩

theorem same_stop (c : Client) : Same c c.stop := by
  have hstep (c' : Client) (request : Nat) (h : Same c c') : Same c (c'.timeout request) := by
    have h' := same_timeout c' request
    exact ⟨h'.pending_requests.trans h.pending_requests, h'.requests.trans h.requests,
      h'.completions.trans h.completions⟩
  exact run_of_invariant hstep ⟨rfl, rfl, rfl⟩ _

theorem Same.keyed {c' : Client} (hsame : Same c c') (h : Keyed c) : Keyed c' := by
  rw [Keyed, hsame.pending_requests, hsame.requests]
  exact h

theorem keyed_wait (h : Keyed c) (request : Nat) : Keyed (c.wait request) := by
  rw [Client.wait]
  split
  · rename_i r hr _
    intro transaction_id request' hget
    replace hget : (c.pending_requests.set r.transaction_id request).get? transaction_id =
      some request' := hget
    rw [Dict.get?_set] at hget
    split at hget
    · cases hget
      exact ⟨r, hr, Eq.symm ‹_›⟩
    · exact h transaction_id request' hget
  · exact h

theorem keyed_resume (h : Keyed c) (request : Nat) : Keyed (c.resume request) := by
  rw [Client.resume]
  split
  · rename_i r _ _
    intro transaction_id request' hget
    replace hget : (c.pending_requests.erase r.transaction_id).get? transaction_id =
      some request' := hget
    rw [Dict.get?_erase] at hget
    split at hget
    · cases hget
    · exact h transaction_id request' hget
  · exact h

/-- A request keeps its number. -/
theorem getElem?_later {requests more : List Request} {i : Nat} {r : Request}
    (h : requests[i]? = some r) : (requests ++ more)[i]? = some r := by
  rw [List.getElem?_append_left (List.getElem?_eq_some_iff.mp h).1, h]

theorem keyed_step (h : Keyed c) (e : Event) : Keyed (step c e) := by
  cases e with
  | request kind address =>
    intro transaction_id request hget
    obtain ⟨r, hr, hid⟩ := h transaction_id request hget
    exact ⟨r, getElem?_later hr, hid⟩
  | wait request => exact keyed_wait h request
  | datagram data address =>
    rcases handleResponse_cases c data address with ⟨-, request, -, hstep⟩ | ⟨-, hstep⟩
    · exact (congrArg Keyed hstep).mpr h
    · exact (congrArg Keyed hstep).mpr h
  | timeout request => exact (same_timeout c request).keyed h
  | resume request => exact keyed_resume h request
  | stop => exact (same_stop c).keyed h
  | socket ready => exact h

/-- Requests stay as they are. -/
theorem Sound.mono {c' : Client} (h : Sound c) (hcompletions : c'.completions = c.completions)
    (hrequests : ∀ (i : Nat) (r : Request), c.requests[i]? = some r → c'.requests[i]? = some r) :
    Sound c' := by
  intro completion hmem
  rw [hcompletions] at hmem
  obtain ⟨r, hr, hanswer⟩ := h completion hmem
  exact ⟨r, hrequests _ r hr, hanswer⟩

/-- A datagram is what completes a request, and it does so soundly if and only if it answers it. -/
theorem sound_datagram_iff (h : Sound c) (hkeyed : Keyed c) (data : Bytes) (address : Address) :
    Sound (c.handleResponse data address) ↔ Meets c (.datagram data address) := by
  rcases handleResponse_cases c data address with
    ⟨hcomplete, request, hawaiting, hstep⟩ | ⟨hnone, hstep⟩
  · obtain ⟨r, hr, hid⟩ := awaiting_spec hkeyed hawaiting
    rw [hstep, Meets, forall_prop_of_true hcomplete]
    constructor
    · intro hsound request' r' hawaiting' hr'
      cases hawaiting.symm.trans hawaiting'
      obtain ⟨r'', hr'', -, hanswer⟩ := hsound _ List.mem_cons_self
      cases hr'.symm.trans hr''
      exact hanswer
    · intro hanswers
      exact List.forall_mem_cons.mpr ⟨⟨r, hr, hid.symm, hanswers request r hawaiting hr⟩, h⟩
  · rw [hstep]
    refine iff_of_true h fun hcomplete request r hawaiting => ?_
    rw [hnone hcomplete] at hawaiting
    cases hawaiting

theorem sound_step_iff (h : Sound c) (hkeyed : Keyed c) (e : Event) :
    Sound (step c e) ↔ Meets c e := by
  cases e with
  | request kind address =>
    exact iff_of_true (h.mono rfl fun i r hr => getElem?_later hr) trivial
  | wait request =>
    refine iff_of_true ?_ trivial
    rw [step, Client.wait]
    split <;> exact h
  | datagram data address => exact sound_datagram_iff h hkeyed data address
  | timeout request =>
    have hsame := same_timeout c request
    exact iff_of_true (h.mono hsame.completions fun i r hr => hsame.requests ▸ hr) trivial
  | resume request =>
    refine iff_of_true ?_ trivial
    rw [step, Client.resume]
    split <;> exact h
  | stop =>
    have hsame := same_stop c
    exact iff_of_true (h.mono hsame.completions fun i r hr => hsame.requests ▸ hr) trivial
  | socket ready => exact iff_of_true h trivial

/-- Requests are completed by their own answers throughout a run exactly if every complete datagram
with the transaction id of a waiting request is an answer to it. -/
theorem always_sound_iff_answers (events : List Event) :
    Always step Sound {} events ↔ StepsMeet step Meets {} events :=
  always_iff_stepsMeet_of (fun _ (h : Sound _ ∧ Keyed _) => h.1)
    (fun _ e h hsound => (sound_step_iff h.1 h.2 e).mp hsound)
    (fun _ e h hmeets => ⟨(sound_step_iff h.1 h.2 e).mpr hmeets, keyed_step h.2 e⟩)
    ⟨by simp [Sound], nofun⟩

/-- A connect is answered by somebody else. -/
def spoofed : List Event :=
  [.request .connect ("10.0.0.1".toList, 6969), .wait 0,
    .datagram [0, 0, 0, 0, 0, 0, 0, 1, 1, 2, 3, 4, 5, 6, 7, 8] ("10.0.0.2".toList, 1234)]

theorem not_always_sound_spoofed : ¬Always step Sound {} spoofed := by
  intro h
  obtain ⟨r, hr, -, haddress, -⟩ := always_iff_take.mp h 3
    ⟨0, [0, 0, 0, 0, 0, 0, 0, 1, 1, 2, 3, 4, 5, 6, 7, 8], ("10.0.0.2".toList, 1234)⟩
    (List.mem_singleton.mpr rfl)
  cases hr
  revert haddress
  decide

end Runs

section TrackerUrls

/-- An item of `announce_list`: a tier, or a text. -/
inductive AnnounceItem
  | tier (urls : List Str)
  | text (url : Str)
deriving DecidableEq

/-- `for url in tier`: a text is iterated over by its characters. -/
def AnnounceItem.iterate : AnnounceItem → List Str
  | tier urls => urls
  | text url => url.map fun c => [c]

/-- What is said about a torrent. Keys may be missing, and `announce_list` may be `None`. -/
structure TorrentData where
  announce : Option Str := none
  announce_list : Option (Option (List AnnounceItem)) := none
  info_hash : Bytes
  name : Str := []
  is_magnet : Bool := false

/-- `TorrentInfo.model_dump()`, as far as trackers go. -/
def modelDump (torrent : Torrent.TorrentInfo) : TorrentData where
  announce := some torrent.announce
  announce_list := some (torrent.announceList.map fun tiers => tiers.map AnnounceItem.tier)
  info_hash := torrent.infoHash
  name := torrent.name

def buildMinimalTorrentData (info_hash : Bytes) (name : Option Str) (trackers : List Str) :
    TorrentData where
  announce := some (trackers.headD [])
  announce_list := some (some (trackers.map AnnounceItem.text))
  info_hash := info_hash
  name := name.getD []
  is_magnet := true

def isUdp (url : Str) : Bool := "udp://".toList.isPrefixOf url

/-- `_extract_tracker_urls`, or `none` where it raises `TypeError`. -/
def extractTrackerUrls (torrent_data : TorrentData) : Option (List Str) :=
  let urls := torrent_data.announce.toList.filter isUdp
  match torrent_data.announce_list with
  | none => some urls
  | some none => none
  | some (some announce_list) =>
    some (urls ++ (announce_list.flatMap AnnounceItem.iterate).filter isUdp)

/-- The UDP trackers among those that are given are found, each of them once, and no others. -/
def FindsOnce (found : Option (List Str)) (trackers : List Str) : Prop :=
  ∃ urls, found = some urls ∧ urls.Nodup ∧ ∀ url, url ∈ urls ↔ url ∈ trackers ∧ isUdp url

def trackersOf (torrent : Torrent.TorrentInfo) : List Str :=
  torrent.announce :: (torrent.announceList.getD []).flatten

/-- One character is no URL. -/
theorem not_isUdp_singleton (c : Char) : isUdp [c] = false := by
  show ('u' == c && List.isPrefixOf ['d', 'p', ':', '/', '/'] []) = false
  exact Bool.and_false _

/-- With the tiers of a torrent file all UDP trackers are found, as often as they are given. -/
theorem extractTrackerUrls_modelDump (torrent : Torrent.TorrentInfo) :
    extractTrackerUrls (modelDump torrent) =
      torrent.announceList.map fun _ => (trackersOf torrent).filter isUdp := by
  rw [extractTrackerUrls, modelDump, trackersOf]
  cases torrent.announceList with
  | none => rfl
  | some tiers =>
    have hiterate : (tiers.map AnnounceItem.tier).flatMap AnnounceItem.iterate = tiers.flatten := by
      rw [List.flatMap_map]
      exact List.flatMap_id
    show some ([torrent.announce].filter isUdp ++ _) = some (List.filter isUdp (_ :: _))
    rw [hiterate, ← List.filter_append]
    rfl

/-- With the flat list of a magnet link no tracker is found but the first. -/
theorem extractTrackerUrls_buildMinimal (info_hash : Bytes) (name : Option Str)
    (trackers : List Str) : extractTrackerUrls (buildMinimalTorrentData info_hash name trackers) =
      some (trackers.head?.toList.filter isUdp) := by
  have hnone : ((trackers.map AnnounceItem.text).flatMap AnnounceItem.iterate).filter isUdp = [] := by
    rw [List.filter_eq_nil_iff]
    intro url hurl
    obtain ⟨item, hitem, hurl⟩ := List.mem_flatMap.mp hurl
    obtain ⟨tracker, -, rfl⟩ := List.mem_map.mp hitem
    obtain ⟨c, -, rfl⟩ := List.mem_map.mp hurl
    rw [not_isUdp_singleton]
    exact Bool.false_ne_true
  show some ([trackers.headD []].filter isUdp ++ _) = _
  rw [hnone, List.append_nil]
  cases trackers with
  | nil => rfl
  | cons tracker trackers => rfl

/-- Each UDP tracker of a torrent file is found once if and only if there is an announce list and
no UDP tracker is given twice; each of a magnet link if and only if they are all the same as the
first tracker. -/
theorem findsOnce_iff (torrent : Torrent.TorrentInfo) (info_hash : Bytes) (name : Option Str)
    (trackers : List Str) :
    (FindsOnce (extractTrackerUrls (modelDump torrent)) (trackersOf torrent) ↔
      torrent.announceList ≠ none ∧ ((trackersOf torrent).filter isUdp).Nodup) ∧
    (FindsOnce (extractTrackerUrls (buildMinimalTorrentData info_hash name trackers)) trackers ↔
      ∀ url ∈ trackers, isUdp url → trackers.head? = some url) := by
  constructor
  · rw [extractTrackerUrls_modelDump, FindsOnce]
    cases torrent.announceList with
    | none => simp
    | some tiers =>
      simp only [Option.map_some, Option.some.injEq, exists_eq_left', List.mem_filter, implies_true,
        and_true, ne_eq, reduceCtorEq, not_false_eq_true, true_and]
  · rw [extractTrackerUrls_buildMinimal, FindsOnce]
    simp only [Option.some.injEq, exists_eq_left', List.mem_filter, Option.mem_toList]
    constructor
    · rintro ⟨-, hfound⟩ url hurl hudp
      exact ((hfound url).mpr ⟨hurl, hudp⟩).1
    · intro hfirst
      refine ⟨?_, fun url => ⟨fun hurl => ⟨List.mem_of_mem_head? hurl.1, hurl.2⟩,
        fun hurl => ⟨hfirst url hurl.1 hurl.2, hurl.2⟩⟩⟩
      cases trackers.head? with
      | none => exact List.nodup_nil
      | some tracker => exact (List.nodup_singleton tracker).filter _

/-- The second tracker of a magnet link is not found. -/
theorem not_findsOnce_two : ¬FindsOnce
    (extractTrackerUrls (buildMinimalTorrentData (List.replicate 20 0) none
      ["udp://a:80".toList, "udp://b:80".toList]))
    ["udp://a:80".toList, "udp://b:80".toList] := by
  rintro ⟨urls, hfound, -, hall⟩
  have hurls : urls = ["udp://a:80".toList] := (Option.some.inj hfound).symm
  have hsecond := (hall "udp://b:80".toList).mpr (by decide)
  rw [hurls] at hsecond
  revert hsecond
  decide

end TrackerUrls

end Ccbt.UdpTracker
