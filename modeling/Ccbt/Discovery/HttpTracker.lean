import Ccbt.Core.Bencode.Canonical
import Ccbt.Core.Bencode.Equality
import Ccbt.Core.Torrent
import Ccbt.Discovery.Pex
import Ccbt.Expiry.Board
import Ccbt.Python.Urllib
import Mathlib.Algebra.Order.Ring.Rat
import Mathlib.Data.List.TakeWhile

/-!
# The HTTP tracker and its client

`AnnounceHandler` of `discovery/tracker_server_http.py` on requests for `/announce`, and the requests
and the reading of answers in `discovery/tracker.py`. The base URL is the address of the tracker with
the path `/announce` and no query. Floats are rational numbers, and an address is its four octets,
which `inet_aton` makes of it.

The server reads the hash twice: `parse_qs` decodes the parameter into text, where octets that are not
UTF-8 are replaced, and `unquote_to_bytes` decodes the text again. So different hashes may become one,
and a hash may become another one. And it stores a port of any size, which no answer can hold.
-/

namespace Ccbt.HttpTracker

open Python Expiry Bencode Torrent Pex

abbrev Time := Rat

abbrev Octets := { octets : Bytes // octets.length = 4 }

section Server

/-- `(ip, port)`. The port may be any number. -/
abbrev PeerKey := Octets × Int

structure InMemoryTrackerStore where
  torrents : Board Time PeerKey Bytes := .empty
  interval : Int := 1800

/-- The limit of `int()`. -/
def max_str_digits : Nat := 4300

/-- What `do_GET` catches. -/
inductive Failure
  | missing
  | notInt (port_str : Str)
  | tooLong (digits : Nat)
  | overflow (port : Int)

def Failure.text : Failure → Str
  | .missing => "missing info_hash or peer_id".toList
  | .notInt port_str =>
    "invalid literal for int() with base 10: ".toList ++ PyObj.reprStr port_str
  | .tooLong digits =>
    "Exceeds the limit (".toList ++ strInt max_str_digits ++
      " digits) for integer string conversion: value has ".toList ++ strInt digits ++
      " digits; use sys.set_int_max_str_digits() to increase the limit".toList
  | .overflow port =>
    if port < 0 then "can't convert negative int to unsigned".toList
    else "int too big to convert".toList

/-- `peer_port.to_bytes(2, "big")` behind the address. -/
def compactPeer (peer : PeerKey) : Except Failure Bytes :=
  if 0 ≤ peer.2 ∧ peer.2 < 65536 then .ok (peer.1 ++ bigEndian 2 peer.2.toNat)
  else .error (.overflow peer.2)

def compactPeers : List PeerKey → Except Failure Bytes
  | [] => .ok []
  | peer :: peers => do
    let head ← compactPeer peer
    let tail ← compactPeers peers
    return head ++ tail

def noteOf (info_hash : Bytes) (peer : PeerKey) (event : Str) (now : Time) :
    Note Time PeerKey Bytes where
  topic := info_hash
  member := peer
  leaves := event == "stopped".toList
  time := now

def InMemoryTrackerStore.announce (store : InMemoryTrackerStore) (info_hash : Bytes)
    (peer : PeerKey) (event : Str) (now : Time) :
    InMemoryTrackerStore × Except Failure (List (Key × PyObj)) :=
  let torrents := post 3600 store.torrents (noteOf info_hash peer event now)
  ({ store with torrents }, do
    let compact ← compactPeers (storeOf torrents info_hash).keys
    return [(.bytes (ascii "interval"), .int store.interval),
      (.bytes (ascii "peers"), .bytes compact)])

/-- The digits and underscores of a literal behind its sign. -/
def digitRun (s : Str) : Str :=
  let unsigned :=
    match strip s with
    | '+' :: s => s
    | '-' :: s => s
    | s => s
  unsigned.takeWhile fun c => c = '_' || (digitValue c).isSome

def parsePort (port_str : Str) : Except Failure Int :=
  let run := digitRun port_str
  let digits := run.countP (· ≠ '_')
  if max_str_digits < digits ∧ (readDigits 0 false run).isSome then .error (.tooLong digits)
  else
    match parseInt port_str with
    | some port => .ok port
    | none => .error (.notInt port_str)

structure Request where
  /-- What stands behind the question mark. -/
  query : Str
  ip : Octets
  time : Time

def Request.parsedQuery (r : Request) : Str := r.query.takeWhile (· ≠ '#')

def Request.param (r : Request) (name : String) : Option Str := queryGet r.parsedQuery name.toList

def Request.event (r : Request) : Str := (r.param "event").getD []

/-- The hash and the port of a request that is not refused. -/
def Request.read (r : Request) : Except Failure (Bytes × Int) :=
  match r.param "info_hash", r.param "peer_id" with
  | some info_hash_enc, some _ => do
    let port ← parsePort ((r.param "port").getD ['0'])
    return (unquoteToBytes (utf8Encode info_hash_enc), port)
  | _, _ => .error .missing

/-- `do_GET`, with the dictionary that is sent. -/
def doGet (store : InMemoryTrackerStore) (r : Request) :
    InMemoryTrackerStore × List (Key × PyObj) :=
  let (store, result) :=
    match r.read with
    | .ok (info_hash, port) => store.announce info_hash (r.ip, port) r.event r.time
    | .error e => (store, .error e)
  match result with
  | .ok response => (store, response)
  | .error e => (store, [(.bytes (ascii "failure reason"), .bytes (utf8Encode e.text))])

def body (response : List (Key × PyObj)) : Bytes :=
  match encode (.dict response) with
  | .ok data => data
  | .error _ => []

/-- The server behind requests. -/
def serveAll (requests : List Request) : InMemoryTrackerStore :=
  requests.foldl (fun store r => (doGet store r).1) {}

end Server

section Client

inductive AnnounceEvent
  | started
  | completed
  | stopped
  | empty
deriving DecidableEq

def AnnounceEvent.text : AnnounceEvent → Str
  | .started => "started".toList
  | .completed => "completed".toList
  | .stopped => "stopped".toList
  | .empty => []

/-- An announce of our clients, at the time at which it arrives. -/
structure Announce where
  info_hash : { hash : Bytes // hash.length = 20 }
  peer_id : { id : Bytes // id.length = 20 }
  port : { port : Nat // 1 ≤ port ∧ port ≤ 65535 }
  uploaded : Int
  downloaded : Int
  left : Int
  event : AnnounceEvent
  ip : Octets
  time : Time

/-- The names and values of `query_parts`. -/
def Announce.fields (a : Announce) : List (Str × Str) :=
  [("info_hash".toList, quote a.info_hash), ("peer_id".toList, quote a.peer_id),
    ("port".toList, strInt a.port), ("uploaded".toList, strInt a.uploaded),
    ("downloaded".toList, strInt a.downloaded), ("left".toList, strInt a.left),
    ("compact".toList, "1".toList)] ++
  if a.event.text = [] then [] else [("event".toList, quoteText a.event.text)]

def Announce.queryString (a : Announce) : Str := ['&'].intercalate (a.fields.map queryField)

/-- `_build_tracker_url` behind the normalisation of the base URL. -/
def buildTrackerUrl (base_url : Str) (a : Announce) : Str :=
  base_url ++ (if '?' ∈ base_url then ['&'] else ['?']) ++ a.queryString

def Announce.request (a : Announce) : Request := { query := a.queryString, ip := a.ip, time := a.time }

structure PeerInfo where
  ip : Str
  port : Nat
deriving DecidableEq

/-- `_parse_compact_peers`, or `none` where it raises. -/
def parseCompactPeers (peers_data : Bytes) : Option (List PeerInfo) :=
  if peers_data.length % 6 ≠ 0 then none
  else some ((pieces 6 peers_data).map fun peer_bytes =>
    { ip := Discovery.dotted (peer_bytes.take 4), port := ofBigEndian (peer_bytes.drop 4) })

def parseDictPeer : PyObj → Option PeerInfo
  | .dict peer_info =>
    match (getKey peer_info "ip").filter truth, (getKey peer_info "port").filter truth with
    | some (.bytes ip), some (.int port) => some { ip := utf8DecodeIgnore ip, port := port.toNat }
    | some (.bytes ip), some (.bytes port) =>
      some { ip := utf8DecodeIgnore ip, port := ofBigEndian port }
    | _, _ => none
  | _ => none

/-- What `PeerInfo` and the client accept. -/
def PeerInfo.valid (peer : PeerInfo) : Bool :=
  1 ≤ peer.port && peer.port ≤ 65535 && peer.ip ≠ []

/-- The peers that `_parse_response_async` returns, or `none` where it raises. The fields that may be
missing are left out; this tracker does not send them. -/
def parseResponse (response_data : Bytes) : Option (List PeerInfo) :=
  match (decode response_data (fuelFor response_data) ⟨0, false⟩).1 with
  | .ok (.dict decoded) =>
    if hasKey decoded "failure reason" then none
    else
      match getKey decoded "interval", getKey decoded "peers" with
      | some (.int interval), some peers_data =>
        if interval < 0 then none
        else
          match peers_data with
          | .bytes data => (parseCompactPeers data).map (List.filter PeerInfo.valid)
          | .list items => some ((items.filterMap parseDictPeer).filter PeerInfo.valid)
          | _ => some []
      | _, _ => none
  | _ => none

end Client

section Announces

/-- The octets of a written parameter, with every percent sign decoded once. The request line is read
as Latin-1. -/
def percentDecoded (raw : Str) : Bytes :=
  unquoteToBytes ((plusToSpace raw).map fun c => c.toNat.toUInt8)

/-- The octets after the second reading. -/
def secondDecoded (raw : Str) : Bytes := unquoteToBytes (utf8Encode (unquote (plusToSpace raw)))

/-- A request that is not refused, with the hash as it is written and the port. -/
structure Request.Accepted (r : Request) (raw : Str) (port : Int) : Prop where
  info_hash : rawGet r.parsedQuery "info_hash".toList = some raw
  peer_id : (r.param "peer_id").isSome
  port : parsePort ((r.param "port").getD ['0']) = .ok port

/-- An address and a port are announced for a hash. -/
def Request.Announces (r : Request) (info_hash : Bytes) (pair : Str × Int) : Prop :=
  ∃ raw port, r.Accepted raw port ∧ percentDecoded raw = info_hash ∧
    (Discovery.dotted r.ip, port) = pair

/-- The requests have announced this pair for this hash within the last hour, and have not stopped it
since. -/
def Announced (requests : List Request) (info_hash : Bytes) (now : Time) (pair : Str × Int) : Prop :=
  ∃ earlier r later, requests = earlier ++ r :: later ∧ r.Announces info_hash pair ∧
    r.event ≠ "stopped".toList ∧ now - 3600 ≤ r.time ∧
    ∀ r' ∈ later, r'.Announces info_hash pair → r'.event ≠ "stopped".toList

def PeerInfo.pair (peer : PeerInfo) : Str × Int := (peer.ip, peer.port)

/-- The answer to an announce has, as the client reads it, exactly the pairs with a valid port that
have announced the same hash within the last hour and have not stopped since. -/
def AnswerAgrees (earlier : List Request) (a : Announce) : Prop :=
  ∃ peers, parseResponse (body (doGet (serveAll earlier) a.request).2) = some peers ∧
    ∀ pair, pair ∈ peers.map PeerInfo.pair ↔ (1 ≤ pair.2 ∧ pair.2 ≤ 65535) ∧
      Announced (earlier ++ [a.request]) a.info_hash a.time pair

/-- Among the requests of the last hour, the hashes that agree with this one after the second reading
are those that are the same, and a peer that is stored with such a hash has a port of two octets. -/
def Meets (earlier : List Request) (a : Announce) : Prop :=
  ∀ r ∈ earlier, a.time - 3600 ≤ r.time → ∀ raw port, r.Accepted raw port →
    (secondDecoded raw = secondDecoded (quote a.info_hash) ↔ percentDecoded raw = a.info_hash) ∧
    (percentDecoded raw = a.info_hash → r.event ≠ "stopped".toList → 0 ≤ port ∧ port < 65536)

end Announces

section Requests

variable (a : Announce)

theorem strInt_plain (n : Int) : PlainText (strInt n) := by
  intro c hc
  obtain ⟨hlow, hhigh⟩ := strInt_bounds hc
  refine ⟨by omega, ?_, ?_, ?_, ?_⟩ <;> rintro rfl <;> revert hlow hhigh <;> decide

theorem strInt_ne_nil (n : Int) : strInt n ≠ [] := by
  rw [strInt]
  split
  · exact List.cons_ne_nil _ _
  · exact Nat.toDigits_ne_nil

theorem quote_twenty_ne_nil (data : { b : Bytes // b.length = 20 }) : quote data.1 ≠ [] :=
  quote_ne_nil (List.ne_nil_of_length_eq_add_one data.2)

/-- What holds for the fields that are always there, and for the one of the event where there is
an event, holds for all of them. -/
theorem forall_mem_fields {P : Str × Str → Prop}
    (hevent : a.event.text ≠ [] → P ("event".toList, quoteText a.event.text))
    (h : ∀ field ∈ [("info_hash".toList, quote a.info_hash), ("peer_id".toList, quote a.peer_id),
      ("port".toList, strInt a.port), ("uploaded".toList, strInt a.uploaded),
      ("downloaded".toList, strInt a.downloaded), ("left".toList, strInt a.left),
      ("compact".toList, "1".toList)], P field) : ∀ field ∈ a.fields, P field := by
  intro field hfield
  rw [Announce.fields, List.mem_append] at hfield
  rcases hfield with hfield | hfield
  · exact h field hfield
  · split at hfield
    · cases hfield
    · next hne =>
      rw [List.mem_singleton.mp hfield]
      exact hevent hne

theorem plainFields : PlainFields a.fields := by
  constructor
  · have hevent : PlainText "event".toList ∧ '%' ∉ "event".toList := by decide
    refine forall_mem_fields a (fun _ => hevent) ?_
    simp only [List.forall_mem_cons]
    refine ⟨?_, ?_, ?_, ?_, ?_, ?_, ?_, List.forall_mem_nil _⟩ <;> decide
  · refine forall_mem_fields a (fun hevent => ⟨quote_plain _, ?_⟩) ?_
    · revert hevent
      cases a.event <;> decide
    · simp only [List.forall_mem_cons]
      exact ⟨⟨quote_plain _, quote_twenty_ne_nil _⟩, ⟨quote_plain _, quote_twenty_ne_nil _⟩,
        ⟨strInt_plain _, strInt_ne_nil _⟩, ⟨strInt_plain _, strInt_ne_nil _⟩,
        ⟨strInt_plain _, strInt_ne_nil _⟩, ⟨strInt_plain _, strInt_ne_nil _⟩, by decide,
        List.forall_mem_nil _⟩

theorem fields_ne_nil : a.fields ≠ [] := by simp [Announce.fields]

/-- The server is asked with what stands behind the first question mark of the URL. -/
theorem query_buildTrackerUrl {base_url : Str} (h : '?' ∉ base_url) :
    ((buildTrackerUrl base_url a).dropWhile (· ≠ '?')).drop 1 = a.request.query := by
  have hbase : ∀ c ∈ base_url, decide (c ≠ '?') = true := by
    intro c hc
    rw [decide_eq_true_eq]
    rintro rfl
    exact h hc
  rw [buildTrackerUrl, if_neg h, List.append_assoc, List.dropWhile_append_of_pos hbase]
  rfl

/-- The whole query is read as query. -/
theorem parsedQuery_request : a.request.parsedQuery = a.queryString := by
  refine List.takeWhile_eq_self_iff.mpr fun c hc => ?_
  exact decide_eq_true ((plainFields a).mem_query hc)

theorem rawGet_request (name : Str) : rawGet a.request.parsedQuery name = a.fields.lookup name := by
  rw [parsedQuery_request, Announce.queryString, (plainFields a).rawGet_eq (fields_ne_nil a)]

theorem param_request (name : String) : a.request.param name =
    (a.fields.lookup name.toList).map fun value => unquote (plusToSpace value) := by
  rw [Request.param, queryGet_eq, rawGet_request]

theorem length_strip_le (s : Str) : (strip s).length ≤ s.length := by
  rw [strip, List.length_reverse]
  refine (List.dropWhile_sublist _).length_le.trans ?_
  rw [List.length_reverse]
  exact (List.dropWhile_sublist _).length_le

theorem length_digitRun_le (s : Str) : (digitRun s).length ≤ s.length := by
  rw [digitRun]
  refine (List.takeWhile_sublist _).length_le.trans (Nat.le_trans ?_ (length_strip_le s))
  split
  · next h => rw [h, List.length_cons]; exact Nat.le_succ _
  · next h => rw [h, List.length_cons]; exact Nat.le_succ _
  · exact le_rfl

/-- A port is read back. -/
theorem parsePort_strInt {port : Nat} (h : port ≤ 65535) : parsePort (strInt port) = .ok port := by
  have hlength : (strInt port).length ≤ 5 := by
    rw [strInt_natCast]
    exact (Nat.length_toDigits_le_iff (by decide) (by decide)).mpr (by omega)
  have hdigits : ¬max_str_digits < (digitRun (strInt port)).countP (· ≠ '_') := by
    have hcount := (List.countP_le_length (p := fun c : Char => decide (c ≠ '_'))).trans
      ((length_digitRun_le (strInt port)).trans hlength)
    exact Nat.not_lt.mpr (hcount.trans (by decide))
  rw [parsePort, if_neg fun hlong => hdigits hlong.1, parseInt_strInt]

/-- Every octet of a hash is there after one reading. -/
theorem percentDecoded_quote (data : Bytes) : percentDecoded (quote data) = data := by
  rw [percentDecoded, plusToSpace_of_plain (quote_plain data),
    ← utf8Encode_of_lt fun c hc => (quote_plain data c hc).1, unquoteToBytes_quote]

theorem unquote_plain {value : Str} (hplain : PlainText value) (hpercent : '%' ∉ value) :
    unquote (plusToSpace value) = value := by
  rw [plusToSpace_of_plain hplain, unquote_of_notMem (fun c hc => (hplain c hc).1) hpercent]

theorem percent_notMem_strInt (n : Int) : '%' ∉ strInt n := fun h =>
  absurd (strInt_bounds h).1 (by decide)

theorem param_port : a.request.param "port" = some (strInt a.port) := by
  have hlookup : a.fields.lookup "port".toList = some (strInt a.port) := rfl
  rw [param_request, hlookup, Option.map_some, unquote_plain (strInt_plain _) (percent_notMem_strInt _)]

theorem event_request : a.request.event = a.event.text := by
  have hlookup : a.fields.lookup "event".toList =
      if a.event.text = [] then none else some (quoteText a.event.text) := by
    rw [Announce.fields]
    split <;> rfl
  rw [Request.event, param_request, hlookup]
  split
  · next hevent => exact hevent.symm
  · rw [Option.map_some, unquote_quoteText, Option.getD_some]

/-- The server takes from an announce what the client has put there. -/
theorem accepted_request : a.request.Accepted (quote a.info_hash.1) a.port where
  info_hash := by
    rw [rawGet_request]
    rfl
  peer_id := by
    have hlookup : a.fields.lookup "peer_id".toList = some (quote a.peer_id.1) := rfl
    rw [param_request, hlookup]
    rfl
  port := by
    rw [param_port]
    exact parsePort_strInt a.port.2.2

end Requests

section Notes

variable {r : Request}

theorem Request.Accepted.unique {raw raw' : Str} {port port' : Int} (h : r.Accepted raw port)
    (h' : r.Accepted raw' port') : raw = raw' ∧ port = port' :=
  ⟨Option.some.inj (h.info_hash.symm.trans h'.info_hash),
    Except.ok.inj (h.port.symm.trans h'.port)⟩

/-- The server stores what it reads twice. -/
theorem Request.Accepted.read_eq {raw : Str} {port : Int} (h : r.Accepted raw port) :
    r.read = .ok (secondDecoded raw, port) := by
  obtain ⟨peer_id, hpeer⟩ := Option.isSome_iff_exists.mp h.peer_id
  have hhash : r.param "info_hash" = some (unquote (plusToSpace raw)) := by
    rw [Request.param, queryGet_eq, h.info_hash, Option.map_some]
  rw [Request.read, hhash, hpeer]
  simp only [h.port]
  rfl

theorem exists_accepted_of_read {hash : Bytes} {port : Int} (h : r.read = .ok (hash, port)) :
    ∃ raw, r.Accepted raw port ∧ secondDecoded raw = hash := by
  rw [Request.read] at h
  split at h
  · next info_hash_enc peer_id hhash hpeer =>
    obtain ⟨port', hport, hread⟩ := bind_eq_ok h
    cases hread
    rw [Request.param, queryGet_eq] at hhash
    obtain ⟨raw, hraw, rfl⟩ := Option.map_eq_some_iff.mp hhash
    exact ⟨raw, ⟨hraw, by rw [hpeer]; rfl, hport⟩, rfl⟩
  · cases h

/-- What the server stores for a request. -/
def Request.note (r : Request) : Option (Note Time PeerKey Bytes) :=
  match r.read with
  | .ok (info_hash, port) => some (noteOf info_hash (r.ip, port) r.event r.time)
  | .error _ => none

theorem note_eq_some_iff {note : Note Time PeerKey Bytes} : r.note = some note ↔
    ∃ raw port, r.Accepted raw port ∧
      noteOf (secondDecoded raw) (r.ip, port) r.event r.time = note := by
  constructor
  · intro h
    rw [Request.note] at h
    split at h
    · next hread =>
      obtain ⟨raw, haccepted, rfl⟩ := exists_accepted_of_read hread
      exact ⟨raw, _, haccepted, Option.some.inj h⟩
    · cases h
  · rintro ⟨raw, port, haccepted, rfl⟩
    rw [Request.note, haccepted.read_eq]

theorem note_request (a : Announce) : a.request.note = some (noteOf
    (secondDecoded (quote a.info_hash.1)) (a.ip, a.port) a.event.text a.time) :=
  note_eq_some_iff.mpr ⟨_, _, accepted_request a, by rw [event_request]; rfl⟩

/-- A request changes the store by its note only. -/
theorem doGet_fst (store : InMemoryTrackerStore) (r : Request) : (doGet store r).1 =
    { store with torrents := r.note.elim store.torrents (post 3600 store.torrents) } := by
  rw [doGet, Request.note]
  cases r.read with
  | error e => rfl
  | ok read =>
    obtain ⟨info_hash, port⟩ := read
    dsimp only [InMemoryTrackerStore.announce]
    split <;> rfl

theorem doGet_torrents (store : InMemoryTrackerStore) (r : Request) :
    (doGet store r).1.torrents = r.note.elim store.torrents (post 3600 store.torrents) := by
  rw [doGet_fst]

theorem doGet_interval (store : InMemoryTrackerStore) (r : Request) :
    (doGet store r).1.interval = store.interval := by
  rw [doGet_fst]

theorem serveAll_torrents (requests : List Request) :
    (serveAll requests).torrents = posted 3600 (requests.reverse.filterMap Request.note) := by
  induction requests using List.reverseRecOn with
  | nil => rfl
  | append_singleton requests r ih =>
    rw [serveAll, List.foldl_append, List.foldl_cons, List.foldl_nil, doGet_torrents,
      ← serveAll, ih, List.reverse_append, List.reverse_singleton, List.singleton_append]
    cases hnote : r.note with
    | none => rw [List.filterMap_cons_none hnote, Option.elim_none]
    | some note =>
      rw [List.filterMap_cons_some hnote, Option.elim_some]
      rfl

theorem serveAll_interval (requests : List Request) : (serveAll requests).interval = 1800 := by
  induction requests using List.reverseRecOn with
  | nil => rfl
  | append_singleton requests r ih =>
    rw [serveAll, List.foldl_append, List.foldl_cons, List.foldl_nil, doGet_interval]
    exact ih

end Notes

section Answers

def infoOf (peer : PeerKey) : PeerInfo where
  ip := Discovery.dotted peer.1.1
  port := peer.2.toNat

def octetsOf (peer : PeerKey) : Bytes := peer.1.1 ++ bigEndian 2 peer.2.toNat

theorem length_octetsOf (peer : PeerKey) : (octetsOf peer).length = 6 := by
  rw [octetsOf, List.length_append, peer.1.2, bigEndian_length]

variable {peers : List PeerKey}

theorem compactPeers_eq_ok (h : ∀ peer ∈ peers, 0 ≤ peer.2 ∧ peer.2 < 65536) :
    compactPeers peers = .ok (peers.flatMap octetsOf) := by
  induction peers with
  | nil => rfl
  | cons peer peers ih =>
    obtain ⟨hport, hrest⟩ := List.forall_mem_cons.mp h
    rw [compactPeers, compactPeer, if_pos hport, ih hrest]
    rfl

/-- The client reads the peers that the server has written. -/
theorem parseCompactPeers_octets (h : ∀ peer ∈ peers, 0 ≤ peer.2 ∧ peer.2 < 65536) :
    parseCompactPeers (peers.flatMap octetsOf) = some (peers.map infoOf) := by
  have hlength : (peers.flatMap octetsOf).length % 6 = 0 := by
    simp [List.length_flatMap, length_octetsOf]
  rw [parseCompactPeers, if_neg (not_not.mpr hlength), Option.some.injEq]
  induction peers with
  | nil => rfl
  | cons peer peers ih =>
    obtain ⟨⟨hlow, hhigh⟩, hrest⟩ := List.forall_mem_cons.mp h
    have hip : (octetsOf peer).take 4 = peer.1.1 := List.take_left' peer.1.2
    have hport : ofBigEndian ((octetsOf peer).drop 4) = peer.2.toNat := by
      rw [octetsOf, List.drop_left' peer.1.2]
      exact ofBigEndian_bigEndian (by omega)
    rw [List.flatMap_cons, pieces_append (by decide) (length_octetsOf peer), List.map_cons, hip, hport,
      ih hrest (by simp [List.length_flatMap, length_octetsOf])]
    rfl

def answer (interval : Int) (compact : Bytes) : List (Key × PyObj) :=
  [(.bytes (ascii "interval"), .int interval), (.bytes (ascii "peers"), .bytes compact)]

theorem stored_answer (interval : Int) (compact : Bytes) : Stored (answer interval compact) where
  octets := by simp [answer]
  nodup := by
    show [Key.bytes (ascii "interval"), Key.bytes (ascii "peers")].Nodup
    decide
  values := by simp [answer, Bencodable]

/-- The client reads the answer that the server has written. -/
theorem parseResponse_body {interval : Int} (hinterval : 0 ≤ interval) (compact : Bytes) :
    parseResponse (body (answer interval compact)) =
      (parseCompactPeers compact).map (List.filter PeerInfo.valid) := by
  have hstored := stored_answer interval compact
  obtain ⟨data, hwritten⟩ := written hstored.bencodable
  have hbody : body (answer interval compact) = data := by rw [body, hwritten.encoded]
  have hget (key : String) : getKey (normalDict (answer interval compact)) key =
      (getKey (answer interval compact) key).map normal := hstored.lookup_normalDict _
  have hfailure : hasKey (normalDict (answer interval compact)) "failure reason" = false := by
    rw [hasKey, hget]
    rfl
  have hintervalKey : getKey (normalDict (answer interval compact)) "interval" =
      some (.int interval) := by
    rw [hget]
    rfl
  have hpeersKey : getKey (normalDict (answer interval compact)) "peers" =
      some (.bytes compact) := by
    rw [hget]
    rfl
  rw [parseResponse, hbody, hstored.decode_written hwritten.encoded]
  simp only [hfailure, hintervalKey, hpeersKey]
  rw [if_neg nofun, if_neg (Int.not_lt.mpr hinterval)]

/-- The peers that are stored under what becomes of a hash. -/
def held (requests : List Request) (info_hash : Bytes) : List PeerKey :=
  (storeOf (serveAll requests).torrents (secondDecoded (quote info_hash))).keys

theorem serveAll_append_request (earlier : List Request) (a : Announce) :
    (serveAll (earlier ++ [a.request])).torrents = post 3600 (serveAll earlier).torrents
      (noteOf (secondDecoded (quote a.info_hash.1)) (a.ip, a.port) a.event.text a.time) := by
  rw [serveAll, List.foldl_append, List.foldl_cons, List.foldl_nil, doGet_torrents, note_request]
  rfl

/-- An announce is answered with the peers that are stored then, when their ports can be written. -/
theorem doGet_request {earlier : List Request} {a : Announce}
    (h : ∀ peer ∈ held (earlier ++ [a.request]) a.info_hash, 0 ≤ peer.2 ∧ peer.2 < 65536) :
    (doGet (serveAll earlier) a.request).2 =
      answer 1800 ((held (earlier ++ [a.request]) a.info_hash).flatMap octetsOf) := by
  rw [held, serveAll_append_request] at h ⊢
  rw [doGet, (accepted_request a).read_eq, ← serveAll_interval earlier, event_request]
  dsimp only [InMemoryTrackerStore.announce]
  have hports := compactPeers_eq_ok h
  rw [show a.request.ip = a.ip from rfl, show a.request.time = a.time from rfl, hports]
  rfl

end Answers

section Agreement

def pairOf (peer : PeerKey) : Str × Int := (Discovery.dotted peer.1.1, peer.2)

theorem octets_ne_nil (ip : Octets) : ip.1 ≠ [] := List.ne_nil_of_length_eq_add_one ip.2

/-- A peer is told by its pair. -/
theorem pairOf_injective : Function.Injective pairOf := by
  intro peer peer' h
  obtain ⟨hip, hport⟩ := Prod.mk.inj h
  exact Prod.ext (Subtype.ext (dotted_injective (octets_ne_nil _) (octets_ne_nil _) hip)) hport

theorem pair_infoOf {peer : PeerKey} (h : 0 ≤ peer.2) : (infoOf peer).pair = pairOf peer :=
  Prod.ext rfl (Int.toNat_of_nonneg h)

theorem dotted_ne_nil {octets : Bytes} (h : octets ≠ []) : Discovery.dotted octets ≠ [] := by
  intro hnil
  have hsplit := splitOn_dotted h
  rw [hnil] at hsplit
  have hmem : [] ∈ octets.map fun b => strInt b.toNat := by
    rw [← hsplit]
    exact List.mem_singleton_self _
  obtain ⟨b, -, hb⟩ := List.mem_map.mp hmem
  exact strInt_ne_nil _ hb

theorem valid_infoOf {peer : PeerKey} (h : 0 ≤ peer.2) :
    (infoOf peer).valid = true ↔ 1 ≤ (pairOf peer).2 ∧ (pairOf peer).2 ≤ 65535 := by
  have hip : (infoOf peer).ip ≠ [] := dotted_ne_nil (octets_ne_nil peer.1)
  have hport : (pairOf peer).2 = ((infoOf peer).port : Int) := (Int.toNat_of_nonneg h).symm
  rw [PeerInfo.valid, hport]
  simp only [Bool.and_eq_true, decide_eq_true_eq, and_iff_left hip]
  norm_cast

variable {earlier : List Request} {a : Announce}

/-- Our announces say what has been put there. -/
theorem announces_request_iff {info_hash : Bytes} {pair : Str × Int} :
    a.request.Announces info_hash pair ↔ a.info_hash = info_hash ∧ pairOf (a.ip, a.port) = pair := by
  constructor
  · rintro ⟨raw, port, haccepted, hhash, hpair⟩
    obtain ⟨rfl, rfl⟩ := haccepted.unique (accepted_request a)
    exact ⟨(percentDecoded_quote _).symm.trans hhash, hpair⟩
  · rintro ⟨hhash, hpair⟩
    exact ⟨_, _, accepted_request a, (percentDecoded_quote _).trans hhash, hpair⟩

/-- The request stores this peer under what becomes of the hash, or takes it away. -/
def Request.Notes (r : Request) (info_hash : Bytes) (peer : PeerKey) : Prop :=
  ∃ raw port, r.Accepted raw port ∧ secondDecoded raw = secondDecoded (quote info_hash) ∧
    (r.ip, port) = peer

theorem notes_of_note {r : Request} {note : Note Time PeerKey Bytes} (h : r.note = some note)
    (info_hash : Bytes) (peer : PeerKey) :
    (note.topic = secondDecoded (quote info_hash) ∧ note.member = peer ↔ r.Notes info_hash peer) ∧
      note.leaves = (r.event == "stopped".toList) ∧ note.time = r.time := by
  obtain ⟨raw, port, haccepted, rfl⟩ := note_eq_some_iff.mp h
  refine ⟨?_, rfl, rfl⟩
  constructor
  · rintro ⟨htopic, hmember⟩
    exact ⟨raw, port, haccepted, htopic, hmember⟩
  · rintro ⟨raw', port', haccepted', htopic, hmember⟩
    obtain ⟨rfl, rfl⟩ := haccepted'.unique haccepted
    exact ⟨htopic, hmember⟩

theorem not_notes_of_none {r : Request} (h : r.note = none) (info_hash : Bytes) (peer : PeerKey) :
    ¬r.Notes info_hash peer := by
  rintro ⟨raw, port, haccepted, -⟩
  rw [note_eq_some_iff.mpr ⟨raw, port, haccepted, rfl⟩] at h
  cases h

/-- Where no other hash becomes the same, what is stored under a hash has been announced for it. -/
theorem notes_iff_announces (hmeets : Meets earlier a) (peer : PeerKey) {r : Request}
    (hr : r ∈ earlier ++ [a.request]) (hsince : a.time - 3600 ≤ r.time) :
    r.Notes a.info_hash peer ↔ r.Announces a.info_hash (pairOf peer) := by
  have hsame {raw : Str} {port : Int} (haccepted : r.Accepted raw port) :
      secondDecoded raw = secondDecoded (quote a.info_hash) ↔ percentDecoded raw = a.info_hash := by
    rcases List.mem_append.mp hr with hr | hr
    · exact (hmeets r hr hsince raw port haccepted).1
    · obtain rfl := List.mem_singleton.mp hr
      obtain ⟨rfl, rfl⟩ := haccepted.unique (accepted_request a)
      exact iff_of_true rfl (percentDecoded_quote _)
  constructor
  · rintro ⟨raw, port, haccepted, htopic, rfl⟩
    exact ⟨raw, port, haccepted, (hsame haccepted).mp htopic, rfl⟩
  · rintro ⟨raw, port, haccepted, hhash, hpair⟩
    have hpeer : pairOf (r.ip, port) = pairOf peer := hpair
    exact ⟨raw, port, haccepted, (hsame haccepted).mpr hhash, pairOf_injective hpeer⟩

/-- The server holds the peers that have announced a hash lately, once the hash is announced, where
no other hash becomes the same. -/
theorem mem_held_iff (htimes : (earlier ++ [a.request]).Pairwise fun x y => x.time ≤ y.time)
    (hmeets : Meets earlier a) (peer : PeerKey) :
    peer ∈ held (earlier ++ [a.request]) a.info_hash ↔
      Announced (earlier ++ [a.request]) a.info_hash a.time (pairOf peer) := by
  have hreverse : (earlier ++ [a.request]).reverse.Pairwise fun x y => y.time ≤ x.time :=
    List.pairwise_reverse.mpr htimes
  have hnotes : (earlier ++ [a.request]).reverse.filterMap Request.note =
      noteOf (secondDecoded (quote a.info_hash.1)) (a.ip, a.port) a.event.text a.time ::
        earlier.reverse.filterMap Request.note := by
    rw [List.reverse_append, List.reverse_singleton, List.singleton_append,
      List.filterMap_cons_some (note_request a)]
  have hordered : ((earlier ++ [a.request]).reverse.filterMap Request.note).Pairwise
      fun later earlier => earlier.time ≤ later.time := by
    refine hreverse.filterMap _ fun r r' hle note hnote note' hnote' => ?_
    rw [(notes_of_note hnote [] peer).2.2, (notes_of_note hnote' [] peer).2.2]
    exact hle
  rw [hnotes] at hordered
  have hkeys := mem_keys_posted_iff (3600 : Time) hordered (k := peer)
  rw [← hnotes, ← serveAll_torrents] at hkeys
  -- What is stored comes from requests, and those of the last hour announce what they store.
  refine (hkeys.trans (seenSince_filterMap Request.note
    (fun r hnone => not_notes_of_none hnone a.info_hash peer)
    (fun r note hnote => notes_of_note hnote a.info_hash peer) _)).trans ?_
  refine (seenSince_congr hreverse fun r hr hsince =>
    notes_iff_announces hmeets peer (List.mem_reverse.mp hr) hsince).trans ?_
  rw [seenSince_reverse, Announced]
  simp only [beq_eq_false_iff_ne]

/-- Where no other hash becomes the same and the ports can be written, client and server agree about
an announce. -/
theorem answerAgrees_of_meets (earlier : List Request) (a : Announce)
    (htimes : (earlier ++ [a.request]).Pairwise fun x y => x.time ≤ y.time)
    (hmeets : Meets earlier a) : AnswerAgrees earlier a := by
  have hmem := mem_held_iff htimes hmeets
  have hports : ∀ peer ∈ held (earlier ++ [a.request]) a.info_hash, 0 ≤ peer.2 ∧ peer.2 < 65536 := by
    intro peer hpeer
    obtain ⟨before, r, later, heq, ⟨raw, port, haccepted, hhash, hpair⟩, hevent, hsince, -⟩ :=
      (hmem peer).mp hpeer
    obtain rfl : (r.ip, port) = peer := pairOf_injective hpair
    have hr : r ∈ earlier ++ [a.request] := by rw [heq]; simp
    rcases List.mem_append.mp hr with hr | hr
    · exact (hmeets r hr hsince raw port haccepted).2 hhash hevent
    · obtain rfl := List.mem_singleton.mp hr
      obtain ⟨-, rfl⟩ := haccepted.unique (accepted_request a)
      have := a.port.2
      constructor <;> omega
  have hparse : parseResponse (body (doGet (serveAll earlier) a.request).2) =
      some (((held (earlier ++ [a.request]) a.info_hash).map infoOf).filter PeerInfo.valid) := by
    rw [doGet_request hports, parseResponse_body (by decide), parseCompactPeers_octets hports,
      Option.map_some]
  refine ⟨_, hparse, fun pair => ?_⟩
  rw [List.mem_map]
  constructor
  · rintro ⟨info, hinfo, rfl⟩
    obtain ⟨hmap, hvalid⟩ := List.mem_filter.mp hinfo
    obtain ⟨peer, hpeer, rfl⟩ := List.mem_map.mp hmap
    rw [pair_infoOf (hports peer hpeer).1]
    exact ⟨(valid_infoOf (hports peer hpeer).1).mp hvalid, (hmem peer).mp hpeer⟩
  · rintro ⟨hvalid, hannounced⟩
    obtain ⟨before, r, later, -, ⟨raw, port, -, -, hpair⟩, -⟩ := id hannounced
    obtain rfl : pairOf (r.ip, port) = pair := hpair
    have hpeer := (hmem _).mpr hannounced
    have hnonneg := (hports _ hpeer).1
    exact ⟨_, List.mem_filter.mpr ⟨List.mem_map_of_mem hpeer, (valid_infoOf hnonneg).mpr hvalid⟩,
      pair_infoOf hnonneg⟩

/-- A hash that is UTF-8 without percent signs. -/
def Readable (info_hash : Bytes) : Prop :=
  (∃ text, utf8Encode text = info_hash) ∧ 0x25 ∉ info_hash

theorem secondDecoded_quote {info_hash : Bytes} (h : Readable info_hash) :
    secondDecoded (quote info_hash) = info_hash := by
  obtain ⟨⟨text, rfl⟩, hpercent⟩ := h
  rw [secondDecoded, plusToSpace_of_plain (quote_plain _), unquote_quote,
    utf8DecodeReplace_of_decode (utf8Decode_utf8Encode text), unquoteToBytes_of_notMem hpercent]

/-- Our own announces of such hashes are told apart. -/
theorem meets_of_readable {announces : List Announce}
    (hreadable : ∀ a' ∈ announces, Readable a'.info_hash) (ha : Readable a.info_hash) :
    Meets (announces.map Announce.request) a := by
  intro r hr _ raw port haccepted
  obtain ⟨a', ha', rfl⟩ := List.mem_map.mp hr
  obtain ⟨rfl, rfl⟩ := haccepted.unique (accepted_request a')
  rw [secondDecoded_quote (hreadable a' ha'), secondDecoded_quote ha, percentDecoded_quote]
  have := a'.port.2
  exact ⟨Iff.rfl, fun _ _ => by constructor <;> omega⟩

/-- A client announces that it has started. -/
def started : Announce where
  info_hash := ⟨ascii "abcdefghijklmnopqrst", by decide⟩
  peer_id := ⟨ascii "-CC0101-xxxxxxxxxxxx", by decide⟩
  port := ⟨6881, by decide⟩
  uploaded := 0
  downloaded := 0
  left := 100
  event := .started
  ip := ⟨[10, 0, 0, 1], by decide⟩
  time := 0

/-- Another client announces an hour later. -/
def hourLater : Announce := { started with ip := ⟨[10, 0, 0, 2], by decide⟩, time := 3600 }

theorem answerAgrees_hourLater : AnswerAgrees [started.request] hourLater := by
  refine answerAgrees_of_meets [started.request] hourLater (by decide +kernel) fun r hr _ raw port h => ?_
  obtain rfl := List.mem_singleton.mp hr
  obtain ⟨rfl, rfl⟩ := h.unique (accepted_request started)
  exact ⟨iff_of_true rfl (percentDecoded_quote _), fun _ _ => by decide⟩

/-- Two clients announce hashes that are not UTF-8: of both, only replacement characters are left. -/
def unreadable : Announce := { started with info_hash := ⟨List.replicate 20 0x80, by decide⟩ }

def unreadableToo : Announce :=
  { hourLater with info_hash := ⟨List.replicate 20 0x81, by decide⟩ }

theorem not_answerAgrees_unreadable : ¬AnswerAgrees [unreadable.request] unreadableToo := by
  have hparse : parseResponse (body (doGet (serveAll [unreadable.request]) unreadableToo.request).2) =
      some [⟨"10.0.0.1".toList, 6881⟩, ⟨"10.0.0.2".toList, 6881⟩] := by decide +kernel
  rintro ⟨peers, hpeers, hagrees⟩
  obtain rfl := Option.some.inj (hparse.symm.trans hpeers)
  obtain ⟨-, before, r, later, heq, hannounces, -⟩ :=
    (hagrees ("10.0.0.1".toList, 6881)).mp (by decide)
  have hr : r ∈ [unreadable.request] ++ [unreadableToo.request] := by rw [heq]; simp
  rcases List.mem_append.mp hr with hr | hr
  · obtain rfl := List.mem_singleton.mp hr
    exact absurd (announces_request_iff.mp hannounces).1 (by decide)
  · obtain rfl := List.mem_singleton.mp hr
    exact absurd (announces_request_iff.mp hannounces).2 (by decide)

end Agreement

end Ccbt.HttpTracker
