import Ccbt.Peer.UploadSlots
import Ccbt.Precedence.Rank
import Mathlib.Data.Rat.Cast.Order

/-!
# Rates and slots over histories of messages

`_update_peer_stats` of `peer/async_peer_connection.py` takes the rates of the connections, from
which `_update_choking` gives away the upload slots. Beside the connections the model records what
came from each of them and went to it since the previous update, and how much came per second
before that.
-/

namespace Ccbt

open Python Precedence Transition

namespace Peer

structure PeerStats where
  download_rate : Rat := 0
  last_activity : Time

/-- The data exchanged with a peer. -/
structure Exchange where
  /-- When the previous update was, or else when the connection was created. -/
  since : Time
  received : Nat := 0
  sent : Nat := 0
  /-- What was received per second before that update. -/
  received_rate : Rat := 0

structure Swarm where
  logged : LoggedManager
  stats : ConnectionRef → PeerStats
  exchange : ConnectionRef → Exchange

/-- What happens to the connections, their messages included. -/
inductive SwarmEvent
  | connect (peer_info : PeerInfo) (state : ConnectionState) (now : Time)
  | disconnect (peer_info : PeerInfo)
  | observe (r : ConnectionRef) (state : ConnectionState) (peer_choking peer_interested : Bool)
  /-- A message is read; there is none in a keep-alive, in an extension message and in octets that
  cannot be decoded. -/
  | receive (r : ConnectionRef) (now : Time) (message : Option PeerMessage)
  | _send_message (r : ConnectionRef) (now : Time) (message : PeerMessage)
  | send_v2_message (r : ConnectionRef) (now : Time) (message_bytes : Bytes)
  | _update_peer_stats (current_time : Time)
  | _update_choking (current_time : Time) (choice : Nat)

def PeerMessage.dataLength : PeerMessage → Nat
  | .PieceMessage _ _ block => block.length
  | _ => 0

namespace Swarm

variable (s : Swarm)

/-- The connection objects. -/
abbrev object (r : ConnectionRef) : PeerConnection := s.logged.manager.object r

def setObjects (f : ConnectionRef → PeerConnection) : Swarm :=
  { s with logged.manager.object := f }

/-- `_handle_peer_messages` with `_handle_piece`, on the statistics. -/
def receive (r : ConnectionRef) (now : Time) (n : Nat) : Swarm :=
  { s.setObjects (Function.update s.object r { s.object r with
      bytes_downloaded := (s.object r).bytes_downloaded + n }) with
    stats := Function.update s.stats r { s.stats r with last_activity := now }
    exchange := Function.update s.exchange r { s.exchange r with
      received := (s.exchange r).received + n } }

/-- `_send_message` with `_handle_request`, and `send_v2_message`, on the statistics. -/
def send (r : ConnectionRef) (now : Time) (n : Nat) : Swarm :=
  { s.setObjects (Function.update s.object r { s.object r with
      bytes_uploaded := (s.object r).bytes_uploaded + n }) with
    stats := Function.update s.stats r { s.stats r with last_activity := now }
    exchange := Function.update s.exchange r { s.exchange r with
      sent := (s.exchange r).sent + n } }

def downloadRate (current_time : Time) (r : ConnectionRef) : Rat :=
  let time_diff := current_time - (s.stats r).last_activity
  if time_diff > 0 then (s.object r).bytes_downloaded / time_diff else (s.stats r).download_rate

def uploadRate (current_time : Time) (r : ConnectionRef) : Rat :=
  let time_diff := current_time - (s.stats r).last_activity
  if time_diff > 0 then (s.object r).bytes_uploaded / time_diff else (s.object r).upload_rate

/-- What an update notes of a connection. -/
def Exchange.close (e : Exchange) (current_time : Time) : Exchange where
  since := current_time
  received_rate :=
    if e.since < current_time then e.received / (current_time - e.since) else e.received_rate

def updatePeerStats (current_time : Time) : Swarm :=
  let registered := s.logged.manager.connections.values
  { s.setObjects fun r =>
      if r ∈ registered then { s.object r with
        bytes_downloaded := 0
        bytes_uploaded := 0
        upload_rate := s.uploadRate current_time r }
      else s.object r with
    stats := fun r =>
      if r ∈ registered then ⟨s.downloadRate current_time r, current_time⟩ else s.stats r
    exchange := fun r =>
      if r ∈ registered then Exchange.close (s.exchange r) current_time else s.exchange r }

/-- `_update_choking`, which is active at the connections to which it sends a message. -/
def updateChoking (config : NetworkConfig) (current_time : Time) (choice : Nat) : Swarm :=
  let logged := s.logged.updateChoking config current_time choice
  let told := (logged.sent.drop s.logged.sent.length).map Prod.fst
  { s with
    logged := logged
    stats := fun r =>
      if r ∈ told then { s.stats r with last_activity := current_time } else s.stats r }

def step (config : NetworkConfig) (s : Swarm) : SwarmEvent → Swarm
  | .connect peer_info state now =>
    if s.logged.manager.connections.contains peer_info.str then s
    else
      { logged := s.logged.connect peer_info state
        stats := Function.update s.stats s.logged.manager.created { last_activity := now }
        exchange := Function.update s.exchange s.logged.manager.created { since := now } }
  | .disconnect peer_info => { s with logged := s.logged.disconnect peer_info }
  | .observe r state peer_choking peer_interested =>
    s.setObjects (Function.update s.object r { s.object r with
      state := state, peer_choking := peer_choking, peer_interested := peer_interested })
  | .receive r now message => s.receive r now (message.elim 0 PeerMessage.dataLength)
  | ._send_message r now message => s.send r now message.dataLength
  | .send_v2_message r now message_bytes => s.send r now message_bytes.length
  | ._update_peer_stats current_time => s.updatePeerStats current_time
  | ._update_choking current_time choice => s.updateChoking config current_time choice

def start : Swarm where
  logged := .start
  stats _ := { last_activity := 0 }
  exchange _ := { since := 0 }

/-- The rates that an update stores are the data per second since the previous update. -/
def StoresRates (s s' : Swarm) (current_time : Time) : Prop :=
  ∀ r ∈ s.logged.manager.connections.values, (s.exchange r).since < current_time →
    (s'.stats r).download_rate =
        (s.exchange r).received / (current_time - (s.exchange r).since) ∧
      (s'.object r).upload_rate = (s.exchange r).sent / (current_time - (s.exchange r).since)

/-- The slots are as many active peers as they may be, from which the most data was received per
second. -/
structure GivesSlots (config : NetworkConfig) (s s' : Swarm) : Prop where
  nodup : s'.logged.manager.upload_slots.Nodup
  length : s'.logged.manager.upload_slots.length =
    min config.max_upload_slots s.logged.manager.activePeers.length
  active : ∀ p ∈ s'.logged.manager.upload_slots, p ∈ s.logged.manager.activePeers
  best : ∀ p ∈ s'.logged.manager.upload_slots, ∀ q ∈ s.logged.manager.activePeers,
    q ∉ s'.logged.manager.upload_slots → (s.exchange q).received_rate ≤ (s.exchange p).received_rate

/-- What tit-for-tat asks of the updates, and of the rounds that find active peers. -/
def Rewards (config : NetworkConfig) (s : Swarm) (e : SwarmEvent) : Prop :=
  match e with
  | ._update_peer_stats current_time => StoresRates s (s.step config e) current_time
  | ._update_choking _ _ =>
    s.logged.manager.activePeers ≠ [] → GivesSlots config s (s.step config e)
  | _ => True

/-- Since the previous update no message came or went later than it, or no data did at all; where
the last activity is not in the past, the rates happen to be right already. -/
def Undisturbed (s : Swarm) (current_time : Time) (r : ConnectionRef) : Prop :=
  if (s.stats r).last_activity < current_time then
    (s.stats r).last_activity = (s.exchange r).since ∨
      (s.exchange r).received = 0 ∧ (s.exchange r).sent = 0
  else
    (s.stats r).download_rate =
        (s.exchange r).received / (current_time - (s.exchange r).since) ∧
      (s.object r).upload_rate = (s.exchange r).sent / (current_time - (s.exchange r).since)

def uploadRank (s : Swarm) (r : ConnectionRef) : Nat :=
  rank (fun r => (s.object r).upload_rate) s.logged.manager.activePeers r

/-- Of two active peers of which one was sent so much that it has a slot and the other was not, the
first one also gave as much. -/
def GivesBack (config : NetworkConfig) (s : Swarm) : Prop :=
  ∀ p ∈ s.logged.manager.activePeers, ∀ q ∈ s.logged.manager.activePeers,
    s.uploadRank p < config.max_upload_slots → config.max_upload_slots ≤ s.uploadRank q →
      (s.exchange q).received_rate ≤ (s.exchange p).received_rate

/-- When what is stored and given away is what tit-for-tat asks for. -/
def RateEvent (config : NetworkConfig) (s : Swarm) : SwarmEvent → Prop
  | ._update_peer_stats current_time =>
    ∀ r ∈ s.logged.manager.connections.values, (s.exchange r).since < current_time →
      s.Undisturbed current_time r
  | ._update_choking _ _ => s.GivesBack config
  | _ => True

/-- The connections are coherent, and the counters count the data since the previous update. -/
structure Sound (s : Swarm) : Prop where
  coherent : s.logged.Coherent
  received : ∀ r, (s.object r).bytes_downloaded = (s.exchange r).received
  sent : ∀ r, (s.object r).bytes_uploaded = (s.exchange r).sent

section Steps

variable {s} {config : NetworkConfig}

/-- An amount over two times is one rate only if the times are the same or there is none. -/
theorem rate_eq_iff {n : Nat} {t t' : Rat} :
    (n / t : Rat) = n / t' ↔ t = t' ∨ n = 0 := by
  by_cases hn : n = 0
  · simp [hn]
  · have hn' : (n : Rat) ≠ 0 := Nat.cast_ne_zero.mpr hn
    rw [div_eq_mul_inv, div_eq_mul_inv, mul_right_inj' hn', inv_inj, or_iff_left hn]

theorem storesRates_iff (h : s.Sound) (current_time : Time) :
    StoresRates s (s.updatePeerStats current_time) current_time ↔
      ∀ r ∈ s.logged.manager.connections.values, (s.exchange r).since < current_time →
        s.Undisturbed current_time r := by
  refine forall₂_congr fun r hr => imp_congr_right fun _ => ?_
  have hdownload : ((s.updatePeerStats current_time).stats r).download_rate =
      s.downloadRate current_time r := by
    simp only [updatePeerStats, if_pos hr]
  have hupload : ((s.updatePeerStats current_time).object r).upload_rate =
      s.uploadRate current_time r := by
    simp only [updatePeerStats, object, setObjects, if_pos hr]
  rw [hdownload, hupload, Undisturbed, downloadRate, uploadRate, h.received, h.sent]
  by_cases hpast : (s.stats r).last_activity < current_time
  · have hpos : 0 < current_time - (s.stats r).last_activity := sub_pos.mpr hpast
    have htime : current_time - (s.stats r).last_activity =
        current_time - (s.exchange r).since ↔
          (s.stats r).last_activity = (s.exchange r).since := sub_right_inj
    rw [if_pos hpos, if_pos hpos, if_pos hpast, rate_eq_iff, rate_eq_iff, htime, ← or_and_left]
  · have hpos : ¬ current_time - (s.stats r).last_activity > 0 := fun h =>
      hpast (sub_pos.mp h)
    rw [if_neg hpos, if_neg hpos, if_neg hpast]

/-- The slots of a round. -/
theorem upload_slots_updateChoking (hactive : s.logged.manager.activePeers ≠ [])
    (current_time : Time) (choice : Nat) :
    (s.updateChoking config current_time choice).logged.manager.upload_slots =
      s.logged.manager.topUploaders config.max_upload_slots := by
  obtain ⟨o, t, hround⟩ :=
    LoggedManager.manager_updateChoking config s.logged hactive current_time choice
  show (s.logged.updateChoking config current_time choice).manager.upload_slots = _
  rw [hround]
  rfl

theorem givesSlots_iff (h : s.Sound) (hactive : s.logged.manager.activePeers ≠ [])
    (current_time : Time) (choice : Nat) :
    GivesSlots config s (s.updateChoking config current_time choice) ↔ s.GivesBack config := by
  have hnodup := h.coherent.nodup_activePeers
  have hslots : (s.updateChoking config current_time choice).logged.manager.upload_slots =
      s.logged.manager.topUploaders config.max_upload_slots :=
    upload_slots_updateChoking hactive current_time choice
  have hmem (r : ConnectionRef) :
      r ∈ s.logged.manager.topUploaders config.max_upload_slots ↔
        r ∈ s.logged.manager.activePeers ∧ s.uploadRank r < config.max_upload_slots :=
    mem_take_mergeSort_iff hnodup
  constructor
  · intro hgives p hp q hq hpk hqk
    refine hgives.best p ?_ q hq ?_
    · rw [hslots, hmem]
      exact ⟨hp, hpk⟩
    · rw [hslots, hmem]
      exact fun hslot => Nat.not_lt.mpr hqk hslot.2
  · intro hback
    refine ⟨?_, ?_, ?_, ?_⟩
    · rw [hslots]
      exact ConnectionManager.nodup_assigned hnodup
    · rw [hslots]
      exact ConnectionManager.length_assigned
    · intro p hp
      rw [hslots, hmem] at hp
      exact hp.1
    · intro p hp q hq hnot
      rw [hslots, hmem] at hp hnot
      exact hback p hp.1 q hq hp.2 (Nat.le_of_not_lt fun hlt => hnot ⟨hq, hlt⟩)

-- The invariant

theorem counters_connect {u : LoggedManager} {peer_info : PeerInfo} (state : ConnectionState)
    (hnew : ¬ u.manager.connections.contains peer_info.str = true) (r : ConnectionRef) :
    ((u.connect peer_info state).manager.object r).bytes_downloaded =
        (if r = u.manager.created then 0 else (u.manager.object r).bytes_downloaded) ∧
      ((u.connect peer_info state).manager.object r).bytes_uploaded =
        (if r = u.manager.created then 0 else (u.manager.object r).bytes_uploaded) := by
  rw [LoggedManager.connect, if_neg hnew]
  by_cases hr : r = u.manager.created
  · subst hr
    simp [LoggedManager.tell, ConnectionManager.setChoking, ConnectionManager.setObject,
      ConnectionManager.opened, ConnectionManager.create]
  · simp [LoggedManager.tell, ConnectionManager.setChoking, ConnectionManager.setObject,
      ConnectionManager.opened, ConnectionManager.create, hr]

theorem counters_disconnect (u : LoggedManager) (peer_info : PeerInfo) (r : ConnectionRef) :
    ((u.disconnect peer_info).manager.object r).bytes_downloaded =
        (u.manager.object r).bytes_downloaded ∧
      ((u.disconnect peer_info).manager.object r).bytes_uploaded =
        (u.manager.object r).bytes_uploaded := by
  rw [LoggedManager.disconnect]
  split
  · next dropped _ =>
    by_cases hr : r = dropped
    · simp [ConnectionManager.dropSlots, ConnectionManager.dropConnection,
        ConnectionManager.setObject, hr]
    · simp [ConnectionManager.dropSlots, ConnectionManager.dropConnection,
        ConnectionManager.setObject, hr]
  · exact ⟨rfl, rfl⟩

theorem counters_updateChoking (config : NetworkConfig) (u : LoggedManager) (current_time : Time)
    (choice : Nat) (r : ConnectionRef) :
    ((u.updateChoking config current_time choice).manager.object r).bytes_downloaded =
        (u.manager.object r).bytes_downloaded ∧
      ((u.updateChoking config current_time choice).manager.object r).bytes_uploaded =
        (u.manager.object r).bytes_uploaded := by
  by_cases hactive : u.manager.activePeers = []
  · rw [LoggedManager.updateChoking, if_pos hactive]
    exact ⟨rfl, rfl⟩
  · obtain ⟨o, t, hround⟩ :=
      LoggedManager.manager_updateChoking config u hactive current_time choice
    rw [hround]
    exact ⟨rfl, rfl⟩

theorem update_related {α β γ : Type} [DecidableEq α] {P : β → γ → Prop} {f : α → β} {g : α → γ}
    (h : ∀ a, P (f a) (g a)) {a : α} {b : β} {c : γ} (hbc : P b c) (a' : α) :
    P (Function.update f a b a') (Function.update g a c a') := by
  by_cases ha : a' = a
  · subst ha
    rwa [Function.update_self, Function.update_self]
  · rw [Function.update_of_ne ha, Function.update_of_ne ha]
    exact h a'

/-- An object is replaced by one that is as choked, is of the same peer and has these counters. -/
theorem Sound.setObject (h : s.Sound) (r : ConnectionRef) {c : PeerConnection} {e : Exchange}
    (hchoking : c.am_choking = (s.object r).am_choking)
    (hinfo : c.peer_info = (s.object r).peer_info) (hreceived : c.bytes_downloaded = e.received)
    (hsent : c.bytes_uploaded = e.sent) (stats : ConnectionRef → PeerStats) :
    Sound { s.setObjects (Function.update s.object r c) with
      stats := stats, exchange := Function.update s.exchange r e } where
  coherent := by
    refine h.coherent.setObjects fun r' => ?_
    by_cases hr : r' = r
    · rw [hr, Function.update_self]
      exact ⟨hchoking, hinfo⟩
    · rw [Function.update_of_ne hr]
      exact ⟨rfl, rfl⟩
  received := update_related (P := fun (c : PeerConnection) (e : Exchange) =>
    c.bytes_downloaded = e.received) h.received hreceived
  sent := update_related (P := fun (c : PeerConnection) (e : Exchange) =>
    c.bytes_uploaded = e.sent) h.sent hsent

theorem Sound.receive (h : s.Sound) (r : ConnectionRef) (now : Time) (n : Nat) :
    (s.receive r now n).Sound := by
  refine h.setObject r ?_ ?_ ?_ ?_ _
  · rfl
  · rfl
  · exact congrArg (· + n) (h.received r)
  · exact h.sent r

theorem Sound.send (h : s.Sound) (r : ConnectionRef) (now : Time) (n : Nat) :
    (s.send r now n).Sound := by
  refine h.setObject r ?_ ?_ ?_ ?_ _
  · rfl
  · rfl
  · exact h.received r
  · exact congrArg (· + n) (h.sent r)

theorem Sound.updatePeerStats (h : s.Sound) (current_time : Time) :
    (s.updatePeerStats current_time).Sound where
  coherent := by
    refine h.coherent.setObjects fun r => ?_
    split <;> exact ⟨rfl, rfl⟩
  received r := by
    simp only [Swarm.updatePeerStats, object, setObjects]
    split
    · rfl
    · exact h.received r
  sent r := by
    simp only [Swarm.updatePeerStats, object, setObjects]
    split
    · rfl
    · exact h.sent r

theorem Sound.connect (h : s.Sound) (peer_info : PeerInfo) (state : ConnectionState) (now : Time) :
    (s.step config (.connect peer_info state now)).Sound := by
  rw [step]
  split
  · exact h
  · next hnew =>
    have hcounters := counters_connect (u := s.logged) state hnew
    refine ⟨h.coherent.connect peer_info state, fun r => ?_, fun r => ?_⟩
    · by_cases hr : r = s.logged.manager.created
      · simpa [hr] using (hcounters r).1
      · simpa [hr, h.received r] using (hcounters r).1
    · by_cases hr : r = s.logged.manager.created
      · simpa [hr] using (hcounters r).2
      · simpa [hr, h.sent r] using (hcounters r).2

theorem Sound.step (h : s.Sound) (config : NetworkConfig) (e : SwarmEvent) :
    (s.step config e).Sound := by
  cases e with
  | connect peer_info state now => exact h.connect peer_info state now
  | disconnect peer_info =>
    have hcounters := counters_disconnect s.logged peer_info
    exact ⟨h.coherent.disconnect peer_info, fun r => (hcounters r).1.trans (h.received r),
      fun r => (hcounters r).2.trans (h.sent r)⟩
  | observe r state peer_choking peer_interested =>
    have hset := h.setObject r (e := s.exchange r) (c := { s.object r with
      state := state, peer_choking := peer_choking, peer_interested := peer_interested })
      rfl rfl (h.received r) (h.sent r) s.stats
    rwa [Function.update_eq_self] at hset
  | receive r now message => exact h.receive r now _
  | _send_message r now message => exact h.send r now _
  | send_v2_message r now message_bytes => exact h.send r now _
  | _update_peer_stats current_time => exact h.updatePeerStats current_time
  | _update_choking current_time choice =>
    have hcounters := counters_updateChoking config s.logged current_time choice
    exact ⟨h.coherent.round current_time choice,
      fun r => (hcounters r).1.trans (h.received r), fun r => (hcounters r).2.trans (h.sent r)⟩

theorem sound_start : start.Sound where
  coherent := LoggedManager.coherent_start
  received _ := rfl
  sent _ := rfl

theorem rewards_iff_rateEvent (h : s.Sound) (config : NetworkConfig) (e : SwarmEvent) :
    s.Rewards config e ↔ s.RateEvent config e := by
  cases e with
  | _update_peer_stats current_time => exact storesRates_iff h current_time
  | _update_choking current_time choice =>
    by_cases hactive : s.logged.manager.activePeers = []
    · refine iff_of_true (fun hne => absurd hactive hne) fun p hp => ?_
      rw [hactive] at hp
      exact absurd hp List.not_mem_nil
    · exact (forall_prop_of_true hactive).trans (givesSlots_iff h hactive current_time choice)
  | connect | disconnect | observe | receive | _send_message | send_v2_message =>
    exact iff_of_true trivial trivial

end Steps

/-- In every history, the rates are right and the slots go to the peers that give the most exactly
if no message disturbs an update and what is given to the peers is in the order of what they
give. -/
theorem rewards_iff (config : NetworkConfig) (es : List SwarmEvent) :
    StepsMeet (step config) (Rewards config) start es ↔
      StepsMeet (step config) (RateEvent config) start es :=
  stepsMeet_iff_of_invariant (fun _ e h => h.step config e)
    (fun _ e h => rewards_iff_rateEvent h config e) sound_start

/-- Two peers are connected and become active. -/
def twoPeers : List SwarmEvent :=
  [.connect ⟨"10.0.1.1", 6883, by decide, by decide, by decide⟩ .BITFIELD_SENT 0,
    .connect ⟨"10.0.1.2", 6883, by decide, by decide, by decide⟩ .BITFIELD_SENT 0,
    .observe 0 .ACTIVE false true, .observe 1 .ACTIVE false true]

/-- The first peer gives data, and the second one gets as much. -/
def oneGives : List SwarmEvent :=
  twoPeers ++ [.receive 0 0 (some (.PieceMessage 0 0 [1, 2, 3, 4, 5])),
    ._send_message 1 0 (.PieceMessage 0 0 [1, 2, 3, 4, 5])]

/-- A message at 1 makes the update at 5 count from there, and the one slot goes to the peer that
gives nothing. -/
theorem not_rewards_oneGives :
    ¬ StepsMeet (step {}) (Rewards {}) start
      (oneGives ++ [.receive 0 1 none, ._update_peer_stats 5]) ∧
    ¬ StepsMeet (step { max_upload_slots := 1 }) (Rewards { max_upload_slots := 1 }) start
      (oneGives ++ [._update_peer_stats 5, ._update_choking 10 0]) := by
  constructor
  · rintro ⟨-, -, -, -, -, -, -, hrates, -⟩
    have hrate := (hrates 0 (by decide +kernel) (by decide +kernel)).1
    exact absurd hrate (by decide +kernel)
  · rintro ⟨-, -, -, -, -, -, -, hslots, -⟩
    let s : Swarm := run (step { max_upload_slots := 1 }) start
      (oneGives ++ [._update_peer_stats 5])
    have hsound : s.Sound := run_of_invariant (fun _ e h => h.step _ e) sound_start _
    have hactive : s.logged.manager.activePeers = [0, 1] := by decide +kernel
    have hne : s.logged.manager.activePeers ≠ [] := by
      rw [hactive]
      decide
    have hgives : GivesSlots { max_upload_slots := 1 } s
        (s.updateChoking { max_upload_slots := 1 } 10 0) := hslots hne
    have hback := (givesSlots_iff hsound hne 10 0).mp hgives
    have hrate := hback 1 (by rw [hactive]; decide) 0 (by rw [hactive]; decide)
      (by decide +kernel) (by decide +kernel)
    exact absurd hrate (by decide +kernel)

end Swarm

end Peer

end Ccbt
