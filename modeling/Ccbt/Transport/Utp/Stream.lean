import Ccbt.Transition.Run
import Ccbt.Transport.Utp.Frames
import Ccbt.Transport.Utp.SocketManager

/-!
# A uTP stream over a perfect channel

Two connections have completed their handshakes, and one sends chunks to the other.
The receiver handles every data packet once and in the order of emission. It expects
number 0 first, but the sender has moved on to 1 with the handshake and counts up
before it sends, so its first data packet has number 2 and is put aside.
-/

namespace Ccbt

open Python Transition

namespace Utp

namespace UTPConnection

/-- A connection as the constructor makes it. -/
def IsNew (c : UTPConnection) : Prop :=
  ∃ config remote_addr connection_id recv_window,
    c = { config, remote_addr, connection_id, recv_window }

/-- Connections whose handshake is under way. -/
inductive Handshaking : UTPConnection → Prop
  | connect {c : UTPConnection} (h : IsNew c) (now : UInt32) : Handshaking (c.connect now)
  | incomingSyn (m : UTPSocketManager) (packet : UTPPacket) (addr : Addr)
      (connection_id local_conn_id : UInt16) (now : UInt32) :
      Handshaking ((m.acceptedConnection packet addr connection_id local_conn_id).sendSynAck
        packet.seq_nr now)
  | syn {c : UTPConnection} (h : IsNew c) (packet : UTPPacket) (now : UInt32) :
      Handshaking (c.handleSyn packet now)
  | synAgain {c : UTPConnection} (h : Handshaking c) (packet : UTPPacket) (now : UInt32) :
      Handshaking (c.handleSyn packet now)

/-- Connections that have completed the handshake through the handlers of their side. -/
inductive Established : UTPConnection → Prop
  | initiator {c : UTPConnection} (h : Handshaking c) (hs : c.state = .SYN_SENT)
      (packet : UTPPacket) (now : UInt32) : Established (c.handleSynAck packet now)
  | acceptor {c : UTPConnection} (h : Handshaking c) (hs : c.state = .SYN_RECEIVED)
      (packet : UTPPacket) (hp : packet.ack_nr = 0) (now : UInt32) :
      Established (c.handleStatePacket packet now)

/-- No data has come or gone: the send buffer holds at most a SYN. -/
structure Pristine (c : UTPConnection) : Prop where
  expected : c.recv_buffer_expected_seq = 0
  received : c.recv_data_buffer = []
  pending : c.pending_acks = []
  reorder : c.recv_buffer = Dict.empty
  numbers : c.received_seqs = []
  limit : c.max_unacked_packets = 100
  synOnly : ∀ e ∈ c.send_buffer.entries, e.1 = 0

theorem IsNew.pristine {c : UTPConnection} (h : IsNew c) : Pristine c := by
  obtain ⟨_, _, _, _, rfl⟩ := h
  exact ⟨rfl, rfl, rfl, rfl, rfl, rfl, by simp [Dict.empty]⟩

namespace Pristine

variable {c c' : UTPConnection}

theorem negotiation (h : Pristine c) (hs : NegotiationStep c c') : Pristine c' := by
  obtain ⟨_, _, rfl⟩ := hs
  exact ⟨h.expected, h.received, h.pending, h.reorder, h.numbers, h.limit, h.synOnly⟩

theorem set_syn (h : Pristine c) (v : OutgoingPacket × Nat) :
    ∀ e ∈ (c.send_buffer.set 0 v).entries, e.1 = 0 := by
  intro e he
  obtain rfl | he := mem_setEntry he
  · rfl
  · exact h.synOnly e he

theorem connect (h : Pristine c) (now : UInt32) : Pristine (c.connect now) :=
  ⟨h.expected, h.received, h.pending, h.reorder, h.numbers, h.limit, h.set_syn _⟩

theorem sendSynAck (h : Pristine c) (peer_seq_nr : UInt16) (now : UInt32) :
    Pristine (c.sendSynAck peer_seq_nr now) :=
  ⟨h.expected, h.received, h.pending, h.reorder, h.numbers, h.limit, h.set_syn _⟩

theorem handleSyn (h : Pristine c) (packet : UTPPacket) (now : UInt32) :
    Pristine (c.handleSyn packet now) := by
  rw [UTPConnection.handleSyn]
  split
  · exact h
  · have hnoted : Pristine { c with
        remote_connection_id := packet.connection_id
        send_window := packet.wnd_size.toNat
        ack_nr := packet.seq_nr } :=
      ⟨h.expected, h.received, h.pending, h.reorder, h.numbers, h.limit, h.synOnly⟩
    have hsent := (hnoted.negotiation (processExtensionNegotiation_step _
      packet.extensions)).sendSynAck packet.seq_nr now
    simp only
    split
    · exact ⟨hsent.expected, hsent.received, hsent.pending, hsent.reorder, hsent.numbers,
        hsent.limit, hsent.synOnly⟩
    · exact hsent

end Pristine

theorem Handshaking.pristine {c : UTPConnection} (h : Handshaking c) : Pristine c := by
  induction h with
  | connect h now => exact h.pristine.connect now
  | incomingSyn m packet addr connection_id local_conn_id now =>
    have h : Pristine (m.acceptedConnection packet addr connection_id local_conn_id) :=
      ⟨rfl, rfl, rfl, rfl, rfl, rfl, by simp [UTPSocketManager.acceptedConnection, Dict.empty]⟩
    exact h.sendSynAck packet.seq_nr now
  | syn h packet now => exact h.pristine.handleSyn packet now
  | synAgain _ packet now ih => exact ih.handleSyn packet now

/-- What both kinds of handshake end with. -/
structure Ready (c : UTPConnection) : Prop extends Pristine c where
  connected : c.state = .CONNECTED
  sent : c.seq_nr = 1
  unacked : c.send_buffer.entries = []

theorem Pristine.completeHandshake {c : UTPConnection} (h : Pristine c) :
    Ready c.completeHandshake := by
  have he : (c.send_buffer.erase 0).entries = [] := by
    rw [Dict.erase, List.filter_eq_nil_iff]
    intro e he
    simp [h.synOnly e he]
  exact ⟨⟨h.expected, h.received, h.pending, h.reorder, h.numbers, h.limit, by
    rw [UTPConnection.completeHandshake, he]
    simp⟩, rfl, rfl, he⟩

theorem Established.ready {c : UTPConnection} (h : Established c) : Ready c := by
  cases h with
  | @initiator c h hs packet now =>
    have hnoted : Pristine { c with remote_connection_id := packet.connection_id } :=
      ⟨h.pristine.expected, h.pristine.received, h.pristine.pending,
        h.pristine.reorder, h.pristine.numbers, h.pristine.limit, h.pristine.synOnly⟩
    have hn := hnoted.negotiation (processExtensionNegotiation_step _ packet.extensions)
    rw [handleSynAck, if_neg (by simp [hs])]
    apply Pristine.completeHandshake
    exact ⟨hn.expected, hn.received, hn.pending, hn.reorder, hn.numbers, hn.limit, hn.synOnly⟩
  | acceptor h hs packet hp now =>
    rw [handleStatePacket, if_pos ⟨hs, hp⟩]
    exact h.pristine.completeHandshake

/-- An initiator under number 1 that has handled the SYN-ACK of an acceptor under number 2. -/
def sampleInitiator : UTPConnection :=
  (({ config := {}, remote_addr := ("10.0.0.2", 6881), connection_id := 1 } :
    UTPConnection).connect 0).handleSynAck { type := 4, connection_id := 2, wnd_size := 65535 } 0

/-- The acceptor, with an acknowledgment of its SYN's number 0. -/
def sampleAcceptor : UTPConnection :=
  ((({ config := {} } : UTPSocketManager).acceptedConnection
    { type := 4, connection_id := 1, wnd_size := 65535 } ("10.0.0.1", 6881) 1 2).sendSynAck 0
      0).handleStatePacket { type := 2, connection_id := 1, seq_nr := 1, wnd_size := 65535 } 0

theorem established_sampleInitiator : Established sampleInitiator :=
  .initiator (.connect ⟨_, _, _, _, rfl⟩ 0) rfl _ 0

theorem established_sampleAcceptor : Established sampleAcceptor :=
  .acceptor (.incomingSyn _ { type := 4, connection_id := 1, wnd_size := 65535 } _ 1 2 0) rfl _
    rfl 0

/-- A data packet that is not the expected one adds nothing to the received data. -/
theorem handlePacket_data_of_ne {c : UTPConnection} {p : OutgoingPacket}
    (htype : p.type = UTPPacketType.ST_DATA.toByte) (hp : p.toUTPPacket.Delimited)
    (hne : p.seq_nr ≠ c.recv_buffer_expected_seq) (ecn_ce : Bool) (now : UInt32) :
    (c.handlePacket p.bytes ecn_ce now).recv_data_buffer = c.recv_data_buffer := by
  obtain ⟨noted, ⟨_, _, _, _, _, rfl⟩, he⟩ := c.handlePacket_bytes hp ecn_ce now
  rw [he, route, htype, if_neg (by decide), if_neg (by decide), if_pos rfl, handleDataPacket]
  obtain ⟨_, _, _, _, _, hack⟩ := sendAck_step
    ((noteReceived _ p.seq_nr).storeData { p.toUTPPacket with extension := p.extensionField })
    { p.toUTPPacket with extension := p.extensionField } now
  rw [hack, storeData, noteReceived, if_neg hne]

@[simp] theorem flushed_flushed (c : UTPConnection) : c.flushed.flushed = c.flushed := rfl

namespace Ready

variable {c : UTPConnection}

theorem flushed (h : Ready c) : Ready c.flushed :=
  ⟨⟨h.expected, h.received, h.pending, h.reorder, h.numbers, h.limit, h.synOnly⟩, h.connected,
    h.sent, h.unacked⟩

theorem sendBatchedAcks (h : Ready c) (now : UInt32) : c.sendBatchedAcks now = c := by
  rw [UTPConnection.sendBatchedAcks, h.pending]
  rfl

theorem checkRetransmissions (h : Ready c) (expired : UInt16 → Nat → Bool) (now : UInt32) :
    c.checkRetransmissions expired now = c := by
  rw [UTPConnection.checkRetransmissions, h.unacked]
  rfl

theorem canSend (h : Ready c) : c.canSend = decide (c.send_window ≠ 0) := by
  simp [UTPConnection.canSend, h.limit, Dict.size, h.unacked]

theorem sendRound_of_window_eq_zero (h : Ready c) (hw : c.send_window = 0) (data : Bytes)
    (now : UInt32) : c.sendRound data now = (c, data.drop c.payloadSize) := by
  rw [sendRound, h.canSend, if_neg (by simp [hw])]

end Ready

theorem payloadSize_pos (c : UTPConnection) : 0 < c.payloadSize := by
  have := c.config.mtu_ge
  rw [payloadSize, UTPPacket.HEADER_SIZE]
  omega

/-- The first data packet of a stream. Its number is not the one that the receiver expects. -/
def IsFirst (p : OutgoingPacket) : Prop :=
  p.type = UTPPacketType.ST_DATA.toByte ∧ p.seq_nr = 2 ∧ p.data ≠ [] ∧ p.toUTPPacket.Delimited

/-- A round of `send` on data that is left, before anything has been emitted. -/
theorem Ready.sendRound {c : UTPConnection} (h : Ready c) (hw : c.send_window ≠ 0) {data : Bytes}
    (hd : data ≠ []) (now : UInt32) :
    ∃ p, IsFirst p ∧ (c.sendRound data now).1.transport = c.transport ++ [p] := by
  have hcan : c.canSend = true := by
    rw [h.canSend]
    exact decide_eq_true hw
  have hseq : c.seq_nr + 1 = 2 := by rw [h.sent]; rfl
  have hchunk : data.take c.payloadSize ≠ [] := by
    rw [ne_eq, List.take_eq_nil_iff, not_or]
    exact ⟨(payloadSize_pos c).ne', hd⟩
  rw [UTPConnection.sendRound, if_pos hcan]
  exact ⟨_, ⟨rfl, hseq, hchunk, Or.inl rfl⟩, rfl⟩

/-- The receiver puts the first data packet aside. -/
theorem Ready.handlePacket_first {c : UTPConnection} (h : Ready c) {p : OutgoingPacket}
    (hp : IsFirst p) (ecn_ce : Bool) (now : UInt32) :
    (c.handlePacket p.bytes ecn_ce now).recv_data_buffer = [] := by
  have hne : p.seq_nr ≠ c.recv_buffer_expected_seq := by
    rw [hp.2.1, h.expected]
    decide
  rw [handlePacket_data_of_ne hp.1 hp.2.2.2 hne, h.received]

end UTPConnection

open UTPConnection

/-- A sender, a receiver and the data packets between them. -/
structure Transfer where
  sender : UTPConnection
  receiver : UTPConnection
  /-- Chunks that have not been passed to `send` yet. -/
  chunks : List Bytes
  /-- The data left over in the call of `send` that is under way. -/
  current : Option Bytes := none
  /-- Data packets that have been emitted and not handled yet, the oldest first. -/
  link : List OutgoingPacket := []
  /-- Data packets that the receiver has handled, the oldest first. -/
  handled : List OutgoingPacket := []

namespace Transfer

def start (s r : UTPConnection) (chunks : List Bytes) : Transfer :=
  { sender := s.flushed, receiver := r.flushed, chunks }

/-- Let the sender act; the data packets that it emits are put on the link. -/
def act (t : Transfer) (f : UTPConnection → UTPConnection) : Transfer :=
  let sender := f t.sender.flushed
  { t with
    sender
    link := t.link ++ sender.transport.filter (·.type = UTPPacketType.ST_DATA.toByte) }

inductive Event
  /-- The program goes on with `send`: it calls it, its loop makes a round, or it returns. -/
  | send (now : UInt32)
  /-- The receiver handles the next data packet. -/
  | deliver (ecn_ce : Bool) (now : UInt32)
  /-- The sender handles a datagram of the receiver's, any one and any number of times. -/
  | ack (k : Nat) (ecn_ce : Bool) (now : UInt32)
  /-- The receiver sends a delayed acknowledgment. -/
  | ackTimer (now : UInt32)
  /-- The sender looks for packets that are due for another transmission. -/
  | retransmit (expired : UInt16 → Nat → Bool) (now : UInt32)

def sendStep (t : Transfer) (now : UInt32) : Transfer :=
  match t.current with
  | some [] => { t with current := none }
  | some data =>
    { t.act (fun c => (c.sendRound data now).1) with
      current := some (t.sender.sendRound data now).2 }
  | none =>
    match t.chunks with
    | [] => t
    | chunk :: chunks =>
      -- `send` raises where the connection is not connected
      if t.sender.state = .CONNECTED then { t with current := some chunk, chunks }
      else { t with chunks }

def step (t : Transfer) : Event → Transfer
  | .send now => t.sendStep now
  | .deliver ecn_ce now =>
    match t.link with
    | [] => t
    | p :: link =>
      { t with
        receiver := t.receiver.handlePacket p.bytes ecn_ce now
        link
        handled := t.handled ++ [p] }
  | .ack k ecn_ce now =>
    match t.receiver.transport[k]? with
    | none => t
    | some p => t.act (fun c => c.handlePacket p.bytes ecn_ce now)
  | .ackTimer now => { t with receiver := t.receiver.sendBatchedAcks now }
  | .retransmit expired now => t.act (fun c => c.checkRetransmissions expired now)

/-- Every chunk has been passed to `send` and every emitted data packet has been handled. -/
def Done (t : Transfer) : Prop := t.chunks = [] ∧ t.current = none ∧ t.link = []

/-- The received data is what the handled packets carried, in their order. -/
def InOrder (t : Transfer) : Prop :=
  t.receiver.recv_data_buffer = t.handled.flatMap (·.data)

instance (t : Transfer) : Decidable t.InOrder := inferInstanceAs (Decidable (_ = _))

/-! ### The first data packet -/

section FirstPacket

variable {s r : UTPConnection} {t : Transfer}

/-- Nothing has been emitted since the start. -/
structure Unsent (s r : UTPConnection) (t : Transfer) : Prop where
  sender : t.sender = s.flushed
  receiver : t.receiver = r.flushed
  link : t.link = []
  handled : t.handled = []

theorem unsent_start (s r : UTPConnection) (chunks : List Bytes) :
    Unsent s r (start s r chunks) := ⟨rfl, rfl, rfl, rfl⟩

theorem Unsent.inOrder (hr : Ready r) (h : Unsent s r t) : t.InOrder := by
  rw [InOrder, h.receiver, h.handled]
  exact hr.received

/-- Before anything has been emitted, only `send` does anything. -/
theorem Unsent.step_of_not_send (hs : Ready s) (hr : Ready r) (h : Unsent s r t) {e : Event}
    (he : ∀ now, e ≠ .send now) : t.step e = t := by
  obtain ⟨_, _, chunks, current, _, _⟩ := t
  obtain ⟨hsender, hreceiver, hlink, hhandled⟩ := h
  dsimp only at hsender hreceiver hlink hhandled
  subst hsender hreceiver hlink hhandled
  cases e with
  | send now => exact absurd rfl (he now)
  | deliver ecn_ce now => rfl
  | ack k ecn_ce now => rfl
  | ackTimer now => rw [step, hr.flushed.sendBatchedAcks]
  | retransmit expired now =>
    simp only [step, act, s.flushed_flushed, hs.flushed.checkRetransmissions]
    rfl

/-- The condition under which nothing is ever emitted, as it is seen in a later state. -/
def Nothing (s : UTPConnection) (t : Transfer) : Prop :=
  s.send_window = 0 ∨
    ((∀ chunk ∈ t.chunks, chunk = []) ∧ ∀ data, t.current = some data → data = [])

theorem nothing_start (s r : UTPConnection) (chunks : List Bytes) :
    Nothing s (start s r chunks) ↔ s.send_window = 0 ∨ ∀ chunk ∈ chunks, chunk = [] := by
  simp [Nothing, start]

/-- A packet has been emitted, and the receiver has not handled any. -/
structure Sent (r : UTPConnection) (t : Transfer) : Prop where
  receiver : t.receiver = r.flushed
  handled : t.handled = []
  first : ∃ p link, t.link = p :: link ∧ IsFirst p

/-- A round of the program's sending before anything has been emitted: it emits the first
packet, or all is as it was. -/
theorem Unsent.sendStep (hs : Ready s) (h : Unsent s r t) (now : UInt32) :
    (Unsent s r (t.sendStep now) ∧ (Nothing s (t.sendStep now) ↔ Nothing s t)) ∨
      (¬Nothing s t ∧ Sent r (t.sendStep now)) := by
  obtain ⟨_, _, chunks, current, _, _⟩ := t
  obtain ⟨hsender, hreceiver, hlink, hhandled⟩ := h
  dsimp only at hsender hreceiver hlink hhandled
  subst hsender hreceiver hlink hhandled
  cases current with
  | none =>
    cases chunks with
    | nil => exact Or.inl ⟨⟨rfl, rfl, rfl, rfl⟩, Iff.rfl⟩
    | cons chunk chunks =>
      have hc : s.flushed.state = .CONNECTED := hs.connected
      simp only [Transfer.sendStep, if_pos hc]
      exact Or.inl ⟨⟨rfl, rfl, rfl, rfl⟩, by simp [Nothing, and_comm]⟩
  | some data =>
    cases data with
    | nil => exact Or.inl ⟨⟨rfl, rfl, rfl, rfl⟩, by simp [Nothing, Transfer.sendStep]⟩
    | cons b data =>
      by_cases hw : s.send_window = 0
      · simp only [Transfer.sendStep, act, s.flushed_flushed,
          hs.flushed.sendRound_of_window_eq_zero hw]
        exact Or.inl ⟨⟨rfl, rfl, rfl, rfl⟩, by simp [Nothing, hw]⟩
      · obtain ⟨p, hp, htransport⟩ := hs.flushed.sendRound hw (List.cons_ne_nil b data) now
        refine Or.inr ⟨by simp [Nothing, hw], rfl, rfl, p, [], ?_, hp⟩
        simp only [Transfer.sendStep, act, s.flushed_flushed, htransport]
        simp [UTPConnection.flushed, hp.1]

/-- The sender's steps leave the receiver alone and only add to the link. -/
theorem sendStep_frame (t : Transfer) (now : UInt32) :
    (t.sendStep now).receiver = t.receiver ∧ (t.sendStep now).handled = t.handled ∧
      ∃ emitted, (t.sendStep now).link = t.link ++ emitted := by
  rw [Transfer.sendStep]
  split
  · exact ⟨rfl, rfl, [], (List.append_nil _).symm⟩
  · exact ⟨rfl, rfl, _, rfl⟩
  · split
    · exact ⟨rfl, rfl, [], (List.append_nil _).symm⟩
    · split <;> exact ⟨rfl, rfl, [], (List.append_nil _).symm⟩

theorem Sent.of_frame {t' : Transfer} (h : Sent r t)
    (ht : t'.receiver = t.receiver ∧ t'.handled = t.handled ∧
      ∃ emitted, t'.link = t.link ++ emitted) : Sent r t' := by
  obtain ⟨hreceiver, hhandled, emitted, hlink⟩ := ht
  obtain ⟨p, rest, hp, hfirst⟩ := h.first
  refine ⟨hreceiver.trans h.receiver, hhandled.trans h.handled, p, rest ++ emitted, ?_, hfirst⟩
  rw [hlink, hp, List.cons_append]

/-- Until the receiver handles a packet, the first packet stays at the head of the link. -/
theorem Sent.step (hr : Ready r) (h : Sent r t) (e : Event) (hin : (t.step e).InOrder) :
    Sent r (t.step e) := by
  cases e with
  | send now => exact h.of_frame (t.sendStep_frame now)
  | deliver ecn_ce now =>
    -- the packet is put aside, so its payload is missing
    obtain ⟨p, rest, hlink, hp⟩ := h.first
    have hdata := hr.flushed.handlePacket_first hp ecn_ce now
    simp only [Transfer.step, hlink, InOrder, h.receiver, hdata, h.handled, List.nil_append,
      List.flatMap_singleton] at hin
    exact absurd hin.symm hp.2.2.1
  | ack k ecn_ce now =>
    rw [Transfer.step]
    split
    · exact h
    · exact h.of_frame ⟨rfl, rfl, _, rfl⟩
  | ackTimer now =>
    rw [Transfer.step, h.receiver, hr.flushed.sendBatchedAcks, ← h.receiver]
    exact h
  | retransmit expired now => exact h.of_frame ⟨rfl, rfl, _, rfl⟩

/-- While the received data is in order, nothing has been emitted, or the first packet has and
waits at the head of the link. -/
theorem unsent_or_sent_step (hs : Ready s) (hr : Ready r) (e : Event)
    (h : (Unsent s r t ∧ ¬Nothing s t) ∨ Sent r t) (hin : (t.step e).InOrder) :
    (Unsent s r (t.step e) ∧ ¬Nothing s (t.step e)) ∨ Sent r (t.step e) := by
  obtain ⟨h, hn⟩ | h := h
  · by_cases he : ∀ now, e ≠ .send now
    · rw [h.step_of_not_send hs hr he]
      exact Or.inl ⟨h, hn⟩
    · push Not at he
      obtain ⟨now, rfl⟩ := he
      obtain ⟨h', hiff⟩ | ⟨_, h'⟩ := h.sendStep hs now
      · exact Or.inl ⟨h', fun hc => hn (hiff.mp hc)⟩
      · exact Or.inr h'
  · exact Or.inr (h.step hr e hin)

theorem unsent_step (hs : Ready s) (hr : Ready r) (e : Event)
    (h : Unsent s r t ∧ Nothing s t) : Unsent s r (t.step e) ∧ Nothing s (t.step e) := by
  by_cases he : ∀ now, e ≠ .send now
  · rw [h.1.step_of_not_send hs hr he]
    exact h
  · push Not at he
    obtain ⟨now, rfl⟩ := he
    obtain ⟨h', hiff⟩ | ⟨hn, _⟩ := h.1.sendStep hs now
    · exact ⟨h', hiff.mpr h.2⟩
    · exact absurd h.2 hn

end FirstPacket

/-- Over a run that passes all chunks to `send` and has the receiver handle everything, the
received data is always in order exactly when there is nothing to send: all chunks are
empty, or the receiver has advertised a window of size zero. -/
theorem inOrder_iff {s r : UTPConnection} (hs : Established s) (hr : Established r)
    (chunks : List Bytes) {es : List Event} (hdone : (run step (start s r chunks) es).Done) :
    (∀ n, (run step (start s r chunks) (es.take n)).InOrder) ↔
      s.send_window = 0 ∨ ∀ chunk ∈ chunks, chunk = [] := by
  rw [← always_iff_take, ← nothing_start s r chunks]
  constructor
  · intro hall
    by_contra hn
    have hend := invariant_of_always
      (fun t e h hin => unsent_or_sent_step (t := t) hs.ready hr.ready e h hin)
      (Or.inl ⟨unsent_start s r chunks, hn⟩) hall
    obtain ⟨hchunks, hcurrent, hlink⟩ := hdone
    obtain ⟨_, hn⟩ | h := hend
    · exact hn (Or.inr ⟨by simp [hchunks], by simp [hcurrent]⟩)
    · obtain ⟨p, rest, hp, _⟩ := h.first
      rw [hlink] at hp
      exact absurd hp (by simp)
  · intro hn
    have hall : Always step (fun t => Unsent s r t ∧ Nothing s t) (start s r chunks) es := by
      apply always_of_invariant
      · intro t e h
        exact unsent_step hs.ready hr.ready e h
      · exact ⟨unsent_start s r chunks, hn⟩
    exact hall.mono (fun t h => h.1.inOrder hr.ready)

/-- One chunk is passed to `send` and sent, the call returns, and the packet is handled. -/
def sampleRun : List Event := [.send 0, .send 0, .send 0, .deliver false 0]

theorem not_inOrder_one_chunk : Established sampleInitiator ∧ Established sampleAcceptor ∧
    (run step (start sampleInitiator sampleAcceptor [ascii "hi"]) sampleRun).Done ∧
    ¬∀ n, (run step (start sampleInitiator sampleAcceptor [ascii "hi"])
      (sampleRun.take n)).InOrder := by
  refine ⟨established_sampleInitiator, established_sampleAcceptor, ⟨rfl, rfl, rfl⟩, ?_⟩
  intro h
  exact absurd (h 4) (by decide +kernel)

theorem inOrder_iff_one_chunk :
    (∀ n, (run step (start sampleInitiator sampleAcceptor [ascii "hi"])
      (sampleRun.take n)).InOrder) ↔
      sampleInitiator.send_window = 0 ∨ ∀ chunk ∈ [ascii "hi"], chunk = [] :=
  inOrder_iff established_sampleInitiator established_sampleAcceptor [ascii "hi"]
    ⟨rfl, rfl, rfl⟩

end Transfer

end Utp

end Ccbt
