import Mathlib.Logic.Function.Basic
import Ccbt.Transition.Run
import Ccbt.Transport.Utp.Advertisement
import Ccbt.Transport.Utp.SocketManager

/-!
# Two uTP connections and their windows

Two connections of any configurations talk to each other over a channel that may lose,
delay, reorder and duplicate: a packet that one side has sent is handled by the other at
any time and any number of times. A connection announces the window it has, but its peer
multiplies the announced number by the scale that the connection has offered.
-/

namespace Ccbt

open Python Transition

namespace Utp

/-- What `_handle_incoming_syn` does to the connection that it makes for a datagram. -/
def UTPConnection.acceptSyn (c : UTPConnection) (packet_data : Bytes) (now : UInt32) :
    UTPConnection :=
  match UTPPacket.unpack packet_data with
  | .error _ => c
  | .ok packet =>
    if packet.type ≠ UTPPacketType.ST_SYN.toByte then c
    else
      let c := { c with
        state := .SYN_RECEIVED
        remote_connection_id := packet.connection_id
        ack_nr := packet.seq_nr
        send_window := packet.wnd_size.toNat }
      c.sendSynAck packet.seq_nr now

/-- The manager's connection is a new one that has accepted the SYN. -/
theorem acceptSyn_eq_acceptedConnection (m : UTPSocketManager) {packet_data : Bytes}
    {packet : UTPPacket} (h : UTPPacket.unpack packet_data = .ok packet)
    (htype : packet.type = UTPPacketType.ST_SYN.toByte) (addr : Addr) (local_conn_id : UInt16)
    (now : UInt32) :
    ({ config := m.config, remote_addr := addr, connection_id := local_conn_id } :
      UTPConnection).acceptSyn packet_data now =
    (m.acceptedConnection packet addr packet.connection_id local_conn_id).sendSynAck
      packet.seq_nr now := by
  rw [UTPConnection.acceptSyn, h]
  simp only
  rw [if_neg (not_not.mpr htype)]
  rfl

namespace UTPConnection

variable {window : UInt32} {scale : ScaleFactor} {peer_scale : Nat} {c : UTPConnection}

theorem Consistent.acceptSyn (h : c.Consistent window scale peer_scale) (packet_data : Bytes)
    (now : UInt32) : (c.acceptSyn packet_data now).Consistent window scale peer_scale := by
  rw [UTPConnection.acceptSyn]
  split
  · exact h
  · next packet _ =>
    split
    · exact h
    · have hnew : ({ c with
          state := .SYN_RECEIVED
          remote_connection_id := packet.connection_id
          ack_nr := packet.seq_nr
          send_window := packet.wnd_size.toNat } : UTPConnection).Consistent window scale
            peer_scale := { h with }
      exact hnew.sendSynAck packet.seq_nr now

/-- The accepted connection, for a SYN that the other side has sent. -/
theorem acceptSyn_bytes (c : UTPConnection) {p : OutgoingPacket}
    (hp : p.toUTPPacket.Delimited) (htype : p.type = UTPPacketType.ST_SYN.toByte)
    (now : UInt32) : c.acceptSyn p.bytes now =
      ({ c with
        state := .SYN_RECEIVED
        remote_connection_id := p.connection_id
        ack_nr := p.seq_nr
        send_window := p.wnd_size.toNat } : UTPConnection).sendSynAck p.seq_nr now := by
  rw [UTPConnection.acceptSyn, OutgoingPacket.bytes, UTPPacket.unpack_serialize hp]
  simp only
  rw [if_neg (not_not.mpr htype)]

end UTPConnection

inductive Side
  | near
  | far
  deriving DecidableEq

namespace Side

def other : Side → Side
  | near => far
  | far => near

@[simp] theorem other_other (s : Side) : s.other.other = s := by cases s <;> rfl

@[simp] theorem other_ne (s : Side) : s.other ≠ s := by cases s <;> decide

end Side

/-- What a connection is made with. -/
structure Endpoint where
  config : UTPConfig
  remote_addr : Addr
  connection_id : UInt16
  recv_window : UInt32

def Endpoint.connection (e : Endpoint) : UTPConnection :=
  { config := e.config
    remote_addr := e.remote_addr
    connection_id := e.connection_id
    recv_window := e.recv_window }

/-- A side whose announced window is the same at every scale that it may offer. -/
def Endpoint.Unscaled (e : Endpoint) : Prop :=
  e.recv_window = 0 ∨ e.config.max_window_size ≤ 65535

theorem le_scaleLoop (max_window n : Nat) (scale_factor : ScaleFactor) :
    scale_factor ≤ UTPConnection.scaleLoop max_window n scale_factor := by
  induction n generalizing scale_factor with
  | zero => exact le_rfl
  | succ n ih =>
    rw [UTPConnection.scaleLoop]
    split
    · next h =>
      have hlt : scale_factor ≤ scale_factor + 1 := by
        rw [Fin.le_def, Fin.val_add_one_of_lt' (by omega)]
        omega
      exact hlt.trans (ih _)
    · exact le_rfl

theorem UTPConfig.scaleFactor_eq_zero_iff (config : UTPConfig) :
    config.scaleFactor = 0 ↔ config.max_window_size ≤ 65535 := by
  rw [UTPConfig.scaleFactor, UTPConnection.scaleLoop]
  split
  · next h =>
    have h1 : (1 : ScaleFactor) ≤ _ := le_scaleLoop config.max_window_size 13 (0 + 1)
    constructor
    · intro h0
      rw [h0] at h1
      exact absurd h1 (by decide)
    · intro hle
      simp at h
      omega
  · next h =>
    refine iff_of_true rfl ?_
    simpa using h

/-- The window at the offered scale is the window itself exactly where nothing is scaled. -/
theorem Endpoint.shiftLeft_le_iff (e : Endpoint) :
    e.recv_window.toNat <<< e.config.scaleFactor.val ≤ e.recv_window.toNat ↔ e.Unscaled := by
  rw [Endpoint.Unscaled, ← UTPConfig.scaleFactor_eq_zero_iff, Nat.shiftLeft_eq]
  constructor
  · intro h
    by_contra hne
    obtain ⟨hw, hs⟩ := not_or.mp hne
    have hpos : 0 < e.recv_window.toNat := by
      refine Nat.pos_of_ne_zero fun h0 => hw ?_
      exact UInt32.toNat_inj.mp h0
    have hscale : 1 < 2 ^ e.config.scaleFactor.val :=
      Nat.one_lt_two_pow (fun h0 => hs (Fin.ext h0))
    exact absurd h (not_le.mpr ((Nat.lt_mul_iff_one_lt_right hpos).mpr hscale))
  · rintro (h | h)
    · simp [h]
    · simp [h]

/-- Two connections, and all packets that each has sent so far. -/
structure Dialogue where
  conn : Side → UTPConnection
  sent : Side → List OutgoingPacket

namespace Dialogue

/-- `k` is the place of a packet among all that the other side has sent. -/
inductive Event
  | connect (side : Side) (now : UInt32)
  | accept (side : Side) (k : Nat) (now : UInt32)
  | deliver (side : Side) (k : Nat) (ecn_ce : Bool) (now : UInt32)
  | send (side : Side) (data : Bytes) (now : UInt32)
  | receive (side : Side) (max_bytes : Int)
  | sendBatchedAcks (side : Side) (now : UInt32)
  | checkRetransmissions (side : Side) (expired : UInt16 → Nat → Bool) (now : UInt32)
  | close (side : Side) (now : UInt32)

def Event.side : Event → Side
  | connect s _ | accept s _ _ | deliver s _ _ _ | send s _ _ | receive s _
  | sendBatchedAcks s _ | checkRetransmissions s _ _ | close s _ => s

/-- What an event calls on the connection of its side. -/
def method (d : Dialogue) : Event → UTPConnection → UTPConnection
  | .connect _ now, c => if c.state = .IDLE then c.connect now else c
  | .accept s k now, c =>
    match (d.sent s.other)[k]? with
    | none => c
    | some p => if c.state = .IDLE then c.acceptSyn p.bytes now else c
  | .deliver s k ecn_ce now, c =>
    match (d.sent s.other)[k]? with
    | none => c
    | some p => c.handlePacket p.bytes ecn_ce now
  | .send _ data now, c => if c.state = .CONNECTED then (c.sendRound data now).1 else c
  | .receive _ max_bytes, c =>
    match c.receive max_bytes with
    | none => c
    | some (_, c') => c'
  | .sendBatchedAcks _ now, c => c.sendBatchedAcks now
  | .checkRetransmissions _ expired now, c => c.checkRetransmissions expired now
  | .close _ now, c => c.close now

def step (d : Dialogue) (e : Event) : Dialogue :=
  let c := d.method e (d.conn e.side).flushed
  { conn := Function.update d.conn e.side c
    sent := Function.update d.sent e.side (d.sent e.side ++ c.transport) }

def start (endpoint : Side → Endpoint) : Dialogue :=
  { conn := fun s => (endpoint s).connection
    sent := fun _ => [] }

/-- The event makes its side take over the window of a packet of the other side. -/
def TakesOver (d : Dialogue) (p : OutgoingPacket) : Event → Prop
  | .accept s k _ =>
    (d.sent s.other)[k]? = some p ∧ (d.conn s).state = .IDLE ∧
      p.type = UTPPacketType.ST_SYN.toByte
  | .deliver s k _ _ => (d.sent s.other)[k]? = some p ∧ (d.conn s).TakesWindow p.toUTPPacket
  | _ => False

/-- The window that an event takes over is not set larger than its sender has it. -/
def WindowAgrees (d : Dialogue) (e : Event) : Prop :=
  ∀ p, d.TakesOver p e →
    ((d.step e).conn e.side).send_window ≤ (d.conn e.side.other).recv_window.toNat

variable {endpoint : Side → Endpoint} {d : Dialogue} {s : Side}

@[simp] theorem step_conn_side (d : Dialogue) (e : Event) :
    (d.step e).conn e.side = d.method e (d.conn e.side).flushed := by
  simp [step]

@[simp] theorem step_sent_side (d : Dialogue) (e : Event) :
    (d.step e).sent e.side =
      d.sent e.side ++ (d.method e (d.conn e.side).flushed).transport := by
  simp [step]

theorem step_conn_ne {e : Event} (h : s ≠ e.side) : (d.step e).conn s = d.conn s :=
  Function.update_of_ne h _ _

theorem step_sent_ne {e : Event} (h : s ≠ e.side) : (d.step e).sent s = d.sent s :=
  Function.update_of_ne h _ _

theorem method_accept {k : Nat} {p : OutgoingPacket} {c : UTPConnection}
    (hget : (d.sent s.other)[k]? = some p) (hstate : c.state = .IDLE) (now : UInt32) :
    d.method (.accept s k now) c = c.acceptSyn p.bytes now := by
  simp only [method, hget]
  rw [if_pos hstate]

theorem method_deliver {k : Nat} {p : OutgoingPacket} (hget : (d.sent s.other)[k]? = some p)
    (ecn_ce : Bool) (now : UInt32) (c : UTPConnection) :
    d.method (.deliver s k ecn_ce now) c = c.handlePacket p.bytes ecn_ce now := by
  simp only [method, hget]

/-! ### What each side knows of the other -/

/-- A connection is consistent with its endpoint, at a scale that the peer has offered. -/
def KnowsPeer (endpoint : Side → Endpoint) (s : Side) (c : UTPConnection) : Prop :=
  ∃ peer_scale : Nat, peer_scale ≤ (endpoint s.other).config.scaleFactor ∧
    c.Consistent (endpoint s).recv_window (endpoint s).config.scaleFactor peer_scale

structure Inv (endpoint : Side → Endpoint) (d : Dialogue) : Prop where
  conn : ∀ s, KnowsPeer endpoint s (d.conn s)
  sent : ∀ s, ∀ p ∈ d.sent s,
    p.Advertises (endpoint s).recv_window (endpoint s).config.scaleFactor

theorem inv_start (endpoint : Side → Endpoint) : Inv endpoint (start endpoint) where
  conn s := by
    refine ⟨0, Nat.zero_le _, rfl, rfl, rfl, ?_, ?_, ?_⟩
    · intro seq entry h
      exact absurd h (by simp [start, Endpoint.connection])
    · simp [start, Endpoint.connection]
    · simp [start, Endpoint.connection]
  sent s p hp := by simp [start] at hp

theorem knowsPeer_method (h : Inv endpoint d) (e : Event) {c : UTPConnection}
    (hc : KnowsPeer endpoint e.side c) : KnowsPeer endpoint e.side (d.method e c) := by
  obtain ⟨peer_scale, hle, hc⟩ := hc
  cases e with
  | connect s now =>
    refine ⟨peer_scale, hle, ?_⟩
    rw [method]
    split
    · exact hc.connect now
    · exact hc
  | accept s k now =>
    refine ⟨peer_scale, hle, ?_⟩
    rw [method]
    split
    · exact hc
    · split
      · exact hc.acceptSyn _ now
      · exact hc
  | deliver s k ecn_ce now =>
    simp only [method]
    split
    · exact ⟨peer_scale, hle, hc⟩
    · next p hget =>
      exact hc.handlePacket (h.sent s.other p (List.mem_of_getElem? hget)) hle ecn_ce now
  | send s data now =>
    refine ⟨peer_scale, hle, ?_⟩
    rw [method]
    split
    · exact hc.sendRound data now
    · exact hc
  | receive s max_bytes =>
    refine ⟨peer_scale, hle, ?_⟩
    simp only [method]
    split
    · exact hc
    · next hreceive => exact hc.receive hreceive
  | sendBatchedAcks s now => exact ⟨peer_scale, hle, hc.sendBatchedAcks now⟩
  | checkRetransmissions s expired now =>
    exact ⟨peer_scale, hle, hc.checkRetransmissions expired now⟩
  | close s now => exact ⟨peer_scale, hle, hc.close now⟩

theorem KnowsPeer.flushed {c : UTPConnection} (h : KnowsPeer endpoint s c) :
    KnowsPeer endpoint s c.flushed := by
  obtain ⟨peer_scale, hle, hc⟩ := h
  exact ⟨peer_scale, hle, hc.flushed⟩

theorem Inv.step (h : Inv endpoint d) (e : Event) : Inv endpoint (d.step e) := by
  have hc : KnowsPeer endpoint e.side (d.method e (d.conn e.side).flushed) :=
    knowsPeer_method h e (h.conn e.side).flushed
  constructor
  · intro s
    by_cases hs : s = e.side
    · rw [hs, step_conn_side]
      exact hc
    · rw [step_conn_ne hs]
      exact h.conn s
  · intro s p hp
    by_cases hs : s = e.side
    · rw [hs, step_sent_side, List.mem_append] at hp
      rw [hs]
      rcases hp with hp | hp
      · exact h.sent e.side p hp
      · obtain ⟨peer_scale, -, hc⟩ := hc
        exact hc.transport p hp
    · rw [step_sent_ne hs] at hp
      exact h.sent s p hp

/-! ### The windows that are taken over -/

theorem Inv.recv_window (h : Inv endpoint d) (s : Side) :
    (d.conn s).recv_window = (endpoint s).recv_window := by
  obtain ⟨_, -, hc⟩ := h.conn s
  exact hc.recv_window

/-- A window is taken over at the scale that its sender has offered, at most. -/
theorem Inv.send_window_le (h : Inv endpoint d) {e : Event} {p : OutgoingPacket}
    (ht : d.TakesOver p e) :
    ((d.step e).conn e.side).send_window ≤
      (endpoint e.side.other).recv_window.toNat <<<
        (endpoint e.side.other).config.scaleFactor.val := by
  rw [step_conn_side]
  cases e with
  | accept s k now =>
    obtain ⟨hget, hstate, htype⟩ := ht
    have hp := h.sent s.other p (List.mem_of_getElem? hget)
    simp only [Event.side]
    rw [method_accept (c := (d.conn s).flushed) hget hstate,
      UTPConnection.acceptSyn_bytes _ hp.delimited htype]
    calc p.wnd_size.toNat = (endpoint s.other).recv_window.toNat <<< 0 := by
          rw [hp.wnd_size, Nat.shiftLeft_zero]
      _ ≤ _ := by
        rw [Nat.shiftLeft_eq, Nat.shiftLeft_eq]
        exact Nat.mul_le_mul_left _ (Nat.pow_le_pow_right Nat.two_pos (Nat.zero_le _))
  | deliver s k ecn_ce now =>
    obtain ⟨hget, htakes⟩ := ht
    have hp := h.sent s.other p (List.mem_of_getElem? hget)
    obtain ⟨peer_scale, hle, hc⟩ := (h.conn s).flushed
    simp only [Event.side]
    rw [method_deliver hget]
    exact UTPConnection.handlePacket_send_window_le hc hp hle htakes ecn_ce now
  | _ => exact ht.elim

theorem Inv.windowAgrees (h : Inv endpoint d) (hscale : ∀ s, (endpoint s).Unscaled) (e : Event) :
    d.WindowAgrees e := by
  intro p ht
  rw [h.recv_window]
  exact (h.send_window_le ht).trans
    ((endpoint e.side.other).shiftLeft_le_iff.mpr (hscale e.side.other))

/-! ### A scaled window is taken over -/

/-- A connection that applies no scale yet takes over the one that is offered. -/
theorem negotiated_scale {c c' : UTPConnection} (hscale : c.window_scale = 0)
    (hc : .WINDOW_SCALING ∈ c.supported_extensions)
    (hc' : .WINDOW_SCALING ∈ c'.supported_extensions) :
    (c.processExtensionNegotiation c'.advertiseExtensions).window_scale =
      c'.config.scaleFactor.val := by
  have hoffer (c : UTPConnection) (h0 : c.window_scale = 0)
      (hc : .WINDOW_SCALING ∈ c.supported_extensions) (f : ScaleFactor) :
      (c.negotiate (.windowScaling f)).window_scale = f.val := by
    rw [UTPConnection.negotiate, if_pos hc]
    exact if_pos h0
  have hecn : (c.negotiate (.ecn false false)).window_scale = 0 ∧
      .WINDOW_SCALING ∈ (c.negotiate (.ecn false false)).supported_extensions := by
    rw [UTPConnection.negotiate]
    split
    · exact ⟨hscale, hc⟩
    · exact ⟨hscale, hc⟩
  rw [UTPConnection.processExtensionNegotiation, UTPConnection.advertiseExtensions,
    if_pos hc', UTPConfig.scaleFactor, List.foldl_append]
  simp only
  -- the SYN-ACK may announce ECN first, and it offers a scale unless that is 0
  split
  · split
    · exact hoffer _ hecn.1 hecn.2 _
    · next h0 =>
      rw [Fin.not_lt, Fin.le_zero_iff] at h0
      rw [h0]
      exact hecn.1
  · split
    · exact hoffer c hscale hc _
    · next h0 =>
      rw [Fin.not_lt, Fin.le_zero_iff] at h0
      rw [h0]
      exact hscale

/-- A connection that has connected by itself reads the SYN-ACK of a new connection at the
scale that it offers. -/
theorem handlePacket_synAck_send_window {c c' : UTPConnection} {p : OutgoingPacket}
    (hstate : c.state = .SYN_SENT) (hscale : c.window_scale = 0)
    (hc : .WINDOW_SCALING ∈ c.supported_extensions)
    (hc' : .WINDOW_SCALING ∈ c'.supported_extensions)
    (htype : p.type = UTPPacketType.ST_SYN.toByte) (hdata : p.data = [])
    (hexts : p.extensions = c'.advertiseExtensions) (ecn_ce : Bool) (now : UInt32) :
    (c.handlePacket p.bytes ecn_ce now).send_window =
      p.wnd_size.toNat <<< c'.config.scaleFactor.val := by
  obtain ⟨noted, hn, he⟩ := c.handlePacket_bytes (.inr hdata) ecn_ce now
  have hsent : noted.state = .SYN_SENT := hn.state.trans hstate
  obtain ⟨_, _, _, _, _, rfl⟩ := hn
  rw [he, UTPConnection.route, if_pos htype, if_pos hsent,
    UTPConnection.handleSynAck_send_window hsent]
  congr 1
  rw [UTPConnection.handleSynAck, if_neg (not_not.mpr hsent)]
  change (UTPConnection.processExtensionNegotiation _ p.extensions).window_scale = _
  rw [hexts]
  exact negotiated_scale hscale hc hc'

/-- One side connects, the other accepts, and the answer is delivered. -/
def handshake (s : Side) : List Event :=
  [.connect s.other 0, .accept s 0 0, .deliver s.other 0 false 0]

/-- What the accepting side sends back in `handshake`. -/
def synAck (e : Endpoint) : OutgoingPacket := (e.connection.synPacket 0).setTimestamp 0

/-- The state before the answer is delivered. -/
theorem run_handshake (endpoint : Side → Endpoint) (s : Side) :
    let d := run step (start endpoint) ((handshake s).take 2)
    d.conn s.other = (endpoint s.other).connection.connect 0 ∧
      (d.conn s).recv_window = (endpoint s).recv_window ∧
      d.sent s = [synAck (endpoint s)] := by
  have hne : s ≠ s.other := (Side.other_ne s).symm
  let d := (start endpoint).step (.connect s.other 0)
  have hother : d.conn s.other = (endpoint s.other).connection.connect 0 :=
    step_conn_side (start endpoint) (.connect s.other 0)
  have hself : d.conn s = (endpoint s).connection := step_conn_ne hne
  have hsent : d.sent s = [] := step_sent_ne hne
  have hother_sent : d.sent s.other = [synAck (endpoint s.other)] :=
    step_sent_side (start endpoint) (.connect s.other 0)
  have hsyn : (d.sent s.other)[0]? = some (synAck (endpoint s.other)) := by
    rw [hother_sent]
    rfl
  have haccept : d.method (.accept s 0 0) (d.conn s).flushed =
      (endpoint s).connection.acceptSyn (synAck (endpoint s.other)).bytes 0 := by
    rw [hself]
    exact method_accept hsyn rfl 0
  rw [UTPConnection.acceptSyn_bytes _ (.inr rfl) rfl] at haccept
  change (d.step (.accept s 0 0)).conn s.other = _ ∧
    ((d.step (.accept s 0 0)).conn s).recv_window = _ ∧ (d.step (.accept s 0 0)).sent s = _
  refine ⟨?_, ?_, ?_⟩
  · exact (step_conn_ne (Side.other_ne s)).trans hother
  · have := step_conn_side d (.accept s 0 0)
    simp only [Event.side] at this
    rw [this, haccept]
    rfl
  · have := step_sent_side d (.accept s 0 0)
    simp only [Event.side] at this
    rw [this, haccept, hsent]
    rfl

/-- The side that connects reads the window of the SYN-ACK scaled. -/
theorem unscaled_of_handshake (endpoint : Side → Endpoint) (s : Side)
    (h : StepsMeet step WindowAgrees (start endpoint) (handshake s)) :
    (endpoint s).Unscaled := by
  obtain ⟨hconn, hwindow, hsent⟩ := run_handshake endpoint s
  let d := run step (start endpoint) ((handshake s).take 2)
  have hagrees : d.WindowAgrees (.deliver s.other 0 false 0) := h.2.2.1
  have hget : (d.sent s.other.other)[0]? = some (synAck (endpoint s)) := by
    rw [Side.other_other, hsent]
    rfl
  have htakes : (d.conn s.other).TakesWindow (synAck (endpoint s)).toUTPPacket := by
    rw [hconn]
    exact .inl ⟨rfl, .inl rfl⟩
  have hread :
      ((d.conn s.other).flushed.handlePacket (synAck (endpoint s)).bytes false 0).send_window =
      (synAck (endpoint s)).wnd_size.toNat <<<
        (endpoint s).connection.config.scaleFactor.val := by
    rw [hconn]
    exact handlePacket_synAck_send_window rfl rfl (.tail _ (.head _)) (.tail _ (.head _)) rfl rfl
      rfl false 0
  have hle := hagrees (synAck (endpoint s)) ⟨hget, htakes⟩
  rw [step_conn_side] at hle
  simp only [Event.side, Side.other_other] at hle
  rw [method_deliver hget, hread, hwindow] at hle
  exact (endpoint s).shiftLeft_le_iff.mp hle

/-- In every run, each window that a packet sets is at most the window of the packet's sender,
exactly when both sides have windows that no scale changes. -/
theorem windowAgrees_iff (endpoint : Side → Endpoint) :
    (∀ es, StepsMeet step WindowAgrees (start endpoint) es) ↔ ∀ s, (endpoint s).Unscaled := by
  constructor
  · intro h s
    exact unscaled_of_handshake endpoint s (h (handshake s))
  · intro hscale es
    exact stepsMeet_of_invariant (fun d e h => h.step e) (fun d e h => h.windowAgrees hscale e)
      (inv_start endpoint) es

/-- A window of 65535 octets behind a limit of 131070 is read as 131070 octets. -/
theorem not_windowAgrees_handshake :
    ¬∀ (endpoint : Side → Endpoint) (es : List Event),
      StepsMeet step WindowAgrees (start endpoint) es := by
  intro h
  let endpoint : Endpoint :=
    { config := { max_window_size := 131070 }
      remote_addr := ("127.0.0.1", 6881)
      connection_id := 1
      recv_window := 65535 }
  have hunscaled := unscaled_of_handshake (fun _ => endpoint) .near (h _ _)
  exact hunscaled.elim (by decide) (by decide)

end Dialogue

end Utp

end Ccbt
