import Ccbt.Transport.Utp.Frames
import Ccbt.Transport.Utp.SocketManager

/-!
# The uTP handshake between two socket managers

An initiator connects, and each of the three messages is handled by the other
side's manager. The acceptor waits for an acknowledgment of number 0, which is the
number of its own SYN, but the initiator acknowledges number 1, so the acceptor's
connection stays in `SYN_RECEIVED` whatever the two tables hold.
-/

namespace Ccbt

open Python

namespace Utp

/-- A packet of the handshake: a SYN, or the acknowledgment that the initiator sends. -/
def IsGreeting (p : UTPPacket) : Prop :=
  p.data = [] ∧ (p.type = UTPPacketType.ST_SYN.toByte ∨
    (p.type = UTPPacketType.ST_STATE.toByte ∧ p.ack_nr = 1))

def IsSyn (p : UTPPacket) : Prop := p.data = [] ∧ p.type = UTPPacketType.ST_SYN.toByte

theorem IsSyn.isGreeting {p : UTPPacket} (h : IsSyn p) : IsGreeting p := ⟨h.1, Or.inl h.2⟩

namespace UTPConnection

theorem isSyn_synPacket (c : UTPConnection) (ack_nr : UInt16) (now : UInt32) :
    IsSyn ((c.synPacket ack_nr).setTimestamp now).toUTPPacket := ⟨rfl, rfl⟩

/-- Between two states of a connection, packets of a kind are all that is sent. -/
def Sends (P : UTPPacket → Prop) (c c' : UTPConnection) : Prop :=
  ∀ p ∈ c'.transport, p ∈ c.transport ∨ P p.toUTPPacket

theorem Sends.of_transport_eq {P : UTPPacket → Prop} {c c' : UTPConnection}
    (h : c'.transport = c.transport) : Sends P c c' := fun _ hp => Or.inl (h ▸ hp)

theorem Sends.of_append {P : UTPPacket → Prop} {c c' : UTPConnection} {q : OutgoingPacket}
    (h : c'.transport = c.transport ++ [q]) (hq : P q.toUTPPacket) : Sends P c c' := by
  intro p hp
  rw [h, List.mem_append, List.mem_singleton] at hp
  obtain hp | rfl := hp
  · exact Or.inl hp
  · exact Or.inr hq

theorem handleSynAck_transport (c : UTPConnection) (packet : UTPPacket) (now : UInt32) :
    Sends IsGreeting c (c.handleSynAck packet now) := by
  obtain ⟨_, _, hn⟩ := processExtensionNegotiation_step
    { c with remote_connection_id := packet.connection_id } packet.extensions
  rw [handleSynAck]
  split
  · exact .of_transport_eq rfl
  · simp only [hn]
    exact .of_append rfl ⟨rfl, Or.inr ⟨rfl, rfl⟩⟩

/-- An incoming SYN is answered by a SYN, and the connection does not get past `SYN_RECEIVED`. -/
theorem handleSyn_spec (c : UTPConnection) (packet : UTPPacket) (now : UInt32) :
    Sends IsGreeting c (c.handleSyn packet now) ∧
      (c.state = .SYN_RECEIVED → (c.handleSyn packet now).state = .SYN_RECEIVED) := by
  obtain ⟨_, _, hn⟩ := processExtensionNegotiation_step
    { c with
      remote_connection_id := packet.connection_id
      send_window := packet.wnd_size.toNat
      ack_nr := packet.seq_nr } packet.extensions
  rw [handleSyn]
  split
  · exact ⟨.of_transport_eq rfl, id⟩
  · simp only [hn]
    split
    · exact ⟨.of_append rfl (isSyn_synPacket _ _ _).isGreeting, fun _ => rfl⟩
    · exact ⟨.of_append rfl (isSyn_synPacket _ _ _).isGreeting, id⟩

/-- Whatever state a connection is in, it answers a SYN with a greeting or not at all. -/
theorem handlePacket_syn_sends (c : UTPConnection) {p : OutgoingPacket} (h : IsSyn p.toUTPPacket)
    (ecn_ce : Bool) (now : UInt32) : Sends IsGreeting c (c.handlePacket p.bytes ecn_ce now) := by
  obtain ⟨noted, hnoted, he⟩ := c.handlePacket_bytes (Or.inr h.1) ecn_ce now
  have ht : noted.transport = c.transport := hnoted.transport
  rw [he, route, if_pos h.2]
  intro q hq
  rw [← ht]
  split at hq
  · exact noted.handleSynAck_transport _ now q hq
  · split at hq
    · exact (noted.handleSyn_spec _ now).1 q hq
    · exact Or.inl hq

/-- No greeting completes the handshake of a connection that waits in `SYN_RECEIVED`: the
acknowledgment among them has the number 1. -/
theorem handlePacket_greeting_state {c : UTPConnection} (hc : c.state = .SYN_RECEIVED)
    {p : OutgoingPacket} (h : IsGreeting p.toUTPPacket) (ecn_ce : Bool) (now : UInt32) :
    (c.handlePacket p.bytes ecn_ce now).state = .SYN_RECEIVED := by
  obtain ⟨noted, hnoted, he⟩ := c.handlePacket_bytes (Or.inr h.1) ecn_ce now
  have hs : noted.state = .SYN_RECEIVED := hnoted.state.trans hc
  rw [he, route]
  obtain hsyn | ⟨hstate, hack⟩ := h.2
  · rw [if_pos hsyn, hs, if_neg (by decide), if_pos (Or.inr rfl)]
    exact (noted.handleSyn_spec _ now).2 hs
  · have hne : ¬p.type = UTPPacketType.ST_SYN.toByte := by rw [hstate]; decide
    have hnot : ¬(noted.state = .SYN_RECEIVED ∧ p.ack_nr = 0) := by
      rw [hack]
      rintro ⟨_, h0⟩
      exact absurd h0 (by decide)
    rw [if_neg hne, if_pos hstate]
    exact (handleStatePacket_step hnot now).state.trans hs

end UTPConnection

namespace UTPSocketManager

/-- The octets of a packet of a kind. -/
def IsDatagram (P : UTPPacket → Prop) (data : Bytes) : Prop :=
  ∃ p : OutgoingPacket, P p.toUTPPacket ∧ data = p.bytes

/-- Between two states of a manager, datagrams of a kind are all that is sent. -/
def Emits (P : UTPPacket → Prop) (m m' : UTPSocketManager) : Prop :=
  ∃ sent, m'.transport = m.transport ++ sent ∧ ∀ d ∈ sent, IsDatagram P d.1

theorem Emits.refl (P : UTPPacket → Prop) (m : UTPSocketManager) : Emits P m m :=
  ⟨[], (List.append_nil _).symm, by simp⟩

theorem Emits.trans {P : UTPPacket → Prop} {m m' m'' : UTPSocketManager} (h : Emits P m m')
    (h' : Emits P m' m'') : Emits P m m'' := by
  obtain ⟨sent, he, hs⟩ := h
  obtain ⟨sent', he', hs'⟩ := h'
  refine ⟨sent ++ sent', by rw [he', he, List.append_assoc], ?_⟩
  intro d hd
  exact (List.mem_append.mp hd).elim (hs d) (hs' d)

theorem Emits.sentTo {P : UTPPacket → Prop} {m m' : UTPSocketManager} (h : Emits P m m')
    (addr : Addr) : ∀ data ∈ sentTo m m' addr, IsDatagram P data := by
  obtain ⟨sent, he, hs⟩ := h
  intro data hdata
  rw [UTPSocketManager.sentTo, he, List.drop_left, List.mem_map] at hdata
  obtain ⟨d, hd, rfl⟩ := hdata
  exact hs d (List.mem_of_mem_filter hd)

theorem call_objects (m : UTPSocketManager) (ref k : Nat)
    (method : UTPConnection → UTPConnection) :
    (m.call ref method).objects[k]? =
      if k = ref then m.objects[k]?.map (fun c => method c.flushed)
      else m.objects[k]? := by
  rw [call]
  split
  · next h =>
    split
    · next hk => rw [hk, h]; rfl
    · rfl
  · next c h =>
    split
    · next hk =>
      have hlt : ref < m.objects.length := (List.getElem?_eq_some_iff.mp h).1
      rw [hk, h]
      exact List.getElem?_set_self hlt
    · next hk => exact List.getElem?_set_ne (Ne.symm hk)

theorem call_objects_length (m : UTPSocketManager) (ref : Nat)
    (method : UTPConnection → UTPConnection) :
    (m.call ref method).objects.length = m.objects.length := by
  rw [call]
  split
  · rfl
  · exact List.length_set

theorem call_emits {P : UTPPacket → Prop} (m : UTPSocketManager) (ref : Nat)
    {method : UTPConnection → UTPConnection} (h : ∀ c, UTPConnection.Sends P c (method c)) :
    Emits P m (m.call ref method) := by
  rw [call]
  split
  · exact .refl P m
  · next c _ =>
    refine ⟨_, rfl, ?_⟩
    intro d hd
    obtain ⟨p, hp, rfl⟩ := List.mem_map.mp hd
    exact ⟨p, (h _ p hp).resolve_left (by simp [UTPConnection.flushed]), rfl⟩

/-- The step by which a manager accepts a connection: it makes the object, registers it and
has it send the SYN-ACK. -/
def accept (m : UTPSocketManager) (packet : UTPPacket) (addr : Addr)
    (connection_id local_conn_id : UInt16) (now : UInt32) : UTPSocketManager :=
  (m.registerConnection (m.acceptedConnection packet addr connection_id local_conn_id) addr
    local_conn_id).call m.objects.length (·.sendSynAck packet.seq_nr now)

/-- Everything that an incoming datagram can lead to. -/
theorem handleIncomingPacket_cases (m : UTPSocketManager) (data : Bytes) (addr : Addr)
    (ecn_ce : Bool) (randint : Nat → RandomId) (now : UInt32) :
    m.handleIncomingPacket data addr ecn_ce randint now = m ∨
    (∃ ref, m.handleIncomingPacket data addr ecn_ce randint now =
      m.call ref (·.handlePacket data ecn_ce now)) ∨
    (∃ packet local_conn_id, m.handleIncomingPacket data addr ecn_ce randint now =
      m.accept packet addr (datagramId data) local_conn_id now) := by
  rw [handleIncomingPacket]
  split
  · exact Or.inl rfl
  · simp only
    split
    · next ref _ => exact Or.inr (Or.inl ⟨ref, rfl⟩)
    · split
      · exact Or.inl rfl
      · split
        · rw [handleIncomingSyn]
          split
          · exact Or.inl rfl
          · next packet _ =>
            split
            · exact Or.inl rfl
            · split
              · exact Or.inl rfl
              · next local_conn_id _ => exact Or.inr (Or.inr ⟨packet, local_conn_id, rfl⟩)
        · exact Or.inl rfl

theorem accept_objects (m : UTPSocketManager) (packet : UTPPacket) (addr : Addr)
    (connection_id local_conn_id : UInt16) (now : UInt32) :
    (m.accept packet addr connection_id local_conn_id now).objects = m.objects ++
      [(m.acceptedConnection packet addr connection_id local_conn_id).sendSynAck
        packet.seq_nr now] := by
  simp [accept, call, registerConnection, acceptedConnection, UTPConnection.flushed]

theorem accept_transport (m : UTPSocketManager) (packet : UTPPacket) (addr : Addr)
    (connection_id local_conn_id : UInt16) (now : UInt32) :
    Emits IsSyn m (m.accept packet addr connection_id local_conn_id now) := by
  have h : Emits IsSyn (m.registerConnection
      (m.acceptedConnection packet addr connection_id local_conn_id) addr local_conn_id)
      (m.accept packet addr connection_id local_conn_id now) :=
    call_emits _ _ (fun c => .of_append rfl (c.isSyn_synPacket _ _))
  exact h

theorem Emits.mono {P Q : UTPPacket → Prop} (hPQ : ∀ p, P p → Q p) {m m' : UTPSocketManager}
    (h : Emits P m m') : Emits Q m m' := by
  obtain ⟨sent, he, hs⟩ := h
  refine ⟨sent, he, fun d hd => ?_⟩
  obtain ⟨p, hp, hb⟩ := hs d hd
  exact ⟨p, hPQ _ hp, hb⟩

/-- A manager answers a SYN with greetings only. -/
theorem handleIncomingPacket_emits (m : UTPSocketManager) {data : Bytes}
    (h : IsDatagram IsSyn data) (addr : Addr) (randint : Nat → RandomId) (now : UInt32) :
    Emits IsGreeting m (m.handleIncomingPacket data addr false randint now) := by
  obtain ⟨p, hp, rfl⟩ := h
  obtain he | ⟨ref, he⟩ | ⟨packet, local_conn_id, he⟩ :=
    m.handleIncomingPacket_cases p.bytes addr false randint now
  · rw [he]
    exact .refl _ m
  · rw [he]
    exact m.call_emits ref (fun c => c.handlePacket_syn_sends hp false now)
  · rw [he]
    exact (m.accept_transport packet addr _ local_conn_id now).mono (fun _ => IsSyn.isGreeting)

theorem handleAll_emits (m : UTPSocketManager) {datagrams : List Bytes}
    (h : ∀ data ∈ datagrams, IsDatagram IsSyn data) (addr : Addr) (randint : Nat → RandomId)
    (now : UInt32) : Emits IsGreeting m (m.handleAll datagrams addr randint now) := by
  induction datagrams generalizing m with
  | nil => exact .refl _ m
  | cons data datagrams ih =>
    have hhead := m.handleIncomingPacket_emits (h data List.mem_cons_self) addr randint now
    exact hhead.trans (ih _ (fun d hd => h d (List.mem_cons_of_mem _ hd)))

theorem datagramId_bytes (p : OutgoingPacket) : datagramId p.bytes = p.connection_id := by
  rw [datagramId, OutgoingPacket.bytes, UTPPacket.serialize_eq_numbers]
  exact p.toUTPPacket.unpackH_connection_id _

/-- A SYN under a number that the tables do not hold makes a connection. A SYN-ACK is such a
SYN for the initiator, since it carries the acceptor's number. -/
theorem handleIncomingPacket_unknown_syn (m : UTPSocketManager) {p : OutgoingPacket}
    (hp : IsSyn p.toUTPPacket) {addr : Addr} (hlookup : m.lookup addr p.connection_id = none)
    (hcollides : m.collides addr p.connection_id = false) {randint : Nat → RandomId}
    {local_conn_id : UInt16} (hid : m.generateConnectionId randint = some local_conn_id)
    (now : UInt32) :
    (m.handleIncomingPacket p.bytes addr false randint now).objects.length =
      m.objects.length + 1 := by
  have hlen : ¬p.bytes.length < 20 := by
    have := p.toUTPPacket.le_serialize_length
    rw [UTPPacket.HEADER_SIZE] at this
    rw [OutgoingPacket.bytes]
    omega
  have hhead : p.bytes.head? = some UTPPacketType.ST_SYN.toByte := by
    rw [OutgoingPacket.bytes, UTPPacket.serialize_eq_numbers, ← hp.2]
    rfl
  have hunpack := UTPPacket.unpack_serialize (p := p.toUTPPacket) (Or.inr hp.1)
  rw [handleIncomingPacket, if_neg hlen]
  simp only [datagramId_bytes, hlookup, hcollides, hhead, if_true, Bool.false_eq_true, if_false]
  rw [handleIncomingSyn, OutgoingPacket.bytes, hunpack]
  simp only [hp.2, ne_eq, not_true_eq_false, if_false, hid]
  rw [call_objects_length]
  exact List.length_append

/-- The object at a position, once there is one, is a connection that waits for the last
message of its handshake. -/
def Waiting (n : Nat) (m : UTPSocketManager) : Prop :=
  ∀ c, m.objects[n]? = some c → c.state = .SYN_RECEIVED

/-- A new connection waits. -/
theorem waiting_accept (m : UTPSocketManager) (packet : UTPPacket) (addr : Addr)
    (connection_id local_conn_id : UInt16) (now : UInt32) {n : Nat} (h : Waiting n m) :
    Waiting n (m.accept packet addr connection_id local_conn_id now) := by
  intro c hc
  rw [accept_objects] at hc
  obtain hlt | rfl | hgt := lt_trichotomy n m.objects.length
  · exact h c (by rwa [List.getElem?_append_left hlt] at hc)
  · rw [List.getElem?_concat_length, Option.some.injEq] at hc
    rw [← hc]
    rfl
  · have hle : (m.objects ++ [(m.acceptedConnection packet addr connection_id
        local_conn_id).sendSynAck packet.seq_nr now]).length ≤ n := by
      rw [List.length_append, List.length_singleton]
      omega
    rw [List.getElem?_eq_none hle] at hc
    exact absurd hc (by simp)

theorem waiting_handleIncomingPacket {m : UTPSocketManager} {n : Nat} (hm : Waiting n m)
    {data : Bytes} (h : IsDatagram IsGreeting data) (addr : Addr) (randint : Nat → RandomId)
    (now : UInt32) : Waiting n (m.handleIncomingPacket data addr false randint now) := by
  obtain ⟨p, hp, rfl⟩ := h
  obtain he | ⟨ref, he⟩ | ⟨packet, local_conn_id, he⟩ :=
    m.handleIncomingPacket_cases p.bytes addr false randint now
  · rw [he]
    exact hm
  · rw [he]
    intro c hc
    rw [call_objects] at hc
    split at hc
    · obtain ⟨c₀, hc₀, rfl⟩ := Option.map_eq_some_iff.mp hc
      exact UTPConnection.handlePacket_greeting_state (c := c₀.flushed) (hm c₀ hc₀) hp false now
    · exact hm c hc
  · rw [he]
    exact m.waiting_accept packet addr _ local_conn_id now hm

theorem waiting_handleAll {m : UTPSocketManager} {n : Nat} (hm : Waiting n m)
    {datagrams : List Bytes} (h : ∀ data ∈ datagrams, IsDatagram IsGreeting data) (addr : Addr)
    (randint : Nat → RandomId) (now : UInt32) :
    Waiting n (m.handleAll datagrams addr randint now) := by
  induction datagrams generalizing m with
  | nil => exact hm
  | cons data datagrams ih =>
    have hhead := waiting_handleIncomingPacket hm (h data List.mem_cons_self) addr randint now
    exact ih hhead (fun d hd => h d (List.mem_cons_of_mem _ hd))

/-! ### The exchange -/

/-- The random numbers and the clock of the four steps of a handshake. -/
structure Environment where
  randint : Nat → Nat → RandomId
  now : Nat → UInt32

/-- The two managers in the course of a handshake. -/
structure Exchange where
  /-- The initiator, once it has sent the SYN. -/
  initiated : UTPSocketManager
  /-- The acceptor, once it has handled the SYN. -/
  accepted : UTPSocketManager
  /-- The initiator, once it has handled the SYN-ACK. -/
  answered : UTPSocketManager
  /-- The acceptor, once it has handled the answer. -/
  completed : UTPSocketManager

/-- The initiator at `addrI` connects under `id` to the acceptor at `addrA`; what one side
sends to the other is handled there, in order and once. -/
def exchange (initiator acceptor : UTPSocketManager) (addrI addrA : Addr) (id : UInt16)
    (env : Environment) : Exchange :=
  let initiated := initiator.initiate addrA id (env.now 0)
  let accepted := acceptor.handleAll (sentTo initiator initiated addrA) addrI
    (env.randint 1) (env.now 1)
  let answered := initiated.handleAll (sentTo acceptor accepted addrI) addrA
    (env.randint 2) (env.now 2)
  let completed := accepted.handleAll (sentTo initiated answered addrA) addrI
    (env.randint 3) (env.now 3)
  ⟨initiated, accepted, answered, completed⟩

/-- The SYN has made one connection at the acceptor, no further connection has been made,
and both ends are connected to each other. -/
def HandshakeAgrees (initiator acceptor : UTPSocketManager) (addrI addrA : Addr) (id : UInt16)
    (env : Environment) : Prop :=
  let e := exchange initiator acceptor addrI addrA id env
  e.accepted.objects.length = acceptor.objects.length + 1 ∧
  e.completed.objects.length = acceptor.objects.length + 1 ∧
  e.answered.objects.length = initiator.objects.length + 1 ∧
  ∃ ci ca, e.answered.objects[initiator.objects.length]? = some ci ∧
    e.completed.objects[acceptor.objects.length]? = some ca ∧
    ci.state = .CONNECTED ∧ ca.state = .CONNECTED ∧
    ci.remote_connection_id = ca.connection_id ∧ ca.remote_connection_id = ci.connection_id

/-- Connecting sends one SYN. -/
theorem sentTo_initiate (m : UTPSocketManager) (addr : Addr) (id : UInt16) (now : UInt32) :
    ∃ data, IsDatagram IsSyn data ∧ sentTo m (m.initiate addr id now) addr = [data] := by
  refine ⟨_, ⟨_, UTPConnection.isSyn_synPacket
    { config := m.config, remote_addr := addr, connection_id := id, state := .SYN_SENT } 0 now,
    rfl⟩, ?_⟩
  simp [sentTo, initiate, call, registerConnection, UTPConnection.connect,
    UTPConnection.sendPacket, UTPConnection.flushed]

/-- A SYN that makes a connection is answered by SYNs only, and the connection waits. -/
theorem handleIncomingPacket_of_accepted {m : UTPSocketManager} {data : Bytes} {addr : Addr}
    {randint : Nat → RandomId} {now : UInt32}
    (h : (m.handleIncomingPacket data addr false randint now).objects.length =
      m.objects.length + 1) :
    Emits IsSyn m (m.handleIncomingPacket data addr false randint now) ∧
      Waiting m.objects.length (m.handleIncomingPacket data addr false randint now) := by
  obtain he | ⟨ref, he⟩ | ⟨packet, local_conn_id, he⟩ :=
    m.handleIncomingPacket_cases data addr false randint now
  · rw [he] at h
    omega
  · rw [he, call_objects_length] at h
    omega
  · rw [he]
    refine ⟨m.accept_transport packet addr _ local_conn_id now, ?_⟩
    apply m.waiting_accept
    intro c hc
    exact absurd hc (by simp)

/-- Whatever the tables of the two managers, the number of the connection, the random
numbers and the clocks: the handshake does not end in agreement. -/
theorem not_handshakeAgrees (initiator acceptor : UTPSocketManager) (addrI addrA : Addr)
    (id : UInt16) (env : Environment) :
    ¬HandshakeAgrees initiator acceptor addrI addrA id env := by
  rintro ⟨hacc, _, _, _, ca, _, hca, _, hconnected, _, _⟩
  obtain ⟨syn, _, hsyn⟩ := sentTo_initiate initiator addrA id (env.now 0)
  simp only [exchange, hsyn, handleAll, List.foldl_cons, List.foldl_nil] at hacc hca
  obtain ⟨hemits, hwaiting⟩ := handleIncomingPacket_of_accepted hacc
  have hanswer := handleAll_emits (initiator.initiate addrA id (env.now 0))
    (hemits.sentTo addrI) addrA (env.randint 2) (env.now 2)
  have hend := waiting_handleAll hwaiting (hanswer.sentTo addrA) addrI (env.randint 3) (env.now 3)
  have hstate : ca.state = .SYN_RECEIVED := hend ca hca
  rw [hstate] at hconnected
  exact absurd hconnected (by decide)

/-- The initiator connects under number 1, the acceptor draws number 2; further connections
draw 3 and 4. -/
def sampleEnvironment : Environment where
  randint k _ :=
    if k = 1 then ⟨2, by decide⟩ else if k = 2 then ⟨3, by decide⟩ else ⟨4, by decide⟩
  now _ := 0

theorem not_handshakeAgrees_one_two :
    ¬HandshakeAgrees { config := {} } { config := {} } ("10.0.0.1", 6881) ("10.0.0.2", 6881) 1
      sampleEnvironment := by
  have h : (exchange { config := {} } { config := {} } ("10.0.0.1", 6881) ("10.0.0.2", 6881) 1
      sampleEnvironment).completed.objects.map (·.state) = [.SYN_RECEIVED, .SYN_RECEIVED] := by
    decide +kernel
  rintro ⟨_, hlen, _⟩
  have h2 := congrArg List.length h
  rw [List.length_map, hlen] at h2
  exact absurd h2 (by decide)

end UTPSocketManager

end Utp

end Ccbt
