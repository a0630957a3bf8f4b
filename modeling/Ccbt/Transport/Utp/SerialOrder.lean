import Ccbt.Transition.Run
import Ccbt.Transport.Utp.SackBlocks
import Ccbt.Transport.Utp.Stream
import Ccbt.Transport.Utp.WindowAgreement

/-!
# Sequence numbers that wrap around

Numbers of 16 bits are compared serially: a number is ahead of another one when it is reached
from it in less than half of a lap. Both ends of a connection compare the plain numbers
instead, and the two orders differ around the place where the numbers start again.
-/

namespace Ccbt

open Python Transition

namespace Utp

/-- `a` is `s`, or it is reached from `s` in less than half of a lap. -/
def SeriallyAcked (a s : UInt16) : Prop := (a - s).toNat < 2 ^ 15

/-- `a` is serially ahead of `b`. -/
def Newer (a b : UInt16) : Prop := 0 < (a - b).toNat ∧ (a - b).toNat < 2 ^ 15

instance (a s : UInt16) : Decidable (SeriallyAcked a s) := Nat.decLt _ _

instance (a b : UInt16) : Decidable (Newer a b) := instDecidableAnd

theorem toNat_sub_eq (a b : UInt16) :
    (a - b).toNat = (2 ^ 16 + a.toNat - b.toNat) % 2 ^ 16 := by
  have := b.toNat_lt
  rw [UInt16.toNat_sub]
  omega

namespace UTPConnection

variable {c : UTPConnection}

/-! ### The receiver's acknowledgment number -/

/-- A data packet and the time at which it is handled. -/
def dataStep (c : UTPConnection) (e : UTPPacket × UInt32) : UTPConnection :=
  c.handleDataPacket e.1 e.2

/-- The acknowledgment number moves ahead or stays, and it moves to a number ahead of it. -/
def AcksForward (c : UTPConnection) (e : UTPPacket × UInt32) : Prop :=
  ((c.dataStep e).ack_nr = c.ack_nr ∨ Newer (c.dataStep e).ack_nr c.ack_nr) ∧
    (Newer e.1.seq_nr c.ack_nr → (c.dataStep e).ack_nr = e.1.seq_nr)

instance (c : UTPConnection) (e : UTPPacket × UInt32) : Decidable (AcksForward c e) :=
  instDecidableAnd

/-- The packet's number is the acknowledged one, or above it by less than half of a lap, or
below it by no more than that and in the lower half. -/
def InOrder (c : UTPConnection) (e : UTPPacket × UInt32) : Prop :=
  e.1.seq_nr = c.ack_nr ∨
    (c.ack_nr < e.1.seq_nr ∧ e.1.seq_nr.toNat < c.ack_nr.toNat + 2 ^ 15) ∨
    (e.1.seq_nr < c.ack_nr ∧ c.ack_nr.toNat ≤ e.1.seq_nr.toNat + 2 ^ 15 ∧
      e.1.seq_nr ≤ 0x8000)

theorem handleDataPacket_ack_nr (c : UTPConnection) (packet : UTPPacket) (now : UInt32) :
    (c.handleDataPacket packet now).ack_nr =
      if movesAck c.ack_nr packet.seq_nr then packet.seq_nr else c.ack_nr := by
  obtain ⟨_, _, _, hs⟩ := (c.noteReceived packet.seq_nr).storeData_frame packet
  obtain ⟨_, _, _, _, _, ha⟩ := ((c.noteReceived packet.seq_nr).storeData packet).sendAck_step
    packet now
  rw [handleDataPacket, ha, hs]
  rfl

/-- One comparison, told apart by the plain order of the two numbers. -/
theorem movesAck_forward_iff (ack seq : UInt16) :
    let ack' := if movesAck ack seq then seq else ack
    ((ack' = ack ∨ Newer ack' ack) ∧ (Newer seq ack → ack' = seq)) ↔
      (seq = ack ∨ (ack < seq ∧ seq.toNat < ack.toNat + 2 ^ 15) ∨
        (seq < ack ∧ ack.toNat ≤ seq.toNat + 2 ^ 15 ∧ seq ≤ 0x8000)) := by
  intro ack'
  have hseq := seq.toNat_lt
  have hack := ack.toNat_lt
  have hself : ¬Newer ack ack := by simp [Newer]
  have hnewer : Newer seq ack ↔ 0 < (2 ^ 16 + seq.toNat - ack.toNat) % 2 ^ 16 ∧
      (2 ^ 16 + seq.toNat - ack.toNat) % 2 ^ 16 < 2 ^ 15 := by
    rw [Newer, toNat_sub_eq]
  by_cases hmoves : movesAck ack seq = true
  · have hack' : ack' = seq := if_pos hmoves
    rw [movesAck, decide_eq_true_iff] at hmoves
    simp only [hack', hnewer, implies_true, and_true, UInt16.lt_iff_toNat_lt,
      UInt16.le_iff_toNat_le, UInt16.reduceToNat, ← UInt16.toNat_inj] at hmoves ⊢
    omega
  · have hack' : ack' = ack := if_neg hmoves
    rw [movesAck, decide_eq_true_iff] at hmoves
    simp only [hack', hnewer, true_or, true_and, UInt16.lt_iff_toNat_lt,
      UInt16.le_iff_toNat_le, UInt16.reduceToNat, ← UInt16.toNat_inj] at hmoves ⊢
    omega

/-- The acknowledgment number keeps to the serial order exactly in the runs whose packets keep
to the plain one. -/
theorem acksForward_iff_inOrder (c : UTPConnection) (packets : List (UTPPacket × UInt32)) :
    StepsMeet dataStep AcksForward c packets ↔ StepsMeet dataStep InOrder c packets := by
  apply stepsMeet_congr
  intro c e
  rw [AcksForward, dataStep, handleDataPacket_ack_nr]
  exact movesAck_forward_iff c.ack_nr e.1.seq_nr

/-- The data packet under a number. -/
def numbered (seq_nr : UInt16) : UTPPacket × UInt32 :=
  ({ type := UTPPacketType.ST_DATA.toByte, connection_id := 1, seq_nr }, 0)

/-- In the upper half a packet that comes late takes the acknowledgment number back. -/
theorem not_acksForward_late : ¬StepsMeet dataStep AcksForward (receiver [])
    [numbered 0x7000, numbered 0x9001, numbered 0x9000] := by
  decide +kernel

/-! ### What an acknowledgment takes out of the send buffer -/

theorem mem_keys_of_retains {c' : UTPConnection} (h : Retains (fun _ => False) c c')
    (seq : UInt16) : seq ∈ c'.send_buffer.keys ↔ seq ∈ c.send_buffer.keys := by
  rw [Dict.mem_keys_iff, Dict.mem_keys_iff]
  constructor
  · rintro ⟨v', hv'⟩
    obtain ⟨v, hv, -⟩ := h.entries seq v' hv'
    exact ⟨v, hv⟩
  · rintro ⟨v, hv⟩
    exact h.keeps seq v hv not_false

theorem mem_keys_processStateExtensions (c : UTPConnection) (packet : UTPPacket)
    (seq : UInt16) : seq ∈ (c.processStateExtensions packet.extensions).send_buffer.keys ↔
      seq ∈ c.send_buffer.keys ∧ ¬packet.Sacks seq := by
  have hsacks : packet.Sacks seq ↔ Named packet.sackBlocks seq := Iff.rfl
  rw [hsacks, UTPPacket.sackBlocks]
  induction packet.extensions generalizing c with
  | nil => simp [processStateExtensions, Named]
  | cons ext exts ih =>
    rw [List.flatMap_cons, named_append]
    cases ext with
    | sack blocks _ =>
      have hrest := ih (c.processSackBlocks blocks)
      rwa [mem_keys_processSackBlocks, and_assoc, ← not_or] at hrest
    | windowScaling k =>
      have hnone : ¬Named [] seq := by simp [Named]
      rw [or_iff_right hnone]
      exact ih c
    | ecn echo cwr =>
      have hnone : ¬Named [] seq := by simp [Named]
      rw [or_iff_right hnone]
      exact ih c

theorem mem_keys_removeAcked (c : UTPConnection) (acked_seq seq : UInt16) :
    seq ∈ (c.removeAcked acked_seq).send_buffer.keys ↔
      seq ∈ c.send_buffer.keys ∧ ¬seq ≤ acked_seq := by
  rw [removeAcked, mem_keys_foldl_erase, List.mem_filter, isSequenceAcked_iff]
  constructor
  · rintro ⟨hm, hn⟩
    exact ⟨hm, fun hle => hn ⟨hm, hle⟩⟩
  · rintro ⟨hm, hn⟩
    exact ⟨hm, fun h => hn h.2⟩

/-- An acknowledgment takes out what it names and what is at or below its number. -/
theorem mem_keys_handleStatePacket {packet : UTPPacket}
    (h : ¬(c.state = .SYN_RECEIVED ∧ packet.ack_nr = 0)) (now : UInt32) (seq : UInt16) :
    seq ∈ (c.handleStatePacket packet now).send_buffer.keys ↔
      seq ∈ c.send_buffer.keys ∧ ¬packet.Sacks seq ∧ ¬seq ≤ packet.ack_nr := by
  rw [handleStatePacket, if_neg h]
  simp only
  rw [mem_keys_removeAcked, mem_keys_of_retains (countDuplicate_retains _ packet.ack_nr now)]
  have hexts := c.mem_keys_processStateExtensions packet seq
  rw [updateSendWindow]
  simp only
  rw [hexts, and_assoc]

/-! ### The states of a sender -/

/-- What happens to a connection. A datagram is any sequence of octets. -/
inductive Event
  | connect (now : UInt32)
  | accept (packet_data : Bytes) (now : UInt32)
  | datagram (packet_data : Bytes) (ecn_ce : Bool) (now : UInt32)
  | send (data : Bytes) (now : UInt32)
  | receive (max_bytes : Int)
  | sendBatchedAcks (now : UInt32)
  | checkRetransmissions (expired : UInt16 → Nat → Bool) (now : UInt32)
  | close (now : UInt32)

def step (c : UTPConnection) : Event → UTPConnection
  | .connect now => if c.state = .IDLE then c.connect now else c
  | .accept packet_data now => if c.state = .IDLE then c.acceptSyn packet_data now else c
  | .datagram packet_data ecn_ce now => c.handlePacket packet_data ecn_ce now
  | .send data now => if c.state = .CONNECTED then (c.sendRound data now).1 else c
  | .receive max_bytes =>
    match c.receive max_bytes with
    | none => c
    | some (_, c') => c'
  | .sendBatchedAcks now => c.sendBatchedAcks now
  | .checkRetransmissions expired now => c.checkRetransmissions expired now
  | .close now => c.close now

/-- How far a number is behind the last one that has been given to a packet. -/
def behind (c : UTPConnection) (seq : UInt16) : Nat := (c.seq_nr - seq).toNat

/-- The number lies between the oldest outstanding one and the last one, or just in front. -/
def InWindow (c : UTPConnection) (seq : UInt16) : Prop :=
  ∃ oldest ∈ c.send_buffer.keys, c.behind seq ≤ c.behind oldest + 1

/-- The event is an acknowledgment whose number is in the window, and less than half of a lap
is outstanding. -/
def Acknowledges (c : UTPConnection) (packet : UTPPacket) : Event → Prop
  | .datagram packet_data _ _ =>
    UTPPacket.unpack packet_data = .ok packet ∧ packet.type = UTPPacketType.ST_STATE.toByte ∧
      c.send_buffer.size < 2 ^ 15 ∧ c.InWindow packet.ack_nr
  | _ => False

/-- An acknowledgment takes exactly the numbers out of the send buffer that are serially at or
behind its own, besides those that its SACK blocks name, and it leaves the packets as they
are. -/
def AcksSerially (c : UTPConnection) (e : Event) : Prop :=
  ∀ packet, c.Acknowledges packet e →
    (∀ seq, seq ∈ (c.step e).send_buffer.keys ↔
      seq ∈ c.send_buffer.keys ∧ ¬packet.Sacks seq ∧ ¬SeriallyAcked packet.ack_nr seq) ∧
    ∀ seq v', (c.step e).send_buffer.get? seq = some v' →
      ∃ v, c.send_buffer.get? seq = some v ∧ UTPPacket.SameContent v'.1.toUTPPacket v.1.toUTPPacket

/-- For the outstanding numbers that the blocks do not name the plain order says what the serial
one does. -/
def OrdersAgree (c : UTPConnection) (e : Event) : Prop :=
  ∀ packet, c.Acknowledges packet e → ∀ seq ∈ c.send_buffer.keys, ¬packet.Sacks seq →
    (seq ≤ packet.ack_nr ↔ SeriallyAcked packet.ack_nr seq)

/-- Until the handshake is complete, only the SYN under number 0 is outstanding. -/
def OnlySyn (c : UTPConnection) : Prop :=
  c.state = .IDLE ∨ c.state = .SYN_SENT ∨ c.state = .SYN_RECEIVED →
    ∀ seq ∈ c.send_buffer.keys, seq = 0

theorem IsNew.onlySyn (h : IsNew c) : c.OnlySyn := by
  obtain ⟨_, _, _, _, rfl⟩ := h
  intro _ seq hm
  exact absurd hm List.not_mem_nil

namespace OnlySyn

variable {c' : UTPConnection}

theorem of_keys (h : c.OnlySyn) (hs : c'.state = c.state)
    (hk : ∀ seq ∈ c'.send_buffer.keys, seq ∈ c.send_buffer.keys) : c'.OnlySyn := by
  intro hopen seq hm
  rw [hs] at hopen
  exact h hopen seq (hk seq hm)

theorem of_buffer (h : c.OnlySyn) (hs : c'.state = c.state)
    (hb : c'.send_buffer = c.send_buffer) : c'.OnlySyn := by
  apply h.of_keys hs
  intro seq hm
  rwa [hb] at hm

theorem of_state {s : UTPConnectionState} (hs : c'.state = s)
    (hopen : ¬(s = .IDLE ∨ s = .SYN_SENT ∨ s = .SYN_RECEIVED)) : c'.OnlySyn := by
  subst hs
  exact fun h => absurd h hopen

theorem of_connected (hs : c'.state = .CONNECTED) : c'.OnlySyn := of_state hs (by decide)

theorem of_closed (hs : c'.state = .CLOSED) : c'.OnlySyn := of_state hs (by decide)

/-- Putting the SYN into the buffer again. -/
theorem of_set (h : ∀ seq ∈ c.send_buffer.keys, seq = 0) {v : OutgoingPacket × Nat}
    (hb : c'.send_buffer = c.send_buffer.set 0 v) : c'.OnlySyn := by
  intro _ seq hm
  rw [hb, Dict.mem_keys_iff, Dict.get?_set] at hm
  split at hm
  · next he => exact he
  · exact h seq ((Dict.mem_keys_iff _).mpr hm)

theorem noting (h : c.OnlySyn) (hn : NotingStep c c') : c'.OnlySyn :=
  h.of_buffer hn.state hn.send_buffer

theorem acking (h : c.OnlySyn) (ha : AckingStep c c') : c'.OnlySyn := by
  obtain ⟨_, _, _, _, _, rfl⟩ := ha
  exact h

theorem connect (h : c.OnlySyn) (hs : c.state = .IDLE) (now : UInt32) : (c.connect now).OnlySyn :=
  of_set (h (.inl hs)) rfl

theorem acceptSyn (h : c.OnlySyn) (hs : c.state = .IDLE) (packet_data : Bytes) (now : UInt32) :
    (c.acceptSyn packet_data now).OnlySyn := by
  rw [UTPConnection.acceptSyn]
  split
  · exact h
  · split
    · exact h
    · exact of_set (h (.inl hs)) rfl

theorem handleSyn (h : c.OnlySyn) (hs : c.state = .IDLE ∨ c.state = .SYN_RECEIVED)
    (packet : UTPPacket) (now : UInt32) : (c.handleSyn packet now).OnlySyn := by
  have hsyn : ∀ seq ∈ c.send_buffer.keys, seq = 0 :=
    h (hs.elim .inl fun h' => .inr (.inr h'))
  obtain ⟨scale, exts, he⟩ := processExtensionNegotiation_step { c with
    remote_connection_id := packet.connection_id
    send_window := packet.wnd_size.toNat
    ack_nr := packet.seq_nr } packet.extensions
  rw [UTPConnection.handleSyn]
  split
  · exact h
  · simp only [he]
    split
    · exact of_set hsyn rfl
    · exact of_set hsyn rfl

theorem handleStatePacket (h : c.OnlySyn) (packet : UTPPacket) (now : UInt32) :
    (c.handleStatePacket packet now).OnlySyn := by
  by_cases hsyn : c.state = .SYN_RECEIVED ∧ packet.ack_nr = 0
  · apply of_connected
    rw [UTPConnection.handleStatePacket, if_pos hsyn]
    rfl
  · apply h.of_keys (handleStatePacket_step hsyn now).state
    exact fun seq hm => ((mem_keys_handleStatePacket hsyn now seq).mp hm).1

theorem handleDataPacket (h : c.OnlySyn) (packet : UTPPacket) (now : UInt32) :
    (c.handleDataPacket packet now).OnlySyn := by
  obtain ⟨_, _, _, hs⟩ := (c.noteReceived packet.seq_nr).storeData_frame packet
  have hstored : ((c.noteReceived packet.seq_nr).storeData packet).OnlySyn := by
    rw [hs]
    exact h.of_buffer rfl rfl
  exact hstored.acking (sendAck_step _ packet now)

theorem close (h : c.OnlySyn) (now : UInt32) : (c.close now).OnlySyn := by
  rw [UTPConnection.close]
  split
  · exact h
  · exact of_closed rfl

theorem handleFinPacket (h : c.OnlySyn) (now : UInt32) : (c.handleFinPacket now).OnlySyn := by
  rw [UTPConnection.handleFinPacket]
  split
  · rw [UTPConnection.close, if_neg (by simp [sendPacket])]
    exact of_closed rfl
  · exact h

theorem route (h : c.OnlySyn) (packet : UTPPacket) (now : UInt32) :
    (c.route packet now).OnlySyn := by
  rw [UTPConnection.route]
  split
  · split
    · next hs =>
      apply of_connected
      rw [handleSynAck, if_neg (not_not.mpr hs)]
      rfl
    · split
      · next hs => exact h.handleSyn hs packet now
      · exact h
  · split
    · exact h.handleStatePacket packet now
    · split
      · exact h.handleDataPacket packet now
      · split
        · exact h.handleFinPacket now
        · split
          · exact of_state (s := .RESET) rfl (by decide)
          · exact h

theorem handlePacket (h : c.OnlySyn) (packet_data : Bytes) (ecn_ce : Bool) (now : UInt32) :
    (c.handlePacket packet_data ecn_ce now).OnlySyn := by
  rw [UTPConnection.handlePacket]
  split
  · exact h
  · next packet _ =>
    have hnoted := (h.noting (c.noteEcn_step ecn_ce)).noting (noteAck_step _ packet)
    exact hnoted.route packet now

theorem collectExpired (h : c.OnlySyn) (expired : UInt16 → Nat → Bool)
    (entries : List (UInt16 × OutgoingPacket × Nat)) (retransmit_list : List UInt16) :
    (UTPConnection.collectExpired expired entries c retransmit_list).1.OnlySyn := by
  induction entries generalizing c retransmit_list with
  | nil => exact h
  | cons entry entries ih =>
    have hmark : OnlySyn
        { c with retransmitted_packets := c.retransmitted_packets.insert entry.1 } :=
      h.of_buffer rfl rfl
    rw [UTPConnection.collectExpired]
    split
    · split
      · exact of_closed rfl
      · exact ih hmark _
    · exact ih h _

theorem checkRetransmissions (h : c.OnlySyn) (expired : UInt16 → Nat → Bool) (now : UInt32) :
    (c.checkRetransmissions expired now).OnlySyn := by
  rw [UTPConnection.checkRetransmissions]
  simp only
  have hcollected := h.collectExpired expired c.send_buffer.entries []
  generalize UTPConnection.collectExpired expired c.send_buffer.entries c [] = r at hcollected ⊢
  obtain ⟨c₁, seqs⟩ := r
  simp only at hcollected ⊢
  induction seqs generalizing c₁ with
  | nil => exact hcollected
  | cons seq seqs ih =>
    apply ih (c₁.resend seq now)
    apply hcollected.of_keys (resend_step c₁ seq now).state
    exact fun s hm => (mem_keys_of_retains (resend_retains c₁ seq now) s).mp hm

theorem step (h : c.OnlySyn) (e : Event) : (c.step e).OnlySyn := by
  cases e with
  | connect now =>
    rw [UTPConnection.step]
    split
    · next hs => exact h.connect hs now
    · exact h
  | accept packet_data now =>
    rw [UTPConnection.step]
    split
    · next hs => exact h.acceptSyn hs packet_data now
    · exact h
  | datagram packet_data ecn_ce now => exact h.handlePacket packet_data ecn_ce now
  | send data now =>
    rw [UTPConnection.step]
    split
    · next hs =>
      apply of_connected
      rw [sendRound]
      split <;> exact hs
    · exact h
  | receive max_bytes =>
    rw [UTPConnection.step]
    split
    · exact h
    · next bytes c' hr =>
      obtain ⟨rest, rfl, -⟩ := receive_spec hr
      exact h.of_buffer rfl rfl
  | sendBatchedAcks now => exact h.acking (c.sendBatchedAcks_step now)
  | checkRetransmissions expired now => exact h.checkRetransmissions expired now
  | close now => exact h.close now

end OnlySyn

/-- A state packet reaches `_handle_state_packet`. -/
theorem handlePacket_state {packet_data : Bytes} {packet : UTPPacket}
    (hp : UTPPacket.unpack packet_data = .ok packet)
    (ht : packet.type = UTPPacketType.ST_STATE.toByte) (ecn_ce : Bool) (now : UInt32) :
    ∃ noted, NotingStep c noted ∧
      c.handlePacket packet_data ecn_ce now = noted.handleStatePacket packet now := by
  rw [handlePacket, hp]
  refine ⟨_, (c.noteEcn_step ecn_ce).trans (noteAck_step _ packet), ?_⟩
  simp only
  rw [route, ht, if_neg (by decide), if_pos rfl]

theorem handleStatePacket_get? {packet : UTPPacket} (now : UInt32) (seq : UInt16)
    {v' : OutgoingPacket × Nat}
    (hv' : (c.handleStatePacket packet now).send_buffer.get? seq = some v') :
    ∃ v, c.send_buffer.get? seq = some v ∧
      UTPPacket.SameContent v'.1.toUTPPacket v.1.toUTPPacket := by
  by_cases hsyn : c.state = .SYN_RECEIVED ∧ packet.ack_nr = 0
  · rw [handleStatePacket, if_pos hsyn, completeHandshake] at hv'
    simp only at hv'
    rw [Dict.get?_erase] at hv'
    split at hv'
    · cases hv'
    · exact ⟨v', hv', .refl _⟩
  · exact (handleStatePacket_retains hsyn now).entries seq v' hv'

/-- One acknowledgment is right exactly when the two orders agree on what is outstanding. -/
theorem handleStatePacket_serial_iff (h : c.OnlySyn) (packet : UTPPacket) (now : UInt32) :
    (∀ seq, seq ∈ (c.handleStatePacket packet now).send_buffer.keys ↔
      seq ∈ c.send_buffer.keys ∧ ¬packet.Sacks seq ∧ ¬SeriallyAcked packet.ack_nr seq) ↔
    ∀ seq ∈ c.send_buffer.keys, ¬packet.Sacks seq →
      (seq ≤ packet.ack_nr ↔ SeriallyAcked packet.ack_nr seq) := by
  by_cases hsyn : c.state = .SYN_RECEIVED ∧ packet.ack_nr = 0
  · have hzero : ∀ seq ∈ c.send_buffer.keys, seq = 0 := h (.inr (.inr hsyn.1))
    have hself : SeriallyAcked packet.ack_nr 0 := by
      rw [hsyn.2]
      decide
    apply iff_of_true
    · intro seq
      rw [handleStatePacket, if_pos hsyn, completeHandshake]
      simp only
      rw [Dict.mem_keys_iff, Dict.get?_erase]
      constructor
      · rintro ⟨v, hv⟩
        split at hv
        · cases hv
        · next hne => exact absurd (hzero seq ((Dict.mem_keys_iff _).mpr ⟨v, hv⟩)) hne
      · rintro ⟨hm, -, hn⟩
        rw [hzero seq hm] at hn
        exact absurd hself hn
    · intro seq hm _
      rw [hzero seq hm]
      exact iff_of_true (UInt16.zero_le) hself
  · simp only [mem_keys_handleStatePacket hsyn now]
    constructor
    · intro hall seq hm hs
      have := hall seq
      tauto
    · intro hall seq
      have := hall seq
      tauto

theorem acksSerially_iff_ordersAgree (h : c.OnlySyn) (e : Event) :
    c.AcksSerially e ↔ c.OrdersAgree e := by
  refine forall_congr' fun packet => forall_congr' fun hacks => ?_
  cases e with
  | datagram packet_data ecn_ce now =>
    obtain ⟨hp, ht, -, -⟩ := hacks
    obtain ⟨noted, hnoted, he⟩ := c.handlePacket_state hp ht ecn_ce now
    have hsyn : noted.OnlySyn := h.noting hnoted
    rw [step, he, ← hnoted.send_buffer, handleStatePacket_serial_iff hsyn]
    exact and_iff_left fun seq v' hv' => handleStatePacket_get? now seq hv'
  | _ => exact absurd hacks not_false

/-- A connected sender behind the packet under `seq`, with what is outstanding. -/
structure Holds (seq : UInt16) (outstanding : List UInt16) (c : UTPConnection) : Prop where
  connected : c.state = .CONNECTED
  seq_nr : c.seq_nr = seq
  keys : c.send_buffer.keys = outstanding
  window : c.send_window = 65535
  limit : c.max_unacked_packets = 100
  scale : c.window_scale = 0

/-- The acknowledgment under a number. -/
def ackOf (ack_nr : UInt16) : OutgoingPacket :=
  { type := UTPPacketType.ST_STATE.toByte
    connection_id := 2
    ack_nr
    wnd_size := 65535
    type_le := UTPPacketType.toByte_le _ }

def sendOctet : Event := .send [0] 0

def acknowledge (ack_nr : UInt16) : Event := .datagram (ackOf ack_nr).bytes false 0

theorem unpack_ackOf (ack_nr : UInt16) : UTPPacket.unpack (ackOf ack_nr).bytes =
    .ok { (ackOf ack_nr).toUTPPacket with extension := (ackOf ack_nr).extensionField } := by
  rw [OutgoingPacket.bytes]
  exact UTPPacket.unpack_serialize (.inl rfl)

namespace Holds

variable {seq : UInt16} {outstanding : List UInt16}

theorem sendOctet (h : Holds seq outstanding c) (hlen : outstanding.length < 50)
    (hnew : seq + 1 ∉ outstanding) :
    Holds (seq + 1) (outstanding ++ [seq + 1]) (c.step sendOctet) := by
  have hsize : c.send_buffer.size = outstanding.length := by
    rw [← h.keys, Dict.keys, List.length_map, Dict.size]
  have hcan : c.canSend = true := by
    rw [canSend, h.limit, h.window, hsize, if_neg (by omega)]
    simp only [decide_not, Bool.not_eq_true', decide_eq_false_iff_not]
    omega
  rw [UTPConnection.sendOctet, step, if_pos h.connected, sendRound, if_pos hcan]
  refine ⟨h.connected, ?_, ?_, h.window, h.limit, h.scale⟩
  · rw [← h.seq_nr]
    rfl
  · rw [← h.seq_nr, ← h.keys] at hnew ⊢
    exact (keys_setEntry _ _ _).trans (if_neg hnew)

theorem acknowledge (h : Holds seq outstanding c) {ack_nr : UInt16}
    (hle : ∀ s ∈ outstanding, s ≤ ack_nr) : Holds seq [] (c.step (acknowledge ack_nr)) := by
  obtain ⟨packet, hp, ht, hack, hwnd⟩ : ∃ packet, UTPPacket.unpack (ackOf ack_nr).bytes =
      .ok packet ∧ packet.type = UTPPacketType.ST_STATE.toByte ∧ packet.ack_nr = ack_nr ∧
        packet.wnd_size = 65535 := ⟨_, unpack_ackOf ack_nr, rfl, rfl, rfl⟩
  obtain ⟨noted, hnoted, he⟩ := c.handlePacket_state hp ht false 0
  have hkeys : noted.send_buffer.keys = outstanding := by
    rw [hnoted.send_buffer]
    exact h.keys
  have hscale : noted.window_scale = 0 := by
    obtain ⟨_, _, _, _, _, rfl⟩ := hnoted
    exact h.scale
  have hsyn : ¬(noted.state = .SYN_RECEIVED ∧ packet.ack_nr = 0) := by
    rintro ⟨hs, -⟩
    rw [hnoted.state, h.connected] at hs
    cases hs
  obtain ⟨_, _, _, _, _, _, hs⟩ := handleStatePacket_step hsyn 0
  rw [UTPConnection.acknowledge, step, he]
  refine ⟨?_, ?_, ?_, ?_, ?_, ?_⟩
  · rw [hs]
    exact hnoted.state.trans h.connected
  · rw [hs]
    obtain ⟨_, _, _, _, _, rfl⟩ := hnoted
    exact h.seq_nr
  · rw [List.eq_nil_iff_forall_not_mem]
    intro s hm
    obtain ⟨hm, -, hn⟩ := (mem_keys_handleStatePacket hsyn 0 s).mp hm
    rw [hack] at hn
    exact hn (hle s (hkeys ▸ hm))
  · rw [handleStatePacket_send_window hsyn, hscale, hwnd]
    rfl
  · rw [hs]
    obtain ⟨_, _, _, _, _, rfl⟩ := hnoted
    exact h.limit
  · rw [hs]
    exact hscale

end Holds

def initiator : UTPConnection :=
  { config := { mtu := 1300 }, remote_addr := ("10.0.0.2", 6881), connection_id := 1 }

theorem isNew_initiator : IsNew initiator := ⟨_, _, _, _, rfl⟩

/-- The answer of the other side to the SYN. -/
def synAck : OutgoingPacket :=
  { type := UTPPacketType.ST_SYN.toByte
    connection_id := 2
    wnd_size := 65535
    type_le := UTPPacketType.toByte_le _ }

def greeting : List Event := [.connect 0, .datagram synAck.bytes false 0]

/-- Packets that are sent and acknowledged one by one, from the number behind `first` on. -/
def laps (first : ℕ) : ℕ → List Event
  | 0 => []
  | n + 1 => laps first n ++ [sendOctet, acknowledge (UInt16.ofNat (first + n + 1))]

theorem holds_greeting : Holds 1 [] (run step initiator greeting) := by
  constructor <;> decide +kernel

theorem holds_laps {first : ℕ} (h : Holds (UInt16.ofNat first) [] c) (n : ℕ) :
    Holds (UInt16.ofNat (first + n)) [] (run step c (laps first n)) := by
  induction n with
  | zero => exact h
  | succ n ih =>
    have hnext : UInt16.ofNat (first + n) + 1 = UInt16.ofNat (first + n + 1) := by
      rw [UInt16.ofNat_add _ 1]
      rfl
    rw [laps, run_append]
    have hsent := ih.sendOctet (by decide) List.not_mem_nil
    rw [hnext, List.nil_append] at hsent
    apply hsent.acknowledge
    intro s hm
    rw [List.mem_singleton.mp hm]
    exact UInt16.le_refl _

/-- Two packets around the end of the numbers, and the acknowledgment of the first one. -/
def wrapping : List Event := [sendOctet, sendOctet, acknowledge 0xFFFF]

theorem not_stepsMeet_wrapping (h : Holds 0xFFFE [] c) :
    ¬StepsMeet step AcksSerially c wrapping := by
  have hfirst := h.sendOctet (by decide) List.not_mem_nil
  have hsecond := hfirst.sendOctet (by decide) (by decide)
  have hlast (s : UInt16) : s ≤ 0xFFFF :=
    UInt16.le_iff_toNat_le.mpr (Nat.le_of_lt_succ s.toNat_lt)
  have hacked : (((c.step sendOctet).step sendOctet).step
      (acknowledge 0xFFFF)).send_buffer.keys = [] :=
    (hsecond.acknowledge fun s _ => hlast s).keys
  rintro ⟨-, -, hacks, -⟩
  have hsize : ((c.step sendOctet).step sendOctet).send_buffer.size = 2 := by
    rw [Dict.size, ← List.length_map Prod.fst]
    exact congrArg List.length hsecond.keys
  have hwindow : ((c.step sendOctet).step sendOctet).InWindow 0xFFFF := by
    refine ⟨0xFFFF, ?_, ?_⟩
    · rw [hsecond.keys]
      decide
    · exact Nat.le_succ _
  have hexact := (hacks _ ⟨unpack_ackOf 0xFFFF, rfl, by rw [hsize]; decide, hwindow⟩).1 0
  rw [hacked, hsecond.keys] at hexact
  have hnot : ¬(ackOf 0xFFFF).toUTPPacket.Sacks 0 := by decide
  exact List.not_mem_nil (hexact.mpr ⟨by decide, hnot, by decide⟩)

theorem not_stepsMeet_laps {n : ℕ} (hn : UInt16.ofNat (1 + n) = 0xFFFE) :
    ¬StepsMeet step AcksSerially initiator (greeting ++ (laps 1 n ++ wrapping)) := by
  intro h
  have hlaps := stepsMeet_drop h greeting.length
  rw [List.take_left, List.drop_left] at hlaps
  have hend := stepsMeet_drop hlaps (laps 1 n).length
  rw [List.take_left, List.drop_left] at hend
  exact not_stepsMeet_wrapping (hn ▸ holds_laps holds_greeting n) hend

end UTPConnection

end Utp

end Ccbt
