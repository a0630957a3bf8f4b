import Ccbt.Transport.Utp.Connection

/-!
# What the methods of a uTP connection leave alone

Each relation below says that two states of a connection differ in one group of
fields at most. The relations are preorders, so a method inherits them from its
steps.
-/

namespace Ccbt

open Python

namespace Utp

namespace UTPConnection

/-- Only the result of the extension negotiation differs. -/
def NegotiationStep (c c' : UTPConnection) : Prop :=
  ∃ window_scale negotiated_extensions,
    c' = { c with window_scale, negotiated_extensions }

/-- Only what belongs to sending differs: the send buffer and its bookkeeping, the
peer's window and the datagrams handed to the transport. -/
def SendingStep (c c' : UTPConnection) : Prop :=
  ∃ send_buffer send_window duplicate_acks last_ack_nr retransmitted_packets transport,
    c' = { c with
      send_buffer, send_window, duplicate_acks, last_ack_nr, retransmitted_packets, transport }

/-- Only what belongs to acknowledging differs. -/
def AckingStep (c c' : UTPConnection) : Prop :=
  ∃ ack_packet_count pending_acks ecn_echo ecn_cwr transport,
    c' = { c with ack_packet_count, pending_acks, ecn_echo, ecn_cwr, transport }

/-- Only what `_handle_packet` notes before it routes a packet differs. -/
def NotingStep (c c' : UTPConnection) : Prop :=
  ∃ ecn_ce_received ecn_echo ecn_cwr send_window last_timestamp_diff,
    c' = { c with ecn_ce_received, ecn_echo, ecn_cwr, send_window, last_timestamp_diff }

variable {c c' c'' : UTPConnection}

namespace NegotiationStep

theorem refl (c : UTPConnection) : NegotiationStep c c := ⟨_, _, rfl⟩

theorem trans (h : NegotiationStep c c') (h' : NegotiationStep c' c'') :
    NegotiationStep c c'' := by
  obtain ⟨_, _, rfl⟩ := h
  obtain ⟨_, _, rfl⟩ := h'
  exact ⟨_, _, rfl⟩

theorem state (h : NegotiationStep c c') : c'.state = c.state := by
  obtain ⟨_, _, rfl⟩ := h
  rfl

end NegotiationStep

namespace SendingStep

theorem refl (c : UTPConnection) : SendingStep c c := ⟨_, _, _, _, _, _, rfl⟩

theorem trans (h : SendingStep c c') (h' : SendingStep c' c'') : SendingStep c c'' := by
  obtain ⟨_, _, _, _, _, _, rfl⟩ := h
  obtain ⟨_, _, _, _, _, _, rfl⟩ := h'
  exact ⟨_, _, _, _, _, _, rfl⟩

theorem foldl {α : Type*} {f : UTPConnection → α → UTPConnection}
    (h : ∀ c a, SendingStep c (f c a)) (l : List α) (c : UTPConnection) :
    SendingStep c (l.foldl f c) := by
  induction l generalizing c with
  | nil => exact refl c
  | cons a l ih => exact (h c a).trans (ih (f c a))

theorem state (h : SendingStep c c') : c'.state = c.state := by
  obtain ⟨_, _, _, _, _, _, rfl⟩ := h
  rfl

theorem seq_nr (h : SendingStep c c') : c'.seq_nr = c.seq_nr := by
  obtain ⟨_, _, _, _, _, _, rfl⟩ := h
  rfl

end SendingStep

namespace AckingStep

theorem recv_buffer (h : AckingStep c c') : c'.recv_buffer = c.recv_buffer := by
  obtain ⟨_, _, _, _, _, rfl⟩ := h
  rfl

theorem recv_data_buffer (h : AckingStep c c') : c'.recv_data_buffer = c.recv_data_buffer := by
  obtain ⟨_, _, _, _, _, rfl⟩ := h
  rfl

theorem received_seqs (h : AckingStep c c') : c'.received_seqs = c.received_seqs := by
  obtain ⟨_, _, _, _, _, rfl⟩ := h
  rfl

end AckingStep

namespace NotingStep

theorem refl (c : UTPConnection) : NotingStep c c := ⟨_, _, _, _, _, rfl⟩

theorem trans (h : NotingStep c c') (h' : NotingStep c' c'') : NotingStep c c'' := by
  obtain ⟨_, _, _, _, _, rfl⟩ := h
  obtain ⟨_, _, _, _, _, rfl⟩ := h'
  exact ⟨_, _, _, _, _, rfl⟩

theorem state (h : NotingStep c c') : c'.state = c.state := by
  obtain ⟨_, _, _, _, _, rfl⟩ := h
  rfl

theorem transport (h : NotingStep c c') : c'.transport = c.transport := by
  obtain ⟨_, _, _, _, _, rfl⟩ := h
  rfl

theorem send_buffer (h : NotingStep c c') : c'.send_buffer = c.send_buffer := by
  obtain ⟨_, _, _, _, _, rfl⟩ := h
  rfl

end NotingStep

/-! ### Negotiation -/

theorem negotiate_step (c : UTPConnection) (ext : UTPExtension) :
    NegotiationStep c (c.negotiate ext) := by
  cases ext <;> simp only [negotiate] <;> split <;> exact ⟨_, _, rfl⟩

theorem processExtensionNegotiation_step (c : UTPConnection) (exts : List UTPExtension) :
    NegotiationStep c (c.processExtensionNegotiation exts) := by
  induction exts generalizing c with
  | nil => exact .refl c
  | cons ext exts ih => exact (c.negotiate_step ext).trans (ih (c.negotiate ext))

/-! ### Acknowledgments -/

theorem processStateExtensions_step (c : UTPConnection) (exts : List UTPExtension) :
    SendingStep c (c.processStateExtensions exts) := by
  apply SendingStep.foldl
  intro c ext
  cases ext with
  | sack blocks _ => exact ⟨_, _, _, _, _, _, rfl⟩
  | windowScaling _ => exact .refl c
  | ecn _ _ => exact .refl c

theorem resend_step (c : UTPConnection) (seq : UInt16) (now : UInt32) :
    SendingStep c (c.resend seq now) := by
  rw [resend]
  split
  · exact .refl c
  · exact ⟨_, _, _, _, _, _, rfl⟩

theorem fastRetransmit_step (c : UTPConnection) (now : UInt32) :
    SendingStep c (c.fastRetransmit now) := by
  rw [fastRetransmit]
  split
  · exact .refl c
  · next oldest_seq _ =>
    have hmark : SendingStep c
        { c with retransmitted_packets := c.retransmitted_packets.insert oldest_seq } :=
      ⟨_, _, _, _, _, _, rfl⟩
    exact (hmark.trans (resend_step _ oldest_seq now)).trans ⟨_, _, _, _, _, _, rfl⟩

theorem countDuplicate_step (c : UTPConnection) (ack_nr : UInt16) (now : UInt32) :
    SendingStep c (c.countDuplicate ack_nr now) := by
  have hcount : SendingStep c { c with duplicate_acks := c.duplicate_acks + 1 } :=
    ⟨_, _, _, _, _, _, rfl⟩
  rw [countDuplicate]
  split
  · simp only
    split
    · exact hcount.trans (fastRetransmit_step _ now)
    · exact hcount
  · exact ⟨_, _, _, _, _, _, rfl⟩

theorem updateSendWindow_step (c : UTPConnection) (packet : UTPPacket) :
    SendingStep c (c.updateSendWindow packet) := ⟨_, _, _, _, _, _, rfl⟩

theorem removeAcked_step (c : UTPConnection) (acked_seq : UInt16) :
    SendingStep c (c.removeAcked acked_seq) := ⟨_, _, _, _, _, _, rfl⟩

/-- The part of `_handle_state_packet` behind the handshake test. -/
theorem handleStatePacket_step {c : UTPConnection} {packet : UTPPacket}
    (h : ¬(c.state = .SYN_RECEIVED ∧ packet.ack_nr = 0)) (now : UInt32) :
    SendingStep c (c.handleStatePacket packet now) := by
  rw [handleStatePacket, if_neg h]
  have hexts := c.processStateExtensions_step packet.extensions
  refine hexts.trans ((updateSendWindow_step _ packet).trans ?_)
  exact (countDuplicate_step _ packet.ack_nr now).trans (removeAcked_step _ packet.ack_nr)

theorem sendBatchedAcks_step (c : UTPConnection) (now : UInt32) :
    AckingStep c (c.sendBatchedAcks now) := by
  rw [sendBatchedAcks]
  split <;> exact ⟨_, _, _, _, _, rfl⟩

theorem shouldSendImmediateAck_step (c : UTPConnection) (packet : UTPPacket) :
    ∃ ack_packet_count, (c.shouldSendImmediateAck packet).1 = { c with ack_packet_count } := by
  rw [shouldSendImmediateAck]
  split <;> exact ⟨_, rfl⟩

theorem resetEcnFlags_step (c : UTPConnection) :
    ∃ ecn_echo ecn_cwr, c.resetEcnFlags = { c with ecn_echo, ecn_cwr } := by
  rw [resetEcnFlags]
  split <;> exact ⟨_, _, rfl⟩

theorem sendAck_step (c : UTPConnection) (packet : UTPPacket) (now : UInt32) :
    AckingStep c (c.sendAck packet now) := by
  obtain ⟨n, hc⟩ := c.shouldSendImmediateAck_step packet
  obtain ⟨echo, cwr, he⟩ := ({ c with ack_packet_count := n } : UTPConnection).resetEcnFlags_step
  simp only [sendAck, hc, he]
  split <;> exact ⟨_, _, _, _, _, rfl⟩

/-! ### Dispatch -/

theorem handleEcnCongestion_step (c : UTPConnection) : NotingStep c c.handleEcnCongestion := by
  rw [handleEcnCongestion]
  split <;> exact ⟨_, _, _, _, _, rfl⟩

theorem updateRtt_step (c : UTPConnection) (packet : UTPPacket) :
    NotingStep c (c.updateRtt packet) := by
  rw [updateRtt]
  split
  · exact .refl c
  · split <;> exact ⟨_, _, _, _, _, rfl⟩

theorem noteEcn_step (c : UTPConnection) (ecn_ce : Bool) : NotingStep c (c.noteEcn ecn_ce) := by
  rw [noteEcn]
  split
  · exact .trans ⟨_, _, _, _, _, rfl⟩ (handleEcnCongestion_step _)
  · exact .refl c

theorem noteAck_step (c : UTPConnection) (packet : UTPPacket) :
    NotingStep c (c.noteAck packet) := by
  rw [noteAck]
  split
  · exact c.updateRtt_step packet
  · exact .refl c

/-- A datagram that a connection has sent is read as the packet that was sent. -/
theorem handlePacket_bytes (c : UTPConnection) {p : OutgoingPacket}
    (h : p.toUTPPacket.Delimited) (ecn_ce : Bool) (now : UInt32) : ∃ noted, NotingStep c noted ∧
      c.handlePacket p.bytes ecn_ce now =
        noted.route { p.toUTPPacket with extension := p.extensionField } now := by
  rw [handlePacket, OutgoingPacket.bytes, UTPPacket.unpack_serialize h]
  exact ⟨_, (c.noteEcn_step ecn_ce).trans (noteAck_step _ _), rfl⟩

end UTPConnection

end Utp

end Ccbt
