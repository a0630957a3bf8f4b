import Ccbt.Transport.Utp.Delivery

/-!
# What a uTP connection advertises

Every packet that a connection sends, keeps for a retransmission or holds back as an
acknowledgment says the same about its window, and no method but the negotiation
changes the scale that it applies to the window of its peer.
-/

namespace Ccbt

open Python

namespace Utp

/-- The scale factor that a configuration offers; none is offered where it is `0`. -/
def UTPConfig.scaleFactor (config : UTPConfig) : ScaleFactor :=
  UTPConnection.scaleLoop config.max_window_size 14 0

/-- The packet advertises a window and offers no other scale factor than the given one. -/
structure OutgoingPacket.Advertises (window : UInt32) (scale : ScaleFactor)
    (p : OutgoingPacket) : Prop where
  wnd_size : p.wnd_size = window
  scale_factor : ∀ f, .windowScaling f ∈ p.extensions → f = scale
  delimited : p.toUTPPacket.Delimited

namespace OutgoingPacket.Advertises

variable {window : UInt32} {scale : ScaleFactor} {p : OutgoingPacket}

theorem setTimestamp (h : p.Advertises window scale) (now : UInt32) :
    (p.setTimestamp now).Advertises window scale := { h with }

/-- A packet without extensions offers no scale factor. -/
theorem of_extensions_eq_nil (hw : p.wnd_size = window) (he : p.extensions = []) :
    p.Advertises window scale where
  wnd_size := hw
  scale_factor f hf := by simp [he] at hf
  delimited := .inl he

end OutgoingPacket.Advertises

namespace UTPConnection

/-- All that the connection has sent or may send again advertises `window` and `scale`, and
it applies `peer_scale` to the window of its peer. -/
structure Consistent (window : UInt32) (scale : ScaleFactor) (peer_scale : Nat)
    (c : UTPConnection) : Prop where
  recv_window : c.recv_window = window
  config : c.config.scaleFactor = scale
  window_scale : c.window_scale = peer_scale
  send_buffer : ∀ seq entry, c.send_buffer.get? seq = some entry →
    entry.1.Advertises window scale
  pending_acks : ∀ p ∈ c.pending_acks, p.Advertises window scale
  transport : ∀ p ∈ c.transport, p.Advertises window scale

variable {window : UInt32} {scale : ScaleFactor} {peer_scale : Nat} {c : UTPConnection}
variable {packet : UTPPacket} {p : OutgoingPacket}

namespace Consistent

theorem flushed (h : c.Consistent window scale peer_scale) :
    c.flushed.Consistent window scale peer_scale :=
  { h with transport := by simp [UTPConnection.flushed] }

theorem sendPacket (h : c.Consistent window scale peer_scale) (hp : p.Advertises window scale)
    (now : UInt32) : (c.sendPacket p now).Consistent window scale peer_scale where
  __ := h
  transport q hq := by
    obtain hq | hq := List.mem_append.mp hq
    · exact h.transport q hq
    · rw [List.mem_singleton.mp hq]
      exact hp.setTimestamp now

theorem setBuffered (h : c.Consistent window scale peer_scale) (hp : p.Advertises window scale)
    (seq : UInt16) (retry_count : Nat) :
    ({ c with send_buffer := c.send_buffer.set seq (p, retry_count) } :
      UTPConnection).Consistent window scale peer_scale where
  __ := h
  send_buffer seq' entry he := by
    rw [Dict.get?_set] at he
    split at he
    · cases he
      exact hp
    · exact h.send_buffer seq' entry he

theorem eraseBuffered (h : c.Consistent window scale peer_scale) (seqs : List UInt16) :
    ({ c with send_buffer := seqs.foldl Dict.erase c.send_buffer } :
      UTPConnection).Consistent window scale peer_scale where
  __ := h
  send_buffer seq entry he := by
    rw [Dict.get?_foldl_erase] at he
    split at he
    · exact absurd he (by simp)
    · exact h.send_buffer seq entry he

/-! ### Handshake -/

theorem mem_advertiseExtensions (c : UTPConnection) {f : ScaleFactor}
    (hf : .windowScaling f ∈ c.advertiseExtensions) : f = c.config.scaleFactor := by
  rw [advertiseExtensions, List.mem_append] at hf
  rcases hf with hf | hf
  · split at hf <;> simp at hf
  · split at hf
    · simp only at hf
      split at hf
      · simpa [UTPConfig.scaleFactor] using hf
      · simp at hf
    · simp at hf

theorem synPacket (h : c.Consistent window scale peer_scale) (ack_nr : UInt16) :
    (c.synPacket ack_nr).Advertises window scale where
  wnd_size := h.recv_window
  scale_factor _ hf := (mem_advertiseExtensions c hf).trans h.config
  delimited := .inr rfl

theorem completeHandshake (h : c.Consistent window scale peer_scale) :
    c.completeHandshake.Consistent window scale peer_scale :=
  { h.eraseBuffered [0] with }

theorem connect (h : c.Consistent window scale peer_scale) (now : UInt32) :
    (c.connect now).Consistent window scale peer_scale := by
  have hsent : ({ c with state := .SYN_SENT } : UTPConnection).Consistent window scale
      peer_scale := { h with }
  have hsyn := hsent.synPacket 0
  exact (hsent.sendPacket hsyn now).setBuffered (hsyn.setTimestamp now) 0 0

theorem sendSynAck (h : c.Consistent window scale peer_scale) (peer_seq_nr : UInt16)
    (now : UInt32) : (c.sendSynAck peer_seq_nr now).Consistent window scale peer_scale := by
  have hsyn := h.synPacket peer_seq_nr
  exact (h.setBuffered (hsyn.setTimestamp now) 0 0).sendPacket hsyn now

/-- A negotiation moves the scale to one that the peer has offered, at most. -/
theorem negotiate (h : c.Consistent window scale peer_scale) (ext : UTPExtension)
    {offered : ScaleFactor} (hext : ∀ f, ext = .windowScaling f → f = offered)
    (hle : peer_scale ≤ offered) : ∃ peer_scale' : Nat, peer_scale' ≤ offered ∧
      (c.negotiate ext).Consistent window scale peer_scale' := by
  cases ext with
  | windowScaling f =>
    rw [hext f rfl, UTPConnection.negotiate]
    split
    · refine ⟨_, ?_, { h with window_scale := rfl }⟩
      split
      · exact le_rfl
      · exact min_le_left _ _
    · exact ⟨peer_scale, hle, h⟩
  | sack blocks _ =>
    refine ⟨peer_scale, hle, ?_⟩
    rw [UTPConnection.negotiate]
    split
    · exact { h with }
    · exact h
  | ecn _ _ =>
    refine ⟨peer_scale, hle, ?_⟩
    rw [UTPConnection.negotiate]
    split
    · exact { h with }
    · exact h

theorem processExtensionNegotiation (h : c.Consistent window scale peer_scale)
    {exts : List UTPExtension} {offered : ScaleFactor}
    (hexts : ∀ f, .windowScaling f ∈ exts → f = offered) (hle : peer_scale ≤ offered) :
    ∃ peer_scale' : Nat, peer_scale' ≤ offered ∧
      (c.processExtensionNegotiation exts).Consistent window scale peer_scale' := by
  induction exts generalizing c peer_scale with
  | nil => exact ⟨peer_scale, hle, h⟩
  | cons ext exts ih =>
    have hext : ∀ f, ext = .windowScaling f → f = offered := fun f hf => hexts f (by simp [hf])
    obtain ⟨peer_scale', hle', h'⟩ := h.negotiate ext hext hle
    exact ih h' (fun f hf => hexts f (List.mem_cons_of_mem _ hf)) hle'

/-- Only fields that no packet advertises differ. -/
theorem updateSendWindow (h : c.Consistent window scale peer_scale) (packet : UTPPacket) :
    (c.updateSendWindow packet).Consistent window scale peer_scale := { h with }

/-! ### Sending -/

theorem sendRound (h : c.Consistent window scale peer_scale) (data : Bytes) (now : UInt32) :
    (c.sendRound data now).1.Consistent window scale peer_scale := by
  rw [UTPConnection.sendRound]
  split
  · have hnext : ({ c with seq_nr := c.seq_nr + 1 } : UTPConnection).Consistent window scale
        peer_scale := { h with }
    have hdata : (({ c with seq_nr := c.seq_nr + 1 } : UTPConnection).dataPacket
        (data.take c.payloadSize)).Advertises window scale :=
      .of_extensions_eq_nil h.recv_window rfl
    exact (hnext.setBuffered (hdata.setTimestamp now) _ 0).sendPacket hdata now
  · exact h

/-! ### Acknowledgments -/

theorem foldl {α : Type*} {f : UTPConnection → α → UTPConnection}
    (hf : ∀ c a, c.Consistent window scale peer_scale → (f c a).Consistent window scale peer_scale)
    (h : c.Consistent window scale peer_scale) (l : List α) :
    (l.foldl f c).Consistent window scale peer_scale := by
  induction l generalizing c with
  | nil => exact h
  | cons a l ih => exact ih (hf c a h)

theorem processSackBlocks (h : c.Consistent window scale peer_scale) (blocks : List SACKBlock) :
    (c.processSackBlocks blocks).Consistent window scale peer_scale := by
  rw [UTPConnection.processSackBlocks, ← List.foldl_flatMap]
  exact h.eraseBuffered (blocks.flatMap blockRange)

theorem resend (h : c.Consistent window scale peer_scale) (seq : UInt16) (now : UInt32) :
    (c.resend seq now).Consistent window scale peer_scale := by
  rw [UTPConnection.resend]
  split
  · exact h
  · next packet retry_count hget =>
    have hp : packet.Advertises window scale := h.send_buffer seq _ hget
    exact (h.sendPacket hp now).setBuffered (hp.setTimestamp now) seq _

theorem fastRetransmit (h : c.Consistent window scale peer_scale) (now : UInt32) :
    (c.fastRetransmit now).Consistent window scale peer_scale := by
  rw [UTPConnection.fastRetransmit]
  split
  · exact h
  · next oldest_seq _ =>
    have hmark : ({ c with retransmitted_packets := c.retransmitted_packets.insert oldest_seq } :
        UTPConnection).Consistent window scale peer_scale := { h with }
    exact { hmark.resend oldest_seq now with }

theorem processStateExtensions (h : c.Consistent window scale peer_scale)
    (exts : List UTPExtension) :
    (c.processStateExtensions exts).Consistent window scale peer_scale := by
  apply foldl _ h
  intro c ext h
  cases ext with
  | sack blocks _ => exact h.processSackBlocks blocks
  | windowScaling _ => exact h
  | ecn _ _ => exact h

theorem countDuplicate (h : c.Consistent window scale peer_scale) (ack_nr : UInt16)
    (now : UInt32) : (c.countDuplicate ack_nr now).Consistent window scale peer_scale := by
  have hcount : ({ c with duplicate_acks := c.duplicate_acks + 1 } :
      UTPConnection).Consistent window scale peer_scale := { h with }
  rw [UTPConnection.countDuplicate]
  split
  · simp only
    split
    · exact hcount.fastRetransmit now
    · exact hcount
  · exact { h with }

theorem handleStatePacket (h : c.Consistent window scale peer_scale) (packet : UTPPacket)
    (now : UInt32) : (c.handleStatePacket packet now).Consistent window scale peer_scale := by
  rw [UTPConnection.handleStatePacket]
  split
  · exact h.completeHandshake
  · have hwindow := (h.processStateExtensions packet.extensions).updateSendWindow packet
    exact (hwindow.countDuplicate packet.ack_nr now).eraseBuffered _

/-! ### Receiving -/

theorem ackPacket (h : c.Consistent window scale peer_scale) :
    c.ackPacket.Advertises window scale where
  wnd_size := h.recv_window
  scale_factor f hf := by
    have hf : .windowScaling f ∈ c.ackExtensions := hf
    rw [ackExtensions, List.mem_append] at hf
    rcases hf with hf | hf
    · split at hf
      · split at hf <;> simp [UTPExtension.newSack] at hf
      · simp at hf
    · split at hf <;> simp at hf
  delimited := .inr rfl

theorem sendAck (h : c.Consistent window scale peer_scale) (packet : UTPPacket) (now : UInt32) :
    (c.sendAck packet now).Consistent window scale peer_scale := by
  obtain ⟨n, hn⟩ := c.shouldSendImmediateAck_step packet
  have hcount : ({ c with ack_packet_count := n } : UTPConnection).Consistent window scale
      peer_scale := { h with }
  obtain ⟨echo, cwr, he⟩ := ({ c with ack_packet_count := n } : UTPConnection).resetEcnFlags_step
  have hreset : ({ c with ack_packet_count := n, ecn_echo := echo, ecn_cwr := cwr } :
      UTPConnection).Consistent window scale peer_scale := { h with }
  simp only [UTPConnection.sendAck, hn, he]
  split
  · exact { hreset.sendPacket hcount.ackPacket now with pending_acks := by simp }
  · exact { hreset with
      pending_acks := fun p hp => by
        rw [List.mem_singleton.mp hp]
        exact hcount.ackPacket }

theorem sendBatchedAcks (h : c.Consistent window scale peer_scale) (now : UInt32) :
    (c.sendBatchedAcks now).Consistent window scale peer_scale := by
  rw [UTPConnection.sendBatchedAcks]
  split
  · exact h
  · next latest_ack hlast =>
    have hack := h.pending_acks latest_ack (List.mem_of_getLast? hlast)
    exact { h.sendPacket hack now with pending_acks := by simp }

theorem handleDataPacket (h : c.Consistent window scale peer_scale) (packet : UTPPacket)
    (now : UInt32) : (c.handleDataPacket packet now).Consistent window scale peer_scale := by
  obtain ⟨_, _, _, he⟩ := (c.noteReceived packet.seq_nr).storeData_frame packet
  rw [UTPConnection.handleDataPacket, he]
  apply sendAck
  exact { h with }

theorem receive (h : c.Consistent window scale peer_scale) {max_bytes : Int} {data : Bytes}
    {c' : UTPConnection} (hc : c.receive max_bytes = some (data, c')) :
    c'.Consistent window scale peer_scale := by
  rw [UTPConnection.receive] at hc
  split at hc
  · split at hc
    · exact absurd hc (by simp)
    · cases hc
      exact { h with }
  · split at hc
    · exact absurd hc (by simp)
    · cases hc
      exact { h with }

/-! ### Closing and timers -/

theorem finPacket (h : c.Consistent window scale peer_scale) :
    c.finPacket.Advertises window scale := .of_extensions_eq_nil h.recv_window rfl

theorem close (h : c.Consistent window scale peer_scale) (now : UInt32) :
    (c.close now).Consistent window scale peer_scale := by
  rw [UTPConnection.close]
  split
  · exact h
  · simp only
    split
    · have hfin : ({ c.sendPacket c.finPacket now with state := .FIN_SENT } :
          UTPConnection).Consistent window scale peer_scale := { h.sendPacket h.finPacket now with }
      exact { hfin.sendBatchedAcks now with }
    · exact { h.sendBatchedAcks now with }

theorem handleFinPacket (h : c.Consistent window scale peer_scale) (now : UInt32) :
    (c.handleFinPacket now).Consistent window scale peer_scale := by
  rw [UTPConnection.handleFinPacket]
  split
  · have hfin : ({ c with state := .FIN_RECEIVED } : UTPConnection).Consistent window scale
        peer_scale := { h with }
    exact (hfin.sendPacket hfin.finPacket now).close now
  · exact h

theorem collectExpired (expired : UInt16 → Nat → Bool)
    (entries : List (UInt16 × OutgoingPacket × Nat)) (h : c.Consistent window scale peer_scale)
    (retransmit_list : List UInt16) :
    (UTPConnection.collectExpired expired entries c retransmit_list).1.Consistent window scale
      peer_scale := by
  induction entries generalizing c retransmit_list with
  | nil => exact h
  | cons entry entries ih =>
    have hmark : ({ c with retransmitted_packets := c.retransmitted_packets.insert entry.1 } :
        UTPConnection).Consistent window scale peer_scale := { h with }
    rw [UTPConnection.collectExpired]
    split
    · split
      · exact { h with }
      · exact ih hmark _
    · exact ih h _

theorem checkRetransmissions (h : c.Consistent window scale peer_scale)
    (expired : UInt16 → Nat → Bool) (now : UInt32) :
    (c.checkRetransmissions expired now).Consistent window scale peer_scale := by
  rw [UTPConnection.checkRetransmissions]
  apply foldl
  · intro c seq h
    exact h.resend seq now
  · exact h.collectExpired expired c.send_buffer.entries []

/-! ### Dispatch -/

theorem of_noting (h : c.Consistent window scale peer_scale) {noted : UTPConnection}
    (hn : NotingStep c noted) : noted.Consistent window scale peer_scale := by
  obtain ⟨_, _, _, _, _, rfl⟩ := hn
  exact { h with }

variable {offered : ScaleFactor}

theorem handleSynAck (h : c.Consistent window scale peer_scale)
    (hp : ∀ f, .windowScaling f ∈ packet.extensions → f = offered) (hle : peer_scale ≤ offered)
    (now : UInt32) : ∃ peer_scale' : Nat, peer_scale' ≤ offered ∧
      (c.handleSynAck packet now).Consistent window scale peer_scale' := by
  rw [UTPConnection.handleSynAck]
  split
  · exact ⟨peer_scale, hle, h⟩
  · have hid : ({ c with remote_connection_id := packet.connection_id } :
        UTPConnection).Consistent window scale peer_scale := { h with }
    obtain ⟨peer_scale', hle', h'⟩ := hid.processExtensionNegotiation hp hle
    have hwindow := h'.updateSendWindow packet
    exact ⟨peer_scale', hle', (hwindow.sendPacket
      (.of_extensions_eq_nil hwindow.recv_window rfl) now).completeHandshake⟩

theorem handleSyn (h : c.Consistent window scale peer_scale)
    (hp : ∀ f, .windowScaling f ∈ packet.extensions → f = offered) (hle : peer_scale ≤ offered)
    (now : UInt32) : ∃ peer_scale' : Nat, peer_scale' ≤ offered ∧
      (c.handleSyn packet now).Consistent window scale peer_scale' := by
  rw [UTPConnection.handleSyn]
  split
  · exact ⟨peer_scale, hle, h⟩
  · have hid : ({ c with
        remote_connection_id := packet.connection_id
        send_window := packet.wnd_size.toNat
        ack_nr := packet.seq_nr } : UTPConnection).Consistent window scale peer_scale := { h with }
    obtain ⟨peer_scale', hle', h'⟩ := hid.processExtensionNegotiation hp hle
    have hsent := h'.sendSynAck packet.seq_nr now
    refine ⟨peer_scale', hle', ?_⟩
    simp only
    split
    · exact { hsent with }
    · exact hsent

theorem route (h : c.Consistent window scale peer_scale)
    (hp : ∀ f, .windowScaling f ∈ packet.extensions → f = offered) (hle : peer_scale ≤ offered)
    (now : UInt32) : ∃ peer_scale' : Nat, peer_scale' ≤ offered ∧
      (c.route packet now).Consistent window scale peer_scale' := by
  rw [UTPConnection.route]
  split
  · split
    · exact h.handleSynAck hp hle now
    · split
      · exact h.handleSyn hp hle now
      · exact ⟨peer_scale, hle, h⟩
  · refine ⟨peer_scale, hle, ?_⟩
    split
    · exact h.handleStatePacket packet now
    · split
      · exact h.handleDataPacket packet now
      · split
        · exact h.handleFinPacket now
        · split
          · exact { h with }
          · exact h

end Consistent

/-! ### The window that a packet sets -/

/-- The packets whose window `_handle_packet` takes over. -/
def TakesWindow (c : UTPConnection) (packet : UTPPacket) : Prop :=
  (packet.type = UTPPacketType.ST_SYN.toByte ∧
    (c.state = .SYN_SENT ∨ c.state = .IDLE ∨ c.state = .SYN_RECEIVED)) ∨
  (packet.type = UTPPacketType.ST_STATE.toByte ∧
    ¬(c.state = .SYN_RECEIVED ∧ packet.ack_nr = 0))

instance (c : UTPConnection) (packet : UTPPacket) : Decidable (c.TakesWindow packet) :=
  inferInstanceAs (Decidable (_ ∨ _))

theorem updateSendWindow_send_window (c : UTPConnection) (packet : UTPPacket) :
    (c.updateSendWindow packet).send_window = packet.wnd_size.toNat <<< c.window_scale := by
  rw [updateSendWindow]
  simp only
  split
  · rfl
  · next h => rw [Nat.eq_zero_of_not_pos h, Nat.shiftLeft_zero]

theorem resend_send_window (c : UTPConnection) (seq : UInt16) (now : UInt32) :
    (c.resend seq now).send_window = c.send_window := by
  rw [resend]
  split <;> rfl

theorem countDuplicate_send_window (c : UTPConnection) (ack_nr : UInt16) (now : UInt32) :
    (c.countDuplicate ack_nr now).send_window = c.send_window := by
  rw [countDuplicate]
  split
  · simp only
    split
    · rw [fastRetransmit]
      split
      · rfl
      · exact resend_send_window _ _ now
    · rfl
  · rfl

theorem processStateExtensions_window_scale (c : UTPConnection) (exts : List UTPExtension) :
    (c.processStateExtensions exts).window_scale = c.window_scale := by
  obtain ⟨_, _, _, _, _, _, he⟩ := c.processStateExtensions_step exts
  rw [he]

theorem handleStatePacket_send_window (h : ¬(c.state = .SYN_RECEIVED ∧ packet.ack_nr = 0))
    (now : UInt32) :
    (c.handleStatePacket packet now).send_window =
      packet.wnd_size.toNat <<< c.window_scale := by
  rw [handleStatePacket, if_neg h]
  calc _ = ((c.processStateExtensions packet.extensions).updateSendWindow packet).send_window :=
        countDuplicate_send_window _ _ now
    _ = packet.wnd_size.toNat <<< c.window_scale := by
      rw [updateSendWindow_send_window, processStateExtensions_window_scale]

theorem processExtensionNegotiation_send_window (c : UTPConnection) (exts : List UTPExtension) :
    (c.processExtensionNegotiation exts).send_window = c.send_window := by
  obtain ⟨_, _, he⟩ := c.processExtensionNegotiation_step exts
  rw [he]

theorem handleSyn_send_window (h : c.state = .IDLE ∨ c.state = .SYN_RECEIVED)
    (packet : UTPPacket) (now : UInt32) :
    (c.handleSyn packet now).send_window = packet.wnd_size.toNat := by
  have hstate : ¬(c.state ≠ .IDLE ∧ c.state ≠ .SYN_RECEIVED) := by tauto
  rw [handleSyn, if_neg hstate]
  simp only
  split <;> exact processExtensionNegotiation_send_window _ _

/-- A connection reads the window of a SYN-ACK at the scale that it has negotiated with it. -/
theorem handleSynAck_send_window (h : c.state = .SYN_SENT) (packet : UTPPacket) (now : UInt32) :
    (c.handleSynAck packet now).send_window =
      packet.wnd_size.toNat <<< (c.handleSynAck packet now).window_scale := by
  rw [handleSynAck, if_neg (not_not.mpr h)]
  exact updateSendWindow_send_window _ packet

/-- The window that a packet sets is the advertised one, at the offered scale at most. -/
theorem route_send_window_le {offered : ScaleFactor}
    (h : c.Consistent window scale peer_scale) (hle : peer_scale ≤ offered)
    (hp : ∀ f, .windowScaling f ∈ packet.extensions → f = offered)
    (ht : c.TakesWindow packet) (now : UInt32) :
    (c.route packet now).send_window ≤ packet.wnd_size.toNat <<< offered.val := by
  have hshift {k : Nat} (hk : k ≤ offered) :
      packet.wnd_size.toNat <<< k ≤ packet.wnd_size.toNat <<< offered.val := by
    rw [Nat.shiftLeft_eq, Nat.shiftLeft_eq]
    exact Nat.mul_le_mul_left _ (Nat.pow_le_pow_right Nat.two_pos hk)
  rcases ht with ⟨htype, hstate⟩ | ⟨htype, hstate⟩
  · rw [UTPConnection.route, if_pos htype]
    rcases hstate with hsent | hrecv
    · rw [if_pos hsent, handleSynAck_send_window hsent]
      obtain ⟨peer_scale', hle', h'⟩ := h.handleSynAck hp hle now
      rw [h'.window_scale]
      exact hshift hle'
    · have hsent : c.state ≠ .SYN_SENT := by
        rcases hrecv with hs | hs <;> rw [hs] <;> decide
      rw [if_neg hsent, if_pos hrecv, handleSyn_send_window hrecv]
      exact hshift (Nat.zero_le _)
  · have hsyn : packet.type ≠ UTPPacketType.ST_SYN.toByte := by
      rw [htype]
      decide
    rw [UTPConnection.route, if_neg hsyn, if_pos htype, handleStatePacket_send_window hstate,
      h.window_scale]
    exact hshift hle

/-! ### Datagrams of the peer -/

variable {peer_window : UInt32} {offered : ScaleFactor}

theorem Consistent.handlePacket (h : c.Consistent window scale peer_scale)
    (hp : p.Advertises peer_window offered) (hle : peer_scale ≤ offered) (ecn_ce : Bool)
    (now : UInt32) : ∃ peer_scale' : Nat, peer_scale' ≤ offered ∧
      (c.handlePacket p.bytes ecn_ce now).Consistent window scale peer_scale' := by
  obtain ⟨noted, hn, he⟩ := c.handlePacket_bytes hp.delimited ecn_ce now
  have hscale : ∀ f, .windowScaling f ∈
      { p.toUTPPacket with extension := p.extensionField }.extensions → f = offered :=
    hp.scale_factor
  rw [he]
  exact (h.of_noting hn).route hscale hle now

theorem handlePacket_send_window_le (h : c.Consistent window scale peer_scale)
    (hp : p.Advertises peer_window offered) (hle : peer_scale ≤ offered)
    (ht : c.TakesWindow p.toUTPPacket) (ecn_ce : Bool) (now : UInt32) :
    (c.handlePacket p.bytes ecn_ce now).send_window ≤ peer_window.toNat <<< offered.val := by
  obtain ⟨noted, hn, he⟩ := c.handlePacket_bytes hp.delimited ecn_ce now
  have ht' : noted.TakesWindow { p.toUTPPacket with extension := p.extensionField } := by
    rw [TakesWindow, hn.state]
    exact ht
  have hscale : ∀ f, .windowScaling f ∈
      { p.toUTPPacket with extension := p.extensionField }.extensions → f = offered :=
    hp.scale_factor
  rw [he, ← hp.wnd_size]
  exact route_send_window_le (h.of_noting hn) hle hscale ht' now

end UTPConnection

end Utp

end Ccbt
