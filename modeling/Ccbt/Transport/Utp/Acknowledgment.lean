import Ccbt.Transport.Utp.Frames

/-!
# Acknowledgments of a uTP connection

What an acknowledgment takes out of the send buffer, and what the selective part of
an acknowledgment can name.
-/

namespace Ccbt

open Python

namespace Utp

/-- The test has two branches for numbers that have wrapped around, but it never looks past
the acknowledged number: it is the comparison of the two 16-bit numbers. -/
theorem UTPConnection.isSequenceAcked_iff (seq ack_nr : UInt16) :
    UTPConnection.isSequenceAcked seq ack_nr = true ↔ seq ≤ ack_nr := by
  rw [isSequenceAcked]
  split
  · exact decide_eq_true_iff
  · next h =>
    rw [decide_eq_true_iff]
    refine ⟨fun h' => h'.elim id fun hlt => ?_, Or.inl⟩
    simp only [UInt16.lt_iff_toNat_lt, UInt16.le_iff_toNat_le, UInt16.toNat_add,
      UInt16.reduceToNat] at h hlt ⊢
    have := ack_nr.toNat_lt
    omega

namespace UTPPacket

/-- The blocks of the SACK extensions of a packet. -/
def sackBlocks (p : UTPPacket) : List SACKBlock :=
  p.extensions.flatMap fun
    | .sack blocks _ => blocks
    | _ => []

/-- A block of the packet's names the number. -/
def Sacks (p : UTPPacket) (seq : UInt16) : Prop :=
  ∃ b ∈ p.sackBlocks, b.start_seq ≤ seq ∧ seq < b.end_seq

instance (p : UTPPacket) (seq : UInt16) : Decidable (p.Sacks seq) :=
  List.decidableBEx _ _

/-- Two data packets under one number with one payload. -/
def SameContent (p q : UTPPacket) : Prop :=
  p.type = q.type ∧ p.seq_nr = q.seq_nr ∧ p.data = q.data

theorem SameContent.refl (p : UTPPacket) : SameContent p p := ⟨rfl, rfl, rfl⟩

theorem SameContent.trans {p q r : UTPPacket} (h : SameContent p q) (h' : SameContent q r) :
    SameContent p r := ⟨h.1.trans h'.1, h.2.1.trans h'.2.1, h.2.2.trans h'.2.2⟩

end UTPPacket

namespace UTPConnection

open UTPPacket

variable {c c' c'' : UTPConnection}

/-- What a step of the sender's does to the packets that wait for an acknowledgment: those
whose number is not `Gone` stay, none comes in, and what is sent is a copy of one. -/
structure Retains (Gone : UInt16 → Prop) (c c' : UTPConnection) : Prop where
  keeps : ∀ seq v, c.send_buffer.get? seq = some v → ¬Gone seq →
    ∃ v', c'.send_buffer.get? seq = some v'
  entries : ∀ seq v', c'.send_buffer.get? seq = some v' →
    ∃ v, c.send_buffer.get? seq = some v ∧ SameContent v'.1.toUTPPacket v.1.toUTPPacket
  emits : ∀ p ∈ c'.transport, p ∈ c.transport ∨
    ∃ seq v, c.send_buffer.get? seq = some v ∧ SameContent p.toUTPPacket v.1.toUTPPacket

namespace Retains

variable {Gone Gone' : UInt16 → Prop}

theorem of_eq (hb : c'.send_buffer = c.send_buffer) (ht : c'.transport = c.transport) :
    Retains Gone c c' where
  keeps _ v h _ := ⟨v, hb ▸ h⟩
  entries _ v' h := ⟨v', hb ▸ h, .refl _⟩
  emits _ h := Or.inl (ht ▸ h)

theorem trans (h : Retains Gone c c') (h' : Retains Gone' c' c'') :
    Retains (fun seq => Gone seq ∨ Gone' seq) c c'' where
  keeps seq v hv hg := by
    obtain ⟨v', hv'⟩ := h.keeps seq v hv (fun hg' => hg (Or.inl hg'))
    exact h'.keeps seq v' hv' (fun hg' => hg (Or.inr hg'))
  entries seq v'' hv'' := by
    obtain ⟨v', hv', hc'⟩ := h'.entries seq v'' hv''
    obtain ⟨v, hv, hc⟩ := h.entries seq v' hv'
    exact ⟨v, hv, hc'.trans hc⟩
  emits p hp := by
    obtain hp | ⟨seq, v', hv', hc'⟩ := h'.emits p hp
    · exact h.emits p hp
    · obtain ⟨v, hv, hc⟩ := h.entries seq v' hv'
      exact Or.inr ⟨seq, v, hv, hc'.trans hc⟩

theorem mono (h : Retains Gone c c') (hg : ∀ seq, Gone seq → Gone' seq) : Retains Gone' c c' where
  keeps seq v hv hn := h.keeps seq v hv (fun hg' => hn (hg seq hg'))
  entries := h.entries
  emits := h.emits

end Retains

theorem resend_retains (c : UTPConnection) (seq : UInt16) (now : UInt32) :
    Retains (fun _ => False) c (c.resend seq now) := by
  rw [resend]
  split
  · exact .of_eq rfl rfl
  · next packet retry_count hget =>
    refine ⟨?_, ?_, ?_⟩
    · intro seq' v hv _
      rw [Dict.get?_set]
      split
      · exact ⟨_, rfl⟩
      · exact ⟨v, hv⟩
    · intro seq' v' hv'
      rw [Dict.get?_set] at hv'
      split at hv'
      · next he =>
        rw [← Option.some.inj hv', he]
        exact ⟨_, hget, rfl, rfl, rfl⟩
      · exact ⟨v', hv', .refl _⟩
    · intro p hp
      obtain hp | hp := List.mem_append.mp hp
      · exact Or.inl hp
      · rw [List.mem_singleton.mp hp]
        exact Or.inr ⟨seq, _, hget, rfl, rfl, rfl⟩

theorem fastRetransmit_retains (c : UTPConnection) (now : UInt32) :
    Retains (fun _ => False) c (c.fastRetransmit now) := by
  rw [fastRetransmit]
  split
  · exact .of_eq rfl rfl
  · next oldest_seq _ =>
    have hmark : Retains (fun _ => False) c
        { c with retransmitted_packets := c.retransmitted_packets.insert oldest_seq } :=
      .of_eq rfl rfl
    have hsend := hmark.trans (resend_retains _ oldest_seq now)
    have hreset : ∀ c₁ : UTPConnection,
        Retains (fun _ => False) c₁ { c₁ with duplicate_acks := 0 } := fun _ => .of_eq rfl rfl
    exact (hsend.trans (hreset _)).mono (by simp)

theorem countDuplicate_retains (c : UTPConnection) (ack_nr : UInt16) (now : UInt32) :
    Retains (fun _ => False) c (c.countDuplicate ack_nr now) := by
  have hcount : Retains (fun _ => False) c { c with duplicate_acks := c.duplicate_acks + 1 } :=
    .of_eq rfl rfl
  rw [countDuplicate]
  split
  · simp only
    split
    · exact (hcount.trans (fastRetransmit_retains _ now)).mono (by simp)
    · exact hcount
  · exact .of_eq rfl rfl

/-- Taking numbers out of the send buffer. -/
theorem retains_of_erase {Gone : UInt16 → Prop} (ht : c'.transport = c.transport)
    (hb : ∀ seq, c'.send_buffer.get? seq = c.send_buffer.get? seq ∨
      (Gone seq ∧ c'.send_buffer.get? seq = none)) : Retains Gone c c' where
  keeps seq v hv hg := ⟨v, ((hb seq).resolve_right (fun h => hg h.1)).trans hv⟩
  entries seq v' hv' := by
    obtain h | ⟨_, h⟩ := hb seq
    · exact ⟨v', h.symm.trans hv', .refl _⟩
    · rw [h] at hv'
      exact absurd hv' (by simp)
  emits p hp := Or.inl (ht ▸ hp)

theorem removeAcked_retains (c : UTPConnection) (acked_seq : UInt16) :
    Retains (· ≤ acked_seq) c (c.removeAcked acked_seq) := by
  have ht : (c.removeAcked acked_seq).transport = c.transport := rfl
  apply retains_of_erase ht
  intro seq
  rw [removeAcked, Dict.get?_foldl_erase]
  split
  · next h =>
    have hacked := (List.mem_filter.mp h).2
    exact Or.inr ⟨(isSequenceAcked_iff seq acked_seq).mp hacked, rfl⟩
  · exact Or.inl rfl

theorem mem_blockRange {b : SACKBlock} {seq : UInt16} (h : seq ∈ blockRange b) :
    b.start_seq ≤ seq ∧ seq < b.end_seq := by
  obtain ⟨n, hn, rfl⟩ := List.mem_map.mp h
  have hlt := b.start_lt_end
  have hend := b.end_seq.toNat_lt
  rw [List.mem_range'_1] at hn
  simp only [UInt16.lt_iff_toNat_lt, UInt16.le_iff_toNat_le, UInt16.toNat_ofNat'] at hlt ⊢
  omega

private theorem get?_foldl_blockRange (blocks : List SACKBlock)
    (buffer : Dict UInt16 (OutgoingPacket × Nat)) (seq : UInt16) :
    let buffer' := blocks.foldl (fun buffer b => (blockRange b).foldl Dict.erase buffer) buffer
    buffer'.get? seq = buffer.get? seq ∨
      ((∃ b ∈ blocks, b.start_seq ≤ seq ∧ seq < b.end_seq) ∧ buffer'.get? seq = none) := by
  induction blocks generalizing buffer with
  | nil => exact Or.inl rfl
  | cons b blocks ih =>
    obtain h | ⟨⟨b', hb', hseq⟩, h⟩ := ih ((blockRange b).foldl Dict.erase buffer)
    · simp only [List.foldl_cons] at h ⊢
      rw [h, Dict.get?_foldl_erase]
      split
      · next hmem => exact Or.inr ⟨⟨b, List.mem_cons_self, mem_blockRange hmem⟩, rfl⟩
      · exact Or.inl rfl
    · exact Or.inr ⟨⟨b', List.mem_cons_of_mem _ hb', hseq⟩, h⟩

theorem processSackBlocks_retains (c : UTPConnection) (blocks : List SACKBlock) :
    Retains (fun seq => ∃ b ∈ blocks, b.start_seq ≤ seq ∧ seq < b.end_seq) c
      (c.processSackBlocks blocks) := by
  have ht : (c.processSackBlocks blocks).transport = c.transport := rfl
  apply retains_of_erase ht
  intro seq
  exact get?_foldl_blockRange blocks c.send_buffer seq

theorem processStateExtensions_retains (c : UTPConnection) (exts : List UTPExtension) :
    Retains (fun seq => ∃ b ∈ exts.flatMap (fun | .sack blocks _ => blocks | _ => []),
      b.start_seq ≤ seq ∧ seq < b.end_seq) c (c.processStateExtensions exts) := by
  induction exts generalizing c with
  | nil => exact .of_eq rfl rfl
  | cons ext exts ih =>
    cases ext with
    | sack blocks _ =>
      refine ((c.processSackBlocks_retains blocks).trans (ih _)).mono ?_
      rintro seq (⟨b, hb, h⟩ | ⟨b, hb, h⟩)
      · exact ⟨b, List.mem_append_left _ hb, h⟩
      · exact ⟨b, List.mem_append_right _ hb, h⟩
    | windowScaling k => exact ih c
    | ecn echo cwr => exact ih c

/-- The numbers that leave the send buffer are those at or below the acknowledged one and
those that the SACK blocks name. -/
theorem handleStatePacket_retains {packet : UTPPacket}
    (h : ¬(c.state = .SYN_RECEIVED ∧ packet.ack_nr = 0)) (now : UInt32) :
    Retains (fun seq => packet.Sacks seq ∨ seq ≤ packet.ack_nr) c
      (c.handleStatePacket packet now) := by
  rw [handleStatePacket, if_neg h]
  have hexts := c.processStateExtensions_retains packet.extensions
  have hwindow : Retains (fun _ => False) (c.processStateExtensions packet.extensions)
      ((c.processStateExtensions packet.extensions).updateSendWindow packet) := .of_eq rfl rfl
  have hcount := countDuplicate_retains
    ((c.processStateExtensions packet.extensions).updateSendWindow packet) packet.ack_nr now
  refine (((hexts.trans hwindow).trans hcount).trans (removeAcked_retains _ packet.ack_nr)).mono ?_
  rintro seq (((hs | hf) | hf) | ha)
  · exact Or.inl hs
  · exact hf.elim
  · exact hf.elim
  · exact Or.inr ha

/-! ### What an acknowledgment names -/

/-- Every number from the start of an open block to its end, which is `0` when it has wrapped
around, is in the set. -/
def Covers (S : UInt16 → Prop) (block_start block_end : UInt16) : Prop :=
  ∀ seq, block_start ≤ seq → seq < block_end ∨ block_end = 0 → S seq

theorem covers_extend {S : UInt16 → Prop} {block_start seq : UInt16}
    (h : Covers S block_start seq) (hseq : S seq) : Covers S block_start (seq + 1) := by
  intro x hx hlt
  by_cases he : x = seq
  · exact he ▸ hseq
  · apply h x hx
    have hne : x.toNat ≠ seq.toNat := fun hn => he (UInt16.toNat_inj.mp hn)
    have := seq.toNat_lt
    have := x.toNat_lt
    simp only [UInt16.lt_iff_toNat_lt, ← UInt16.toNat_inj, UInt16.toNat_add,
      UInt16.reduceToNat] at hlt ⊢
    omega

theorem covers_single {S : UInt16 → Prop} {seq : UInt16} (hseq : S seq) :
    Covers S seq (seq + 1) := by
  intro x hx hlt
  have he : x = seq := by
    have := seq.toNat_lt
    have := x.toNat_lt
    simp only [UInt16.le_iff_toNat_le, UInt16.lt_iff_toNat_lt, ← UInt16.toNat_inj,
      UInt16.toNat_add, UInt16.reduceToNat] at hx hlt ⊢
    omega
  exact he ▸ hseq

theorem closeBlock_sound {S : UInt16 → Prop} {block_start block_end : UInt16}
    (h : Covers S block_start block_end) {b : SACKBlock}
    (hb : b ∈ closeBlock block_start block_end) {seq : UInt16} (hs : b.start_seq ≤ seq)
    (he : seq < b.end_seq) : S seq := by
  have hnew : ∀ {x y : UInt16}, b ∈ (SACKBlock.new x y).toList →
      b.start_seq = x ∧ b.end_seq = y := by
    intro x y hb
    rw [SACKBlock.new] at hb
    split at hb
    · obtain rfl := Option.some.inj (Option.mem_toList.mp hb)
      exact ⟨rfl, rfl⟩
    · simp at hb
  rw [closeBlock] at hb
  split at hb
  · simp at hb
  · split at hb
    · next hzero =>
      split at hb
      · obtain ⟨hx, _⟩ := hnew hb
        exact h seq (hx ▸ hs) (Or.inr hzero)
      · simp at hb
    · obtain ⟨hx, hy⟩ := hnew hb
      exact h seq (hx ▸ hs) (Or.inl (hy ▸ he))

theorem sackLoop_sound {S : UInt16 → Prop} {seqs : List UInt16} (hseqs : ∀ seq ∈ seqs, S seq)
    {block_start block_end : UInt16} (h : Covers S block_start block_end) {b : SACKBlock}
    (hb : b ∈ sackLoop block_start block_end seqs) {seq : UInt16} (hs : b.start_seq ≤ seq)
    (he : seq < b.end_seq) : S seq := by
  induction seqs generalizing block_start block_end with
  | nil => exact closeBlock_sound h hb hs he
  | cons next seqs ih =>
    have hnext : S next := hseqs next List.mem_cons_self
    have hrest : ∀ seq ∈ seqs, S seq := fun seq hm => hseqs seq (List.mem_cons_of_mem _ hm)
    rw [sackLoop] at hb
    split at hb
    · next hcontig => exact ih hrest (covers_extend (hcontig ▸ h) hnext) hb
    · obtain hb | hb := List.mem_append.mp hb
      · exact closeBlock_sound h hb hs he
      · exact ih hrest (covers_single hnext) hb

/-- The blocks of an acknowledgment name received numbers only. -/
theorem generateSackBlocks_sound (c : UTPConnection) {b : SACKBlock}
    (hb : b ∈ c.generateSackBlocks) {seq : UInt16} (hs : b.start_seq ≤ seq)
    (he : seq < b.end_seq) : seq ∈ c.received_seqs := by
  have hmem : ∀ x ∈ sortOn UInt16.toNat c.received_seqs, x ∈ c.received_seqs :=
    fun x hx => (sortOn_perm UInt16.toNat c.received_seqs).mem_iff.mp hx
  rw [generateSackBlocks] at hb
  split at hb
  · simp at hb
  · next first seqs hsort =>
    rw [hsort] at hmem
    exact sackLoop_sound (fun x hx => hmem x (List.mem_cons_of_mem _ hx))
      (covers_single (hmem first List.mem_cons_self)) (List.mem_of_mem_take hb) hs he

theorem ackPacket_sacks (c : UTPConnection) {seq : UInt16}
    (h : c.ackPacket.toUTPPacket.Sacks seq) : seq ∈ c.received_seqs := by
  obtain ⟨b, hb, hs, he⟩ := h
  have hgen : b ∈ c.generateSackBlocks := by
    simp only [sackBlocks, ackPacket, ackExtensions, List.flatMap_append, List.mem_append] at hb
    obtain hb | hb := hb
    · split at hb
      · split at hb
        · rw [List.flatMap_singleton] at hb
          exact List.mem_of_mem_take hb
        · simp at hb
      · simp at hb
    · split at hb <;> simp at hb
  exact c.generateSackBlocks_sound hgen hs he

/-- A packet whose SACK blocks name numbers that the connection has received. -/
def NamesReceived (c : UTPConnection) (p : OutgoingPacket) : Prop :=
  ∀ seq, p.toUTPPacket.Sacks seq → seq ∈ c.received_seqs

/-- The acknowledgment of a data packet is sent, or it is all that is queued. -/
theorem sendAck_spec (c : UTPConnection) (packet : UTPPacket) (now : UInt32) :
    (∀ p ∈ (c.sendAck packet now).transport, p ∈ c.transport ∨ c.NamesReceived p) ∧
      ∀ p ∈ (c.sendAck packet now).pending_acks, c.NamesReceived p := by
  obtain ⟨n, hc⟩ := c.shouldSendImmediateAck_step packet
  obtain ⟨echo, cwr, he⟩ := ({ c with ack_packet_count := n } : UTPConnection).resetEcnFlags_step
  have hack : c.NamesReceived (({ c with ack_packet_count := n } : UTPConnection).ackPacket) :=
    fun _ h => ackPacket_sacks _ h
  simp only [sendAck, hc, he]
  split
  · refine ⟨?_, by simp⟩
    intro p hp
    obtain hp | hp := List.mem_append.mp hp
    · exact Or.inl hp
    · rw [List.mem_singleton.mp hp]
      exact Or.inr hack
  · refine ⟨fun p hp => Or.inl hp, ?_⟩
    intro p hp
    rw [List.mem_singleton.mp hp]
    exact hack

theorem sendBatchedAcks_spec (c : UTPConnection) (now : UInt32) :
    (∀ p ∈ (c.sendBatchedAcks now).transport,
      p ∈ c.transport ∨ ∃ q ∈ c.pending_acks, p = q.setTimestamp now) ∧
      ∀ p ∈ (c.sendBatchedAcks now).pending_acks, p ∈ c.pending_acks := by
  rw [sendBatchedAcks]
  split
  · exact ⟨fun p hp => Or.inl hp, fun p hp => hp⟩
  · next latest_ack hlast =>
    refine ⟨?_, by simp⟩
    intro p hp
    obtain hp | hp := List.mem_append.mp hp
    · exact Or.inl hp
    · exact Or.inr ⟨latest_ack, List.mem_of_getLast? hlast, List.mem_singleton.mp hp⟩

end UTPConnection

end Utp

end Ccbt
