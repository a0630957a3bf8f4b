import Ccbt.Transport.Utp.Acknowledgment

/-!
# How a uTP connection receives data

Where the payload of a data packet goes: into the received data, followed by the
payloads of the buffered packets that are next in turn, or into the reorder buffer.
-/

namespace Ccbt

open Python

namespace Utp

namespace UTPConnection

/-- The numbers that the loop of `_process_out_of_order_packets` takes out of the reorder
buffer, in order. -/
def drained : Nat → Dict UInt16 UTPPacket → UInt16 → List UInt16
  | 0, _, _ => []
  | n + 1, buffer, expected =>
    match buffer.get? expected with
    | none => []
    | some _ => expected :: drained n (buffer.erase expected) (expected + 1)

/-- The payload under a number of the reorder buffer. -/
def payloadAt (buffer : Dict UInt16 UTPPacket) (seq : UInt16) : Bytes :=
  match buffer.get? seq with
  | none => []
  | some packet => packet.data

theorem mem_drained {n : Nat} {buffer : Dict UInt16 UTPPacket} {expected seq : UInt16}
    (h : seq ∈ drained n buffer expected) : ∃ packet, buffer.get? seq = some packet := by
  induction n generalizing buffer expected with
  | zero => simp [drained] at h
  | succ n ih =>
    rw [drained] at h
    split at h
    · simp at h
    · next packet hget =>
      obtain rfl | h := List.mem_cons.mp h
      · exact ⟨packet, hget⟩
      · obtain ⟨p, hp⟩ := ih h
        rw [Dict.get?_erase] at hp
        split at hp
        · exact absurd hp (by simp)
        · exact ⟨p, hp⟩

theorem drain_recv_buffer (n : Nat) (c : UTPConnection) (seq : UInt16) :
    (drain n c).recv_buffer.get? seq =
      if seq ∈ drained n c.recv_buffer c.recv_buffer_expected_seq then none
      else c.recv_buffer.get? seq := by
  induction n generalizing c with
  | zero => simp [drain, drained]
  | succ n ih =>
    cases hget : c.recv_buffer.get? c.recv_buffer_expected_seq with
    | none => simp [drain, drained, hget]
    | some packet =>
      simp only [drain, drained, hget, ih, Dict.get?_erase, List.mem_cons]
      by_cases he : seq = c.recv_buffer_expected_seq
      · simp [he]
      · simp [he]

theorem drain_recv_data_buffer (n : Nat) (c : UTPConnection) :
    (drain n c).recv_data_buffer = c.recv_data_buffer ++
      (drained n c.recv_buffer c.recv_buffer_expected_seq).flatMap (payloadAt c.recv_buffer) := by
  induction n generalizing c with
  | zero => simp [drain, drained]
  | succ n ih =>
    cases hget : c.recv_buffer.get? c.recv_buffer_expected_seq with
    | none => simp [drain, drained, hget]
    | some packet =>
      simp only [drain, drained, hget, ih, List.flatMap_cons, List.append_assoc]
      have hpayload : payloadAt c.recv_buffer c.recv_buffer_expected_seq = packet.data := by
        simp only [payloadAt, hget]
      rw [hpayload]
      congr 2
      -- what is drained later is not under the number drained now
      apply List.flatMap_congr
      intro seq hseq
      obtain ⟨p, hp⟩ := mem_drained hseq
      rw [Dict.get?_erase] at hp
      split at hp
      · exact absurd hp (by simp)
      · next hne => simp only [payloadAt, Dict.get?_erase, if_neg hne]

/-- The loop stops at a number that the buffer does not hold: its fuel is enough. -/
theorem drain_done {n : Nat} {c : UTPConnection} (h : c.recv_buffer.size ≤ n) :
    (drain n c).recv_buffer.get? (drain n c).recv_buffer_expected_seq = none := by
  induction n generalizing c with
  | zero =>
    have he : c.recv_buffer.entries = [] := List.length_eq_zero_iff.mp (Nat.le_zero.mp h)
    rw [drain, Dict.get?, he]
    rfl
  | succ n ih =>
    rw [drain]
    split
    · assumption
    · next packet hget =>
      have := c.recv_buffer.size_erase_lt hget
      exact ih (Nat.le_of_lt_succ (this.trans_le h))

theorem processOutOfOrderPackets_done (c : UTPConnection) :
    c.processOutOfOrderPackets.recv_buffer.get?
      c.processOutOfOrderPackets.recv_buffer_expected_seq = none :=
  drain_done le_rfl

/-- Only the reorder buffer, the received data and the expected number differ. -/
theorem drain_frame (n : Nat) (c : UTPConnection) :
    ∃ recv_buffer recv_data_buffer recv_buffer_expected_seq,
      drain n c = { c with recv_buffer, recv_data_buffer, recv_buffer_expected_seq } := by
  induction n generalizing c with
  | zero => exact ⟨_, _, _, rfl⟩
  | succ n ih =>
    rw [drain]
    split
    · exact ⟨_, _, _, rfl⟩
    · next packet _ =>
      obtain ⟨_, _, _, he⟩ := ih { c with
        recv_buffer := c.recv_buffer.erase c.recv_buffer_expected_seq
        recv_data_buffer := c.recv_data_buffer ++ packet.data
        recv_buffer_expected_seq := c.recv_buffer_expected_seq + 1 }
      rw [he]
      exact ⟨_, _, _, rfl⟩

/-- The numbers that leave the reorder buffer when a data packet is handled. -/
def released (c : UTPConnection) (packet : UTPPacket) : List UInt16 :=
  if packet.seq_nr = c.recv_buffer_expected_seq then
    drained c.recv_buffer.size c.recv_buffer (c.recv_buffer_expected_seq + 1)
  else []

variable (c : UTPConnection) (packet : UTPPacket) (now : UInt32)

theorem storeData_frame : ∃ recv_buffer recv_data_buffer recv_buffer_expected_seq,
    c.storeData packet = { c with recv_buffer, recv_data_buffer, recv_buffer_expected_seq } := by
  rw [storeData]
  split
  · rw [processOutOfOrderPackets]
    obtain ⟨_, _, _, he⟩ := drain_frame c.recv_buffer.size { c with
      recv_data_buffer := c.recv_data_buffer ++ packet.data
      recv_buffer_expected_seq := c.recv_buffer_expected_seq + 1 }
    rw [he]
    exact ⟨_, _, _, rfl⟩
  · exact ⟨_, _, _, rfl⟩

theorem storeData_recv_buffer (seq : UInt16) :
    (c.storeData packet).recv_buffer.get? seq =
      if packet.seq_nr = c.recv_buffer_expected_seq then
        if seq ∈ c.released packet then none else c.recv_buffer.get? seq
      else (c.recv_buffer.set packet.seq_nr packet).get? seq := by
  rw [storeData, released]
  split
  · exact drain_recv_buffer _ _ _
  · rfl

theorem storeData_recv_data_buffer :
    (c.storeData packet).recv_data_buffer = c.recv_data_buffer ++
      ((if packet.seq_nr = c.recv_buffer_expected_seq then packet.data else []) ++
        (c.released packet).flatMap (payloadAt c.recv_buffer)) := by
  rw [storeData, released]
  split
  · rw [← List.append_assoc]
    exact drain_recv_data_buffer _ _
  · simp

/-- A data packet in its turn takes the packets that are next out of the reorder buffer;
another one is put into it. -/
theorem handleDataPacket_recv_buffer (seq : UInt16) :
    (c.handleDataPacket packet now).recv_buffer.get? seq =
      if packet.seq_nr = c.recv_buffer_expected_seq then
        if seq ∈ c.released packet then none else c.recv_buffer.get? seq
      else (c.recv_buffer.set packet.seq_nr packet).get? seq := by
  rw [handleDataPacket, (sendAck_step _ packet now).recv_buffer]
  exact (c.noteReceived packet.seq_nr).storeData_recv_buffer packet seq

theorem handleDataPacket_recv_data_buffer :
    (c.handleDataPacket packet now).recv_data_buffer = c.recv_data_buffer ++
      ((if packet.seq_nr = c.recv_buffer_expected_seq then packet.data else []) ++
        (c.released packet).flatMap (payloadAt c.recv_buffer)) := by
  rw [handleDataPacket, (sendAck_step _ packet now).recv_data_buffer]
  exact (c.noteReceived packet.seq_nr).storeData_recv_data_buffer packet

theorem handleDataPacket_received_seqs {seq : UInt16}
    (h : seq ∈ (c.handleDataPacket packet now).received_seqs) :
    seq = packet.seq_nr ∨ seq ∈ c.received_seqs := by
  obtain ⟨_, _, _, hs⟩ := (c.noteReceived packet.seq_nr).storeData_frame packet
  rw [handleDataPacket, (sendAck_step _ packet now).received_seqs, hs] at h
  simp only [noteReceived] at h
  split at h
  · exact List.mem_insert_iff.mp h
  · exact Or.inr h

/-- The acknowledgments that handling a data packet sends or queues. -/
theorem handleDataPacket_acks :
    let c' := c.handleDataPacket packet now
    (∀ p ∈ c'.transport, p ∈ c.transport ∨ c'.NamesReceived p) ∧
      ∀ p ∈ c'.pending_acks, c'.NamesReceived p := by
  obtain ⟨_, _, _, hs⟩ := (c.noteReceived packet.seq_nr).storeData_frame packet
  have htransport : ((c.noteReceived packet.seq_nr).storeData packet).transport =
      c.transport := by
    rw [hs]
    rfl
  have hspec := sendAck_spec ((c.noteReceived packet.seq_nr).storeData packet) packet now
  rw [htransport] at hspec
  simp only [handleDataPacket, NamesReceived, (sendAck_step _ packet now).received_seqs]
  exact hspec

/-- What `receive` returns comes off the front of the received data. -/
theorem receive_spec {c c' : UTPConnection} {max_bytes : Int} {bytes : Bytes}
    (h : c.receive max_bytes = some (bytes, c')) :
    ∃ recv_data_buffer, c' = { c with recv_data_buffer } ∧
      c.recv_data_buffer = bytes ++ recv_data_buffer := by
  rw [receive] at h
  split at h
  · split at h
    · exact absurd h (by simp)
    · obtain ⟨rfl, rfl⟩ := Prod.mk.inj (Option.some.inj h)
      exact ⟨[], rfl, (List.append_nil _).symm⟩
  · split at h
    · exact absurd h (by simp)
    · obtain ⟨rfl, rfl⟩ := Prod.mk.inj (Option.some.inj h)
      exact ⟨_, rfl, (List.take_append_drop _ _).symm⟩

end UTPConnection

end Utp

end Ccbt
