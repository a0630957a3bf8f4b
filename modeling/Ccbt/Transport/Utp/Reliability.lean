import Mathlib.Logic.Function.Basic
import Ccbt.Transport.Utp.Delivery
import Ccbt.Transport.Utp.Stream

/-!
# Acknowledgment and loss

A sender and a receiver over channels that lose, repeat and reorder packets. A data
packet is identified by its position among the packets that `send` has sent, so that
packets under the same 16-bit number are told apart; what the identities are used for
is bookkeeping beside the two connections and does not influence them.

The receiver acknowledges the highest number that it has seen and not the last
contiguous one, so the sender forgets packets that were lost. It does not while the
steps of a run are `Safe`.
-/

namespace Ccbt

open Python Transition

namespace Utp

open UTPConnection UTPPacket

structure Session where
  sender : UTPConnection
  receiver : UTPConnection
  /-- The data packets that `send` has sent. A packet is known by its position here. -/
  sent : List OutgoingPacket := []
  /-- The last packet that was sent under a number. -/
  owner : UInt16 → Nat := fun _ => 0
  /-- The data packets on the channel, each with the sent packet that it is a copy of. -/
  data : List (Nat × OutgoingPacket) := []
  /-- The acknowledgments on the channel, each with the packet that moved `ack_nr` to its
  value. -/
  acks : List (Option Nat × OutgoingPacket) := []
  /-- The packets that acknowledgments have taken out of the send buffer. -/
  acknowledged : List Nat := []
  /-- The packets whose payload has become received data, in order. -/
  delivered : List Nat := []
  /-- The packet in the reorder buffer under a number. -/
  held : UInt16 → Nat := fun _ => 0
  ackOwner : Option Nat := none
  /-- The packet that moved `ack_nr` to the value in the queued acknowledgment. -/
  pendingOwner : Option Nat := none
  /-- The data that the program has taken from the receiver. -/
  consumed : Bytes := []

namespace Session

def start (s r : UTPConnection) : Session := { sender := s.flushed, receiver := r.flushed }

/-- The payload of a packet is in the received data, has been consumed from it, or waits in the
reorder buffer. -/
def Received (t : Session) (i : Nat) : Prop :=
  i ∈ t.delivered ∨ ∃ seq ∈ t.receiver.recv_buffer.keys, t.held seq = i

instance (t : Session) (i : Nat) : Decidable (t.Received i) :=
  @instDecidableOr _ _ _ (List.decidableBEx _ _)

inductive Event
  /-- The loop of `send` makes a round on the data that is left. -/
  | send (data : Bytes) (now : UInt32)
  /-- The receiver handles a data packet on the channel, any one and any number of times. -/
  | data (k : Nat) (now : UInt32)
  /-- The sender handles an acknowledgment on the channel. -/
  | ack (k : Nat) (now : UInt32)
  /-- The receiver sends a delayed acknowledgment. -/
  | ackTimer (now : UInt32)
  /-- The program takes data from the receiver. -/
  | receive (max_bytes : Int)

def sendStep (t : Session) (data : Bytes) (now : UInt32) : Session :=
  if t.sender.state = .CONNECTED ∧ data ≠ [] then
    let sender := (t.sender.flushed.sendRound data now).1
    match sender.transport with
    | [] => { t with sender }
    | p :: _ =>
      { t with
        sender
        sent := t.sent ++ [p]
        owner := Function.update t.owner p.seq_nr t.sent.length
        data := t.data ++ [(t.sent.length, p)] }
  else t

def dataStep (t : Session) (i : Nat) (p : OutgoingPacket) (now : UInt32) : Session :=
  let receiver := t.receiver.flushed.handleDataPacket p.toUTPPacket now
  let ackOwner := if movesAck t.receiver.ack_nr p.seq_nr then some i else t.ackOwner
  let inTurn := p.seq_nr = t.receiver.recv_buffer_expected_seq
  { t with
    receiver
    ackOwner
    pendingOwner := ackOwner
    held := if inTurn then t.held else Function.update t.held p.seq_nr i
    delivered := t.delivered ++
      (if inTurn then i :: (t.receiver.released p.toUTPPacket).map t.held else [])
    acks := t.acks ++ receiver.transport.map (fun ack => (ackOwner, ack)) }

def ackStep (t : Session) (p : OutgoingPacket) (now : UInt32) : Session :=
  let sender := t.sender.flushed.handleStatePacket p.toUTPPacket now
  let gone := t.sender.send_buffer.keys.filter (fun seq => !sender.send_buffer.contains seq)
  { t with
    sender
    data := t.data ++ sender.transport.map (fun p => (t.owner p.seq_nr, p))
    acknowledged := t.acknowledged ++ gone.map t.owner }

def timerStep (t : Session) (now : UInt32) : Session :=
  let receiver := t.receiver.flushed.sendBatchedAcks now
  { t with
    receiver
    acks := t.acks ++ receiver.transport.map (fun ack => (t.pendingOwner, ack)) }

def step (t : Session) : Event → Session
  | .send data now => t.sendStep data now
  | .data k now =>
    match t.data[k]? with
    | none => t
    | some (i, p) => t.dataStep i p now
  | .ack k now =>
    match t.acks[k]? with
    | none => t
    | some (_, p) => t.ackStep p now
  | .ackTimer now => t.timerStep now
  | .receive max_bytes =>
    match t.receiver.receive max_bytes with
    | none => t
    | some (bytes, receiver) => { t with receiver, consumed := t.consumed ++ bytes }

/-- No packet that has left the send buffer because of an acknowledgment is missing at the
receiver. -/
def NeverForgets (t : Session) : Prop := ∀ i ∈ t.acknowledged, t.Received i

instance (t : Session) : Decidable t.NeverForgets :=
  inferInstanceAs (Decidable (∀ i ∈ t.acknowledged, t.Received i))

/-- Handling a data packet is safe when `ack_nr` moves only over packets that have arrived, and
when no other packet is put aside under the same number. -/
def SafeData (t : Session) (i : Nat) (p : OutgoingPacket) : Prop :=
  (movesAck t.receiver.ack_nr p.seq_nr → ∀ j < i, t.Received j) ∧
  (p.seq_nr ≠ t.receiver.recv_buffer_expected_seq → p.seq_nr ∈ t.receiver.recv_buffer.keys →
    t.held p.seq_nr = i)

/-- Handling an acknowledgment is safe when, for the packets in the send buffer, being at or
below the acknowledged number means that they were sent no later, and when a number in a SACK
block has not been used before. -/
def SafeAck (t : Session) (a : Option Nat) (p : OutgoingPacket) : Prop :=
  ∀ seq ∈ t.sender.send_buffer.keys,
    (isSequenceAcked seq p.ack_nr → ∃ m ∈ a, t.owner seq ≤ m) ∧
    (p.toUTPPacket.Sacks seq → t.owner seq < 0x10000)

def Safe (t : Session) : Event → Prop
  | .data k _ => ∀ x ∈ t.data[k]?, t.SafeData x.1 x.2
  | .ack k _ => ∀ x ∈ t.acks[k]?, t.SafeAck x.1 x.2
  | _ => True

/-! ### What the bookkeeping stands for -/

def payload (t : Session) (i : Nat) : Bytes :=
  match t.sent[i]? with
  | none => []
  | some p => p.data

/-- A packet with the number and the payload of a sent one. -/
def IsCopy (t : Session) (i : Nat) (p : UTPPacket) : Prop :=
  ∃ q, t.sent[i]? = some q ∧ SameContent p q.toUTPPacket

/-- Every packet up to the one that an acknowledgment stands for has been received. -/
def Grounded (t : Session) (a : Option Nat) : Prop := ∀ m, a = some m → ∀ j ≤ m, t.Received j

/-- A packet under the number has been received. -/
def Seen (t : Session) (seq : UInt16) : Prop :=
  ∃ j q, t.sent[j]? = some q ∧ q.seq_nr = seq ∧ t.Received j

/-- The SACK blocks of a packet name numbers under which a packet has been received. -/
def NamesSeen (t : Session) (p : OutgoingPacket) : Prop :=
  ∀ seq, p.toUTPPacket.Sacks seq → t.Seen seq

/-- The sender's half of the invariant. -/
structure SenderInv (t : Session) : Prop where
  connected : t.sender.state = .CONNECTED
  /-- The numbers are handed out in turn, from 2 on. -/
  numbers : ∀ i p, t.sent[i]? = some p → p.seq_nr = 2 + UInt16.ofNat i
  next : t.sender.seq_nr = 1 + UInt16.ofNat t.sent.length
  latest : ∀ i p, t.sent[i]? = some p → i ≤ t.owner p.seq_nr
  buffered : ∀ seq v, t.sender.send_buffer.get? seq = some v →
    t.IsCopy (t.owner seq) v.1.toUTPPacket ∧ v.1.seq_nr = seq
  channel : ∀ x ∈ t.data, t.IsCopy x.1 x.2.toUTPPacket

/-- The receiver's half of the invariant. -/
structure ReceiverInv (t : Session) : Prop where
  holding : ∀ seq p, t.receiver.recv_buffer.get? seq = some p →
    t.IsCopy (t.held seq) p ∧ p.seq_nr = seq
  delivered : ∀ i ∈ t.delivered, ∃ q, t.sent[i]? = some q
  received : t.consumed ++ t.receiver.recv_data_buffer = t.delivered.flatMap t.payload
  seen : ∀ seq ∈ t.receiver.received_seqs, t.Seen seq
  cumulative : t.Grounded t.ackOwner
  pendingCumulative : t.Grounded t.pendingOwner
  pending : ∀ p ∈ t.receiver.pending_acks, t.NamesSeen p
  channel : ∀ x ∈ t.acks, t.Grounded x.1 ∧ t.NamesSeen x.2
  acknowledged : t.NeverForgets

/-- Later states have sent and received what earlier ones have. -/
structure Extends (t t' : Session) : Prop where
  sent : ∀ {i : Nat} {q : OutgoingPacket}, t.sent[i]? = some q → t'.sent[i]? = some q
  received : ∀ {i : Nat}, t.Received i → t'.Received i

section Monotone

variable {t t' : Session} (h : Extends t t')

include h

theorem IsCopy.mono {i : Nat} {p : UTPPacket} (hp : t.IsCopy i p) : t'.IsCopy i p := by
  obtain ⟨q, hq, hs⟩ := hp
  exact ⟨q, h.sent hq, hs⟩

theorem Grounded.mono {a : Option Nat} (ha : t.Grounded a) : t'.Grounded a :=
  fun m hm j hj => h.received (ha m hm j hj)

theorem Seen.mono {seq : UInt16} (hs : t.Seen seq) : t'.Seen seq := by
  obtain ⟨j, q, hq, hn, hr⟩ := hs
  exact ⟨j, q, h.sent hq, hn, h.received hr⟩

theorem NamesSeen.mono {p : OutgoingPacket} (hp : t.NamesSeen p) : t'.NamesSeen p :=
  fun seq hs => (hp seq hs).mono h

end Monotone

/-! ### Sending -/

theorem sendStep_cases (t : Session) (data : Bytes) (now : UInt32) :
    t.sendStep data now = t ∨
      (∃ sender, sender.state = t.sender.state ∧ sender.seq_nr = t.sender.seq_nr ∧
        sender.send_buffer = t.sender.send_buffer ∧ t.sendStep data now = { t with sender }) ∨
      (∃ sender p n, sender.state = t.sender.state ∧ p.seq_nr = t.sender.seq_nr + 1 ∧
        sender.seq_nr = p.seq_nr ∧
        sender.send_buffer = t.sender.send_buffer.set p.seq_nr (p, n) ∧
        t.sendStep data now =
          { t with
            sender
            sent := t.sent ++ [p]
            owner := Function.update t.owner p.seq_nr t.sent.length
            data := t.data ++ [(t.sent.length, p)] }) := by
  rw [sendStep]
  split
  · rw [sendRound]
    split
    · let c := { t.sender.flushed with seq_nr := t.sender.seq_nr + 1 }
      let chunk := data.take t.sender.flushed.payloadSize
      exact Or.inr (Or.inr ⟨t.sender.flushed.sendChunk chunk now,
        (c.dataPacket chunk).setTimestamp now, 0, rfl, rfl, rfl, rfl, rfl⟩)
    · exact Or.inr (Or.inl ⟨t.sender.flushed, rfl, rfl, rfl, rfl⟩)
  · exact Or.inl rfl

theorem senderInv_sendStep {t : Session} (h : SenderInv t) (data : Bytes) (now : UInt32) :
    SenderInv (t.sendStep data now) := by
  obtain he | ⟨sender, hstate, hseq, hbuffer, he⟩ | ⟨sender, p, n, hstate, hp, hseq, hbuffer, he⟩ :=
    t.sendStep_cases data now
  · rw [he]
    exact h
  · rw [he]
    refine ⟨hstate.trans h.connected, h.numbers, hseq.trans h.next, h.latest, ?_, h.channel⟩
    rw [hbuffer]
    exact h.buffered
  · rw [he]
    have hget : ∀ i q, (t.sent ++ [p])[i]? = some q →
        t.sent[i]? = some q ∨ (i = t.sent.length ∧ q = p) := by
      intro i q hq
      rw [List.getElem?_append] at hq
      split at hq
      · exact Or.inl hq
      · next hlt =>
        obtain ⟨hi, hq⟩ := List.getElem?_eq_some_iff.mp hq
        simp only [List.length_singleton] at hi
        simp only [List.getElem_singleton] at hq
        exact Or.inr ⟨by omega, hq.symm⟩
    have hext : Extends t { t with
        sender
        sent := t.sent ++ [p]
        owner := Function.update t.owner p.seq_nr t.sent.length
        data := t.data ++ [(t.sent.length, p)] } :=
      ⟨fun hq => (List.getElem?_append_left (List.getElem?_eq_some_iff.mp hq).1).trans hq, id⟩
    have hself : ∃ q, (t.sent ++ [p])[t.sent.length]? = some q ∧
        SameContent p.toUTPPacket q.toUTPPacket :=
      ⟨p, List.getElem?_concat_length, .refl _⟩
    have hnumber : p.seq_nr = 2 + UInt16.ofNat t.sent.length := by
      rw [hp, h.next, UInt16.add_assoc, UInt16.add_comm (UInt16.ofNat _), ← UInt16.add_assoc]
      rfl
    refine ⟨hstate.trans h.connected, ?_, ?_, ?_, ?_, ?_⟩
    · intro i q hq
      obtain hq | ⟨rfl, rfl⟩ := hget i q hq
      · exact h.numbers i q hq
      · exact hnumber
    · rw [hseq, hnumber, List.length_append, List.length_singleton, UInt16.ofNat_add,
        UInt16.add_comm (UInt16.ofNat t.sent.length), ← UInt16.add_assoc]
      rfl
    · intro i q hq
      simp only [Function.update_apply]
      obtain hq | ⟨rfl, rfl⟩ := hget i q hq
      · have hlt := (List.getElem?_eq_some_iff.mp hq).1
        split
        · exact hlt.le
        · exact h.latest i q hq
      · rw [if_pos rfl]
    · intro seq v hv
      rw [hbuffer, Dict.get?_set] at hv
      simp only [Function.update_apply]
      split at hv
      · next hs =>
        rw [if_pos hs, ← Option.some.inj hv]
        exact ⟨hself, hs.symm⟩
      · next hs =>
        rw [if_neg hs]
        obtain ⟨hcopy, hnum⟩ := h.buffered seq v hv
        exact ⟨hcopy.mono hext, hnum⟩
    · intro x hx
      obtain hx | hx := List.mem_append.mp hx
      · exact (h.channel x hx).mono hext
      · rw [List.mem_singleton.mp hx]
        exact hself

/-! ### Handling an acknowledgment -/

theorem senderInv_ackStep {t : Session} (h : SenderInv t) (p : OutgoingPacket) (now : UInt32) :
    SenderInv (t.ackStep p now) := by
  have hnot : ¬(t.sender.flushed.state = .SYN_RECEIVED ∧ p.ack_nr = 0) := by
    rintro ⟨hs, _⟩
    exact absurd (h.connected.symm.trans hs) (by decide)
  have hframe := handleStatePacket_step hnot now
  have hretains := handleStatePacket_retains hnot now
  refine ⟨hframe.state.trans h.connected, h.numbers, hframe.seq_nr.trans h.next, h.latest, ?_, ?_⟩
  · intro seq v' hv'
    obtain ⟨v, hv, hsame⟩ := hretains.entries seq v' hv'
    obtain ⟨⟨q, hq, hcopy⟩, hnum⟩ := h.buffered seq v hv
    exact ⟨⟨q, hq, hsame.trans hcopy⟩, hsame.2.1.trans hnum⟩
  · intro x hx
    obtain hx | hx := List.mem_append.mp hx
    · exact h.channel x hx
    · obtain ⟨copy, hmem, rfl⟩ := List.mem_map.mp hx
      obtain ⟨seq, v, hv, hsame⟩ := (hretains.emits copy hmem).resolve_left (by simp [flushed])
      obtain ⟨⟨q, hq, hcopy⟩, hnum⟩ := h.buffered seq v hv
      refine ⟨q, ?_, hsame.trans hcopy⟩
      rw [← hq]
      exact congrArg (fun k => t.sent[t.owner k]?) (hsame.2.1.trans hnum)

/-- What a safe acknowledgment takes out of the send buffer has been received. -/
theorem received_of_gone {t : Session} (hs : SenderInv t) {a : Option Nat} {p : OutgoingPacket}
    (ha : t.Grounded a) (hp : t.NamesSeen p) (hsafe : t.SafeAck a p) {now : UInt32} {seq : UInt16}
    (hmem : seq ∈ t.sender.send_buffer.keys)
    (hgone : (t.sender.flushed.handleStatePacket p.toUTPPacket now).send_buffer.contains seq =
      false) : t.Received (t.owner seq) := by
  have hnot : ¬(t.sender.flushed.state = .SYN_RECEIVED ∧ p.ack_nr = 0) := by
    rintro ⟨hc, _⟩
    exact absurd (hs.connected.symm.trans hc) (by decide)
  obtain ⟨v, hv⟩ := (Dict.mem_keys_iff _).mp hmem
  have hcause : p.toUTPPacket.Sacks seq ∨ seq ≤ p.ack_nr := by
    by_contra hn
    obtain ⟨v', hv'⟩ := (handleStatePacket_retains hnot now).keeps seq v hv hn
    rw [Dict.contains, hv'] at hgone
    exact absurd hgone (by simp)
  obtain ⟨hcumulative, hselective⟩ := hsafe seq hmem
  obtain hsack | hle := hcause
  · -- the packet that was received under the number is the one in the send buffer
    obtain ⟨j, q, hq, hnum, hreceived⟩ := hp seq hsack
    obtain ⟨⟨q', hq', hcopy⟩, hnum'⟩ := hs.buffered seq v hv
    have hlt := hselective hsack
    have hle : j ≤ t.owner seq := hnum ▸ hs.latest j q hq
    have heq : UInt16.ofNat j = UInt16.ofNat (t.owner seq) := by
      have h1 := hs.numbers j q hq
      have h2 := hs.numbers _ q' hq'
      rw [hnum] at h1
      rw [← hcopy.2.1, hnum'] at h2
      exact (UInt16.add_right_inj 2).mp (h1.symm.trans h2)
    have hj : j = t.owner seq := by
      have := congrArg UInt16.toNat heq
      simp only [UInt16.toNat_ofNat'] at this
      omega
    exact hj ▸ hreceived
  · obtain ⟨m, hm, howner⟩ := hcumulative ((isSequenceAcked_iff seq p.ack_nr).mpr hle)
    exact ha m hm _ howner

theorem receiverInv_ackStep {t : Session} (hs : SenderInv t) (h : ReceiverInv t) {a : Option Nat}
    {p : OutgoingPacket} (hp : (a, p) ∈ t.acks) (hsafe : t.SafeAck a p) (now : UInt32) :
    ReceiverInv (t.ackStep p now) := by
  refine ⟨h.holding, h.delivered, h.received, h.seen, h.cumulative, h.pendingCumulative,
    h.pending, h.channel, ?_⟩
  intro i hi
  obtain hi | hi := List.mem_append.mp hi
  · exact h.acknowledged i hi
  · obtain ⟨seq, hseq, rfl⟩ := List.mem_map.mp hi
    obtain ⟨hmem, hgone⟩ := List.mem_filter.mp hseq
    obtain ⟨ha, hnames⟩ := h.channel _ hp
    exact received_of_gone hs ha hnames hsafe hmem (by simpa using hgone)

/-! ### Receiving -/

theorem payload_of_isCopy {t : Session} {i : Nat} {p : UTPPacket} (h : t.IsCopy i p) :
    t.payload i = p.data := by
  obtain ⟨q, hq, hs⟩ := h
  simp only [payload, hq, hs.2.2]

theorem payload_eq {t t' : Session} (h : Extends t t') {i : Nat} (hi : ∃ q, t.sent[i]? = some q) :
    t'.payload i = t.payload i := by
  obtain ⟨q, hq⟩ := hi
  simp only [payload, hq, h.sent hq]

theorem receiverInv_sendStep {t : Session} (h : ReceiverInv t) (data : Bytes) (now : UInt32) :
    ReceiverInv (t.sendStep data now) := by
  obtain he | ⟨sender, _, _, _, he⟩ | ⟨sender, p, n, _, _, _, _, he⟩ := t.sendStep_cases data now
  · rw [he]
    exact h
  · rw [he]
    exact ⟨h.holding, h.delivered, h.received, h.seen, h.cumulative, h.pendingCumulative,
      h.pending, h.channel, h.acknowledged⟩
  · have hext : Extends t (t.sendStep data now) := by
      rw [he]
      exact ⟨fun hq => (List.getElem?_append_left (List.getElem?_eq_some_iff.mp hq).1).trans hq, id⟩
    rw [he] at hext ⊢
    refine ⟨?_, ?_, ?_, ?_, h.cumulative.mono hext, h.pendingCumulative.mono hext, ?_, ?_, ?_⟩
    · intro seq q hq
      exact ⟨(h.holding seq q hq).1.mono hext, (h.holding seq q hq).2⟩
    · intro i hi
      obtain ⟨q, hq⟩ := h.delivered i hi
      exact ⟨q, hext.sent hq⟩
    · refine h.received.trans (List.flatMap_congr fun i hi => ?_)
      exact (payload_eq hext (h.delivered i hi)).symm
    · exact fun seq hseq => (h.seen seq hseq).mono hext
    · exact fun q hq => (h.pending q hq).mono hext
    · exact fun x hx => ⟨(h.channel x hx).1.mono hext, (h.channel x hx).2.mono hext⟩
    · exact fun i hi => hext.received (h.acknowledged i hi)

/-- Nothing that has been received is lost by a safe step, and the packet that is handled is
received. -/
theorem extends_dataStep {t : Session} {i : Nat} {p : OutgoingPacket} (hsafe : t.SafeData i p)
    (now : UInt32) : Extends t (t.dataStep i p now) ∧ (t.dataStep i p now).Received i := by
  have hbuffer := t.receiver.flushed.handleDataPacket_recv_buffer p.toUTPPacket now
  by_cases hturn : p.seq_nr = t.receiver.recv_buffer_expected_seq
  · have hturn' : p.seq_nr = t.receiver.flushed.recv_buffer_expected_seq := hturn
    simp only [if_pos hturn'] at hbuffer
    refine ⟨⟨fun hq => hq, ?_⟩, Or.inl ?_⟩
    · intro j hj
      simp only [Received, dataStep, if_pos hturn]
      obtain hj | ⟨seq, hseq, rfl⟩ := hj
      · exact Or.inl (List.mem_append_left _ hj)
      · by_cases hrel : seq ∈ t.receiver.released p.toUTPPacket
        · apply Or.inl
          apply List.mem_append_right
          exact List.mem_cons_of_mem _ (List.mem_map_of_mem hrel)
        · obtain ⟨q, hq⟩ := (Dict.mem_keys_iff _).mp hseq
          refine Or.inr ⟨seq, (Dict.mem_keys_iff _).mpr ⟨q, ?_⟩, rfl⟩
          rw [hbuffer]
          exact (if_neg hrel).trans hq
    · simp only [dataStep, if_pos hturn]
      exact List.mem_append_right _ List.mem_cons_self
  · have hturn' : ¬p.seq_nr = t.receiver.flushed.recv_buffer_expected_seq := hturn
    simp only [if_neg hturn'] at hbuffer
    have hnew : (t.dataStep i p now).Received i := by
      refine Or.inr ⟨p.seq_nr, (Dict.mem_keys_iff _).mpr ⟨p.toUTPPacket, ?_⟩, ?_⟩
      · exact (hbuffer p.seq_nr).trans (Dict.get?_set_self _ _ _)
      · simp [dataStep, if_neg hturn]
    refine ⟨⟨fun hq => hq, ?_⟩, hnew⟩
    intro j hj
    obtain hj | ⟨seq, hseq, rfl⟩ := hj
    · exact Or.inl (List.mem_append_left _ hj)
    · by_cases hs : seq = p.seq_nr
      · -- the place is not taken by another packet
        subst hs
        rw [hsafe.2 hturn hseq]
        exact hnew
      · obtain ⟨q, hq⟩ := (Dict.mem_keys_iff _).mp hseq
        refine Or.inr ⟨seq, (Dict.mem_keys_iff _).mpr ⟨q, ?_⟩, ?_⟩
        · exact (hbuffer seq).trans ((Dict.get?_set_ne _ hs _).trans hq)
        · simp [dataStep, if_neg hturn, Function.update_of_ne hs]

theorem holding_dataStep {t : Session} (h : ReceiverInv t) {i : Nat} {p : OutgoingPacket}
    (hcopy : t.IsCopy i p.toUTPPacket) (now : UInt32) : ∀ seq q,
      (t.dataStep i p now).receiver.recv_buffer.get? seq = some q →
        (t.dataStep i p now).IsCopy ((t.dataStep i p now).held seq) q ∧ q.seq_nr = seq := by
  intro seq q hq
  have hbuffer := t.receiver.flushed.handleDataPacket_recv_buffer p.toUTPPacket now seq
  have hheld : (t.dataStep i p now).held =
      if p.seq_nr = t.receiver.recv_buffer_expected_seq then t.held
      else Function.update t.held p.seq_nr i := rfl
  rw [dataStep] at hq
  simp only [hbuffer] at hq
  show t.IsCopy ((t.dataStep i p now).held seq) q ∧ q.seq_nr = seq
  rw [hheld]
  by_cases hturn : p.seq_nr = t.receiver.recv_buffer_expected_seq
  · rw [if_pos hturn]
    have hold : t.receiver.recv_buffer.get? seq = some q := by
      split at hq
      · split at hq
        · exact absurd hq (by simp)
        · exact hq
      · next hn => exact absurd hturn hn
    exact h.holding seq q hold
  · rw [if_neg hturn]
    have hset : (t.receiver.recv_buffer.set p.seq_nr p.toUTPPacket).get? seq = some q := by
      split at hq
      · next hn => exact absurd hn hturn
      · exact hq
    rw [Dict.get?_set] at hset
    rw [Function.update_apply]
    split at hset
    · next hs =>
      rw [if_pos hs, ← Option.some.inj hset]
      exact ⟨hcopy, hs.symm⟩
    · next hs =>
      rw [if_neg hs]
      exact h.holding seq q hset

theorem received_dataStep {t : Session} (h : ReceiverInv t) {i : Nat} {p : OutgoingPacket}
    (hcopy : t.IsCopy i p.toUTPPacket) (now : UInt32) :
    (t.dataStep i p now).consumed ++ (t.dataStep i p now).receiver.recv_data_buffer =
      (t.dataStep i p now).delivered.flatMap (t.dataStep i p now).payload := by
  have hdata := t.receiver.flushed.handleDataPacket_recv_data_buffer p.toUTPPacket now
  have hpayload : (t.dataStep i p now).payload = t.payload := rfl
  rw [hpayload]
  simp only [dataStep, hdata]
  rw [List.flatMap_append, ← h.received, ← List.append_assoc]
  congr 1
  by_cases hturn : p.seq_nr = t.receiver.recv_buffer_expected_seq
  · have hturn' : p.seq_nr = t.receiver.flushed.recv_buffer_expected_seq := hturn
    rw [if_pos hturn', if_pos hturn, List.flatMap_cons, payload_of_isCopy hcopy, List.flatMap_map]
    congr 1
    apply List.flatMap_congr
    intro seq hseq
    have hmem : seq ∈ t.receiver.released p.toUTPPacket := hseq
    rw [released, if_pos hturn] at hmem
    obtain ⟨q, hq⟩ := mem_drained hmem
    rw [payload_of_isCopy (h.holding seq q hq).1]
    have hq' : t.receiver.flushed.recv_buffer.get? seq = some q := hq
    simp only [payloadAt, hq']
  · have hturn' : ¬p.seq_nr = t.receiver.flushed.recv_buffer_expected_seq := hturn
    rw [if_neg hturn', if_neg hturn, released, if_neg hturn']
    rfl

theorem receiverInv_dataStep {t : Session} (h : ReceiverInv t) {i : Nat} {p : OutgoingPacket}
    (hcopy : t.IsCopy i p.toUTPPacket) (hsafe : t.SafeData i p) (now : UInt32) :
    ReceiverInv (t.dataStep i p now) := by
  obtain ⟨hext, hi⟩ := extends_dataStep hsafe now
  obtain ⟨q, hq, hsame⟩ := hcopy
  have hcumulative : (t.dataStep i p now).Grounded (t.dataStep i p now).ackOwner := by
    intro m hm j hj
    simp only [dataStep] at hm
    split at hm
    · next hmove =>
      obtain rfl := Option.some.inj hm
      obtain hlt | rfl := Nat.lt_or_eq_of_le hj
      · exact hext.received (hsafe.1 hmove j hlt)
      · exact hi
    · exact hext.received (h.cumulative m hm j hj)
  have hseen : ∀ seq ∈ (t.dataStep i p now).receiver.received_seqs,
      (t.dataStep i p now).Seen seq := by
    intro seq hseq
    obtain rfl | hseq := t.receiver.flushed.handleDataPacket_received_seqs p.toUTPPacket now hseq
    · exact ⟨i, q, hext.sent hq, hsame.2.1.symm, hi⟩
    · exact (h.seen seq hseq).mono hext
  obtain ⟨hsent, hpending⟩ := t.receiver.flushed.handleDataPacket_acks p.toUTPPacket now
  refine ⟨holding_dataStep h ⟨q, hq, hsame⟩ now, ?_, received_dataStep h ⟨q, hq, hsame⟩ now, hseen,
    hcumulative, hcumulative, ?_, ?_, fun j hj => hext.received (h.acknowledged j hj)⟩
  · intro j hj
    obtain hj | hj := List.mem_append.mp hj
    · exact h.delivered j hj
    · split at hj
      · next hturn =>
        obtain rfl | hj := List.mem_cons.mp hj
        · exact ⟨q, hq⟩
        · obtain ⟨seq, hseq, rfl⟩ := List.mem_map.mp hj
          rw [released, if_pos hturn] at hseq
          obtain ⟨q', hq'⟩ := mem_drained hseq
          obtain ⟨⟨r, hr, _⟩, _⟩ := h.holding seq q' hq'
          exact ⟨r, hr⟩
      · simp at hj
  · intro ack hack seq hs
    exact hseen seq (hpending ack hack seq hs)
  · intro x hx
    obtain hx | hx := List.mem_append.mp hx
    · exact ⟨(h.channel x hx).1.mono hext, (h.channel x hx).2.mono hext⟩
    · obtain ⟨ack, hmem, rfl⟩ := List.mem_map.mp hx
      have hnames := (hsent ack hmem).resolve_left (by simp [flushed])
      exact ⟨hcumulative, fun seq hs => hseen seq (hnames seq hs)⟩

theorem receiverInv_timerStep {t : Session} (h : ReceiverInv t) (now : UInt32) :
    ReceiverInv (t.timerStep now) := by
  have hstep := t.receiver.flushed.sendBatchedAcks_step now
  obtain ⟨hsent, hpending⟩ := t.receiver.flushed.sendBatchedAcks_spec now
  have hbuffer : (t.timerStep now).receiver.recv_buffer = t.receiver.recv_buffer :=
    hstep.recv_buffer
  have hext : Extends t (t.timerStep now) := by
    refine ⟨fun hq => hq, fun hj => ?_⟩
    rw [Received, hbuffer]
    exact hj
  refine ⟨?_, h.delivered, ?_, ?_, h.cumulative.mono hext, h.pendingCumulative.mono hext, ?_, ?_,
    fun j hj => hext.received (h.acknowledged j hj)⟩
  · rw [hbuffer]
    exact h.holding
  · refine Eq.trans ?_ h.received
    exact congrArg (t.consumed ++ ·) hstep.recv_data_buffer
  · intro seq hseq
    have hmem : seq ∈ t.receiver.received_seqs := hstep.received_seqs ▸ hseq
    exact (h.seen seq hmem).mono hext
  · intro ack hack
    exact (h.pending ack (hpending ack hack)).mono hext
  · intro x hx
    obtain hx | hx := List.mem_append.mp hx
    · exact ⟨(h.channel x hx).1.mono hext, (h.channel x hx).2.mono hext⟩
    · obtain ⟨ack, hmem, rfl⟩ := List.mem_map.mp hx
      obtain ⟨q, hq, rfl⟩ := (hsent ack hmem).resolve_left (by simp [flushed])
      exact ⟨h.pendingCumulative.mono hext, fun seq hs => (h.pending q hq seq hs).mono hext⟩

theorem receiverInv_receive {t : Session} (h : ReceiverInv t) {max_bytes : Int} {bytes : Bytes}
    {receiver : UTPConnection} (hr : t.receiver.receive max_bytes = some (bytes, receiver)) :
    ReceiverInv { t with receiver, consumed := t.consumed ++ bytes } := by
  obtain ⟨rest, rfl, hdata⟩ := receive_spec hr
  refine ⟨h.holding, h.delivered, ?_, h.seen, h.cumulative, h.pendingCumulative, h.pending,
    h.channel, h.acknowledged⟩
  rw [List.append_assoc, ← hdata]
  exact h.received

/-! ### Runs -/

theorem inv_start {s r : UTPConnection} (hs : Ready s) (hr : Ready r) :
    SenderInv (start s r) ∧ ReceiverInv (start s r) := by
  have hempty : ∀ seq, s.send_buffer.get? seq = none := by
    intro seq
    rw [Dict.get?, hs.unacked]
    rfl
  constructor
  · refine ⟨hs.connected, by simp [start], hs.sent, by simp [start], ?_, by simp [start]⟩
    intro seq v hv
    exact absurd ((hempty seq).symm.trans hv) (by simp)
  · refine ⟨?_, by simp [start], hr.received, ?_, by simp [Grounded, start],
      by simp [Grounded, start], ?_, by simp [start], by simp [NeverForgets, start]⟩
    · intro seq p hp
      have hb : r.recv_buffer.get? seq = some p := hp
      rw [hr.reorder] at hb
      exact absurd hb (by simp)
    · intro seq hseq
      have hm : seq ∈ r.received_seqs := hseq
      simp [hr.numbers] at hm
    · intro p hp
      have hm : p ∈ r.pending_acks := hp
      simp [hr.pending] at hm

theorem inv_step {t : Session} {e : Event} (h : SenderInv t ∧ ReceiverInv t) (hsafe : t.Safe e) :
    SenderInv (t.step e) ∧ ReceiverInv (t.step e) := by
  obtain ⟨hs, hr⟩ := h
  cases e with
  | send data now => exact ⟨senderInv_sendStep hs data now, receiverInv_sendStep hr data now⟩
  | data k now =>
    cases hget : t.data[k]? with
    | none =>
      simp only [step, hget]
      exact ⟨hs, hr⟩
    | some x =>
      simp only [step, hget]
      have hcopy := hs.channel x (List.mem_of_getElem? hget)
      refine ⟨?_, receiverInv_dataStep hr hcopy (hsafe x hget) now⟩
      exact ⟨hs.connected, hs.numbers, hs.next, hs.latest, hs.buffered, hs.channel⟩
  | ack k now =>
    cases hget : t.acks[k]? with
    | none =>
      simp only [step, hget]
      exact ⟨hs, hr⟩
    | some x =>
      simp only [step, hget]
      have hmem := List.mem_of_getElem? hget
      exact ⟨senderInv_ackStep hs x.2 now, receiverInv_ackStep hs hr hmem (hsafe x hget) now⟩
  | ackTimer now =>
    refine ⟨?_, receiverInv_timerStep hr now⟩
    exact ⟨hs.connected, hs.numbers, hs.next, hs.latest, hs.buffered, hs.channel⟩
  | receive max_bytes =>
    rw [step]
    split
    · exact ⟨hs, hr⟩
    · next bytes receiver hrecv =>
      refine ⟨?_, receiverInv_receive hr hrecv⟩
      exact ⟨hs.connected, hs.numbers, hs.next, hs.latest, hs.buffered, hs.channel⟩

/-- In a run of safe steps from two connections that have completed their handshakes, no
acknowledgment makes the sender forget a packet that the receiver does not have. -/
theorem neverForgets {s r : UTPConnection} (hs : Established s) (hr : Established r)
    {es : List Event} (h : StepsMeet step Safe (start s r) es) :
    Always step NeverForgets (start s r) es := by
  have hstep : ∀ t e, SenderInv t ∧ ReceiverInv t → Safe t e →
      SenderInv (step t e) ∧ ReceiverInv (step t e) := fun _ _ ht hsafe => inv_step ht hsafe
  have hinv := always_of_stepsMeet hstep (inv_start hs.ready hr.ready) h
  exact hinv.mono (fun t ht => ht.2.acknowledged)

/-- Two packets are sent, the first one is lost, the second one arrives and is acknowledged. -/
def lossyRun : List Event := [.send (ascii "a") 0, .send (ascii "b") 0, .data 1 0, .ack 0 0]

theorem not_neverForgets_lossyRun : Established sampleInitiator ∧ Established sampleAcceptor ∧
    ¬Always step NeverForgets (start sampleInitiator sampleAcceptor) lossyRun := by
  refine ⟨established_sampleInitiator, established_sampleAcceptor, fun h => ?_⟩
  have hend := (always_iff_take.mp h) 4
  have hlost :
      ¬(run step (start sampleInitiator sampleAcceptor) (lossyRun.take 4)).NeverForgets := by
    decide +kernel
  exact hlost hend

/-- Two packets arrive in order and are acknowledged. -/
def losslessRun : List Event :=
  [.send (ascii "a") 0, .send (ascii "b") 0, .data 0 0, .data 1 0, .ack 1 0]

instance (t : Session) (i : Nat) (p : OutgoingPacket) : Decidable (t.SafeData i p) :=
  inferInstanceAs (Decidable ((_ → ∀ j < i, t.Received j) ∧ _))

instance (t : Session) (a : Option Nat) (p : OutgoingPacket) : Decidable (t.SafeAck a p) :=
  List.decidableBAll _ _

instance (t : Session) (e : Event) : Decidable (t.Safe e) :=
  match e with
  | .data k _ => inferInstanceAs (Decidable (∀ x ∈ t.data[k]?, t.SafeData x.1 x.2))
  | .ack k _ => inferInstanceAs (Decidable (∀ x ∈ t.acks[k]?, t.SafeAck x.1 x.2))
  | .send _ _ => .isTrue trivial
  | .ackTimer _ => .isTrue trivial
  | .receive _ => .isTrue trivial

theorem neverForgets_losslessRun :
    Always step NeverForgets (start sampleInitiator sampleAcceptor) losslessRun :=
  neverForgets established_sampleInitiator established_sampleAcceptor
    ⟨trivial, trivial, by decide +kernel, by decide +kernel, by decide +kernel, trivial⟩

end Session

end Utp

end Ccbt
