import Ccbt.Peer.Decoder
import Ccbt.Transition.Run

/-!
# Decoding a stream of peer messages

What the two decoders hand over for a stream of encoded messages, however the stream
is cut into chunks and whatever objects wait in the pools.
-/

namespace Ccbt

open Python

namespace Peer

/-- What the frames say that decode. -/
def messagesOf (other : Fallback) (frames : List Frame) : List Message :=
  frames.filterMap fun f => (parse other f.body).toOption

@[simp] theorem messagesOf_append (other : Fallback) (frames more : List Frame) :
    messagesOf other (frames ++ more) = messagesOf other frames ++ messagesOf other more :=
  List.filterMap_append

theorem messagesOf_of_error {other : Fallback} {f : Frame} {e : String}
    (h : parse other f.body = .error e) : messagesOf other [f] = [] := by
  simp [messagesOf, h, Except.toOption]

theorem messagesOf_of_ok {other : Fallback} {f : Frame} {m : Message}
    (h : parse other f.body = .ok m) : messagesOf other [f] = [m] := by
  simp [messagesOf, h, Except.toOption]

theorem MessagePools.handAll_append (p : MessagePools) (ms more : List Message) :
    p.handAll (ms ++ more) =
      ((p.handAll ms).1 ++ ((p.handAll ms).2.handAll more).1,
        ((p.handAll ms).2.handAll more).2) := by
  induction ms generalizing p with
  | nil => rfl
  | cons m ms ih => rw [List.cons_append, handAll, ih, handAll, List.cons_append]

section Parse

variable (other : Fallback)

theorem parse_cons {payload : Bytes} (h : payload ≠ []) (message_id : UInt8) :
    parse other (message_id :: payload) =
      parseComplex other message_id (message_id :: payload) := by
  cases payload with
  | nil => exact absurd rfl h
  | cons b payload => rfl

theorem packI_ne_nil (w : UInt32) : packI w ≠ [] := by
  intro h
  have := packI_length w
  simp [h] at this

/-- The words of a payload, counted from the message id. -/
theorem words (message_id : UInt8) (a b : UInt32) (rest : Bytes) :
    ((message_id :: (packI a ++ packI b ++ rest)).drop 1).take 4 = packI a ∧
      ((message_id :: (packI a ++ packI b ++ rest)).drop 5).take 4 = packI b ∧
      (message_id :: (packI a ++ packI b ++ rest)).drop 9 = rest := by
  refine ⟨?_, ?_, ?_⟩
  · rw [List.drop_succ_cons, List.drop_zero, List.append_assoc]
    exact List.take_left' (packI_length a)
  · rw [List.drop_succ_cons, List.append_assoc, List.drop_left' (packI_length a)]
    exact List.take_left' (packI_length b)
  · rw [List.drop_succ_cons]
    exact List.drop_left' (by simp)

/-- A message is read back from its body, unless it is a bitfield without octets: its body is
as long as that of a message without a payload. -/
theorem parse_body {m : PeerMessage} (h : m ≠ .BitfieldMessage []) :
    parse other m.body = .ok (.peer m) := by
  cases m with
  | KeepAliveMessage | ChokeMessage | UnchokeMessage | InterestedMessage
  | NotInterestedMessage => rfl
  | HaveMessage i =>
    rw [PeerMessage.body, parse_cons other (packI_ne_nil i), parseComplex]
    have hword : (packI i).take 4 = packI i := List.take_of_length_le (packI_length i).le
    simp [hword]
  | BitfieldMessage bitfield =>
    have hne : bitfield ≠ [] := fun he => h (he ▸ rfl)
    rw [PeerMessage.body, parse_cons other hne, parseComplex]
    simp [MessageType.toByte]
  | RequestMessage i b l =>
    have hne : packI i ++ packI b ++ packI l ≠ [] := by simp [packI_ne_nil]
    obtain ⟨h1, h2, h3⟩ := words MessageType.REQUEST.toByte i b (packI l)
    have hl : (packI l).take 4 = packI l := List.take_of_length_le (packI_length l).le
    rw [PeerMessage.body, parse_cons other hne, parseComplex]
    simp only [h1, h2, h3, hl, unpackI_packI]
    simp [MessageType.toByte]
  | PieceMessage i b block =>
    have hne : packI i ++ packI b ++ block ≠ [] := by simp [packI_ne_nil]
    obtain ⟨h1, h2, h3⟩ := words MessageType.PIECE.toByte i b block
    rw [PeerMessage.body, parse_cons other hne, parseComplex]
    simp only [h1, h2, h3, unpackI_packI]
    simp [MessageType.toByte]
    omega
  | CancelMessage i b l =>
    have hne : packI i ++ packI b ++ packI l ≠ [] := by simp [packI_ne_nil]
    obtain ⟨h1, h2, h3⟩ := words MessageType.CANCEL.toByte i b (packI l)
    have hl : (packI l).take 4 = packI l := List.take_of_length_le (packI_length l).le
    rw [PeerMessage.body, parse_cons other hne, parseComplex]
    simp only [h1, h2, h3, hl, unpackI_packI]
    simp [MessageType.toByte]

/-- The body of an empty bitfield does not decode. -/
theorem parse_emptyBitfield :
    ∃ e, parse other (PeerMessage.BitfieldMessage []).body = .error e := ⟨_, rfl⟩

end Parse

namespace AsyncMessageDecoder

@[simp] theorem output_getMessage (d : AsyncMessageDecoder) : d.getMessage.output = d.output := by
  rw [getMessage]
  split
  · rfl
  · next h => simp [output, h]

@[simp] theorem output_put (d : AsyncMessageDecoder) (message : Ref) :
    (d.put message).output = d.output ++ [message] := by
  rw [put]
  split
  · simp [output]
  · rw [← output_getMessage d]
    simp [output]

theorem getMessage_frame (d : AsyncMessageDecoder) :
    d.getMessage.pools = d.pools ∧ d.getMessage.buffer = d.buffer := by
  rw [getMessage]
  split <;> exact ⟨rfl, rfl⟩

theorem pools_put (d : AsyncMessageDecoder) (message : Ref) : (d.put message).pools = d.pools := by
  rw [put]
  split
  · rfl
  · exact d.getMessage_frame.1

/-- The decoder has gone on to a state by handing over what some frames say. -/
structure Handed (d d' : AsyncMessageDecoder) (frames : List Frame) : Prop where
  pools : d'.pools = (d.pools.handAll (messagesOf unknownMessage frames)).2
  output : d'.output = d.output ++ (d.pools.handAll (messagesOf unknownMessage frames)).1

theorem Handed.trans {d₁ d₂ d₃ : AsyncMessageDecoder} {frames more : List Frame}
    (h : Handed d₁ d₂ frames) (h' : Handed d₂ d₃ more) : Handed d₁ d₃ (frames ++ more) := by
  constructor
  · rw [h'.pools, h.pools, messagesOf_append, MessagePools.handAll_append]
  · rw [h'.output, h.output, h.pools, messagesOf_append, MessagePools.handAll_append,
      List.append_assoc]

theorem processBuffer_spec {n : Nat} {d : AsyncMessageDecoder} (h : d.buffer.length ≤ n) :
    (processBuffer n d).buffer = (Frame.splitter.drain d.buffer).2 ∧
      Handed d (processBuffer n d) (Frame.splitter.drain d.buffer).1 := by
  induction n generalizing d with
  | zero =>
    have hsplit : Frame.splitter.split d.buffer = none := by
      rw [List.length_eq_zero_iff.mp (Nat.le_zero.mp h)]
      rfl
    rw [Framing.Splitter.drain_of_none hsplit]
    exact ⟨rfl, rfl, (List.append_nil _).symm⟩
  | succ n ih =>
    rw [processBuffer]
    split
    · next hsplit =>
      rw [Framing.Splitter.drain_of_none hsplit]
      exact ⟨rfl, rfl, (List.append_nil _).symm⟩
    · next frame rest hsplit =>
      have hle : rest.length ≤ n := Nat.le_of_lt_succ ((Frame.splitter.length_lt hsplit).trans_le h)
      rw [Framing.Splitter.drain_of_some hsplit, MessagePools.decodeMessage_eq,
        ← List.singleton_append]
      cases hp : parse unknownMessage frame.body with
      | error e =>
        obtain ⟨hbuffer, hrest⟩ := ih (d := { d with buffer := rest }) hle
        refine ⟨hbuffer, Handed.trans ⟨?_, ?_⟩ hrest⟩
        · rw [messagesOf_of_error hp]
          rfl
        · rw [messagesOf_of_error hp]
          exact (List.append_nil _).symm
      | ok m =>
        obtain ⟨hbuffer, hrest⟩ := ih (d := { put { d with pools := (d.pools.hand m).2 }
          (d.pools.hand m).1 with buffer := rest }) hle
        refine ⟨hbuffer, Handed.trans ⟨?_, ?_⟩ hrest⟩
        · rw [messagesOf_of_ok hp]
          exact pools_put { d with pools := (d.pools.hand m).2 } (d.pools.hand m).1
        · rw [messagesOf_of_ok hp]
          exact output_put { d with pools := (d.pools.hand m).2 } (d.pools.hand m).1

/-- `feed_data` takes off every frame that is complete. -/
theorem feedData_spec (d : AsyncMessageDecoder) (data : Bytes) :
    (d.feedData data).buffer = (Frame.splitter.drain (d.buffer ++ data)).2 ∧
      Handed d (d.feedData data) (Frame.splitter.drain (d.buffer ++ data)).1 := by
  obtain ⟨hbuffer, hhanded⟩ :=
    processBuffer_spec (d := { d with buffer := d.buffer ++ data }) le_rfl
  exact ⟨hbuffer, hhanded.pools, hhanded.output⟩

/-- What happens to a decoder: data arrives, or the consumer takes a message. -/
inductive Event
  | feed (data : Bytes)
  | get

def step (d : AsyncMessageDecoder) : Event → AsyncMessageDecoder
  | .feed data => d.feedData data
  | .get => d.getMessage

/-- The octets that a run feeds. -/
def fed (events : List Event) : Bytes :=
  events.flatMap fun
    | .feed data => data
    | .get => []

theorem fed_map_feed (chunks : List Bytes) : fed (chunks.map .feed) = chunks.flatten := by
  rw [fed, List.flatMap_map]
  exact List.flatMap_id

theorem run_spec {d : AsyncMessageDecoder} (h : Frame.splitter.split d.buffer = none)
    (events : List Event) :
    (Transition.run step d events).buffer = (Frame.splitter.drain (d.buffer ++ fed events)).2 ∧
      Handed d (Transition.run step d events)
        (Frame.splitter.drain (d.buffer ++ fed events)).1 := by
  induction events generalizing d with
  | nil =>
    rw [fed, List.flatMap_nil, List.append_nil, Framing.Splitter.drain_of_none h]
    exact ⟨rfl, rfl, (List.append_nil _).symm⟩
  | cons event events ih =>
    rw [Transition.run_cons]
    cases event with
    | feed data =>
      obtain ⟨hbuffer, hhanded⟩ := d.feedData_spec data
      have hsplit : Frame.splitter.split (d.feedData data).buffer = none :=
        hbuffer ▸ Framing.Splitter.split_drain _
      obtain ⟨hbuffer', hhanded'⟩ := ih hsplit
      have hfed : d.buffer ++ fed (.feed data :: events) = d.buffer ++ data ++ fed events := by
        simp [fed]
      rw [hfed, Framing.Splitter.drain_append (d.buffer ++ data), ← hbuffer]
      exact ⟨hbuffer', hhanded.trans hhanded'⟩
    | get =>
      obtain ⟨hpools, hbuffer⟩ := d.getMessage_frame
      obtain ⟨hbuffer', hpools', houtput'⟩ := ih (d := d.getMessage) (hbuffer ▸ h)
      rw [hbuffer] at hbuffer' hpools' houtput'
      rw [hpools] at hpools' houtput'
      rw [output_getMessage] at houtput'
      exact ⟨hbuffer', hpools', houtput'⟩

end AsyncMessageDecoder

/-- The decoding of a frame does not raise. -/
def Frame.Decodes (f : Frame) (other : Fallback) : Prop := ∃ m, parse other f.body = .ok m

namespace OptimizedMessageDecoder

theorem addDataLoop_of_ok {n : Nat} {d : OptimizedMessageDecoder} {f : Frame} {rest : Bytes}
    {m : Message} (hsplit : Frame.splitter.split d.buffer = some (f, rest))
    (hm : parse decodeV2Message f.body = .ok m) (messages : List Ref) :
    addDataLoop (n + 1) d messages =
      addDataLoop n ⟨(d.pools.hand m).2, rest⟩ (messages ++ [(d.pools.hand m).1]) := by
  have hsplit' : Frame.split d.buffer = some (f, rest) := hsplit
  simp only [addDataLoop, hsplit', MessagePools.decodeMessage_eq, hm]
  rfl

theorem addDataLoop_of_none {n : Nat} {d : OptimizedMessageDecoder}
    (hsplit : Frame.splitter.split d.buffer = none) (messages : List Ref) :
    addDataLoop n d messages = (.ok messages, d) := by
  have hsplit' : Frame.split d.buffer = none := hsplit
  cases n with
  | zero => rfl
  | succ n => simp only [addDataLoop, hsplit']

theorem addDataLoop_of_error {n : Nat} {d : OptimizedMessageDecoder} {f : Frame} {rest : Bytes}
    {e : String} (hsplit : Frame.splitter.split d.buffer = some (f, rest))
    (he : parse decodeV2Message f.body = .error e) (messages : List Ref) :
    addDataLoop (n + 1) d messages = (.error e, d) := by
  have hsplit' : Frame.split d.buffer = some (f, rest) := hsplit
  simp only [addDataLoop, hsplit', MessagePools.decodeMessage_eq, he]
  rfl

/-- The loop takes off every frame that is complete, if they all decode. -/
theorem addDataLoop_of_decodes {n : Nat} {d : OptimizedMessageDecoder} (h : d.buffer.length ≤ n)
    (messages : List Ref)
    (hdec : ∀ f ∈ (Frame.splitter.drain d.buffer).1, f.Decodes decodeV2Message) :
    addDataLoop n d messages =
      (.ok (messages ++ (d.pools.handAll
          (messagesOf decodeV2Message (Frame.splitter.drain d.buffer).1)).1),
        ⟨(d.pools.handAll (messagesOf decodeV2Message (Frame.splitter.drain d.buffer).1)).2,
          (Frame.splitter.drain d.buffer).2⟩) := by
  induction n generalizing d messages with
  | zero =>
    have hsplit : Frame.splitter.split d.buffer = none := by
      rw [List.length_eq_zero_iff.mp (Nat.le_zero.mp h)]
      rfl
    rw [addDataLoop_of_none hsplit, Framing.Splitter.drain_of_none hsplit]
    simp [messagesOf, MessagePools.handAll]
  | succ n ih =>
    cases hsplit : Frame.splitter.split d.buffer with
    | none =>
      rw [addDataLoop_of_none hsplit, Framing.Splitter.drain_of_none hsplit]
      simp [messagesOf, MessagePools.handAll]
    | some p =>
      obtain ⟨f, rest⟩ := p
      have hle : rest.length ≤ n := Nat.le_of_lt_succ ((Frame.splitter.length_lt hsplit).trans_le h)
      rw [Framing.Splitter.drain_of_some hsplit] at hdec ⊢
      obtain ⟨m, hm⟩ := hdec f List.mem_cons_self
      rw [addDataLoop_of_ok hsplit hm, ih (d := ⟨(d.pools.hand m).2, rest⟩) hle _ fun g hg =>
        hdec g (List.mem_cons_of_mem f hg), ← List.singleton_append (x := f), messagesOf_append,
        messagesOf_of_ok hm, MessagePools.handAll_append]
      simp [MessagePools.handAll]

/-- At the first frame that does not decode the loop raises, and leaves the frame and all
that follows it in the buffer. -/
theorem addDataLoop_of_not_decodes {n : Nat} {d : OptimizedMessageDecoder}
    (h : d.buffer.length ≤ n) (messages : List Ref) {good bad : List Frame} {f : Frame} {e : String}
    (hframes : (Frame.splitter.drain d.buffer).1 = good ++ f :: bad)
    (hgood : ∀ g ∈ good, g.Decodes decodeV2Message) (he : parse decodeV2Message f.body = .error e) :
    addDataLoop n d messages =
      (.error e, ⟨(d.pools.handAll (messagesOf decodeV2Message good)).2,
        (f :: bad).flatMap Frame.encode ++ (Frame.splitter.drain d.buffer).2⟩) := by
  induction good generalizing n d messages with
  | nil =>
    obtain ⟨rest, hsplit, -, -⟩ := Framing.Splitter.split_of_drain_cons hframes
    have hbuffer := Framing.Splitter.drain_eq_encode Frame.splitter_sound d.buffer
    rw [hframes, List.nil_append] at hbuffer
    have hlt := Frame.splitter.length_lt hsplit
    obtain ⟨n, rfl⟩ : ∃ k, n = k + 1 := Nat.exists_eq_add_one.mpr (by omega)
    rw [addDataLoop_of_error hsplit he, ← hbuffer]
    rfl
  | cons g good ih =>
    obtain ⟨rest, hsplit, hrest, hleft⟩ := Framing.Splitter.split_of_drain_cons hframes
    have hlt := Frame.splitter.length_lt hsplit
    obtain ⟨n, rfl⟩ : ∃ k, n = k + 1 := Nat.exists_eq_add_one.mpr (by omega)
    obtain ⟨m, hm⟩ := hgood g List.mem_cons_self
    rw [addDataLoop_of_ok hsplit hm, ih (d := ⟨(d.pools.hand m).2, rest⟩) (by simp; omega) _ hrest
      (fun g' hg' => hgood g' (List.mem_cons_of_mem g hg')), ← List.singleton_append (x := g),
      messagesOf_append, messagesOf_of_ok hm, MessagePools.handAll_append, hleft]
    rfl

/-- Over all calls the decoder takes off every frame of the stream, if they all decode. -/
theorem addAll_of_decodes {d : OptimizedMessageDecoder}
    (hsplit : Frame.splitter.split d.buffer = none) {chunks : List Bytes}
    (hdec : ∀ f ∈ (Frame.splitter.drain (d.buffer ++ chunks.flatten)).1,
      f.Decodes decodeV2Message) :
    d.addAll chunks =
      ((d.pools.handAll (messagesOf decodeV2Message
          (Frame.splitter.drain (d.buffer ++ chunks.flatten)).1)).1,
        ⟨(d.pools.handAll (messagesOf decodeV2Message
          (Frame.splitter.drain (d.buffer ++ chunks.flatten)).1)).2,
          (Frame.splitter.drain (d.buffer ++ chunks.flatten)).2⟩) := by
  induction chunks generalizing d with
  | nil =>
    rw [List.flatten_nil, List.append_nil, Framing.Splitter.drain_of_none hsplit]
    rfl
  | cons chunk chunks ih =>
    have happend := Framing.Splitter.drain_append (s := Frame.splitter) (d.buffer ++ chunk)
      chunks.flatten
    rw [List.flatten_cons, ← List.append_assoc] at hdec ⊢
    rw [happend] at hdec ⊢
    have hfirst := addDataLoop_of_decodes (d := { d with buffer := d.buffer ++ chunk }) le_rfl []
      fun f hf => hdec f (List.mem_append_left _ hf)
    have hrest (pools : MessagePools) :=
      ih (d := ⟨pools, (Frame.splitter.drain (d.buffer ++ chunk)).2⟩)
        (Framing.Splitter.split_drain _) fun f hf => hdec f (List.mem_append_right _ hf)
    rw [addAll, addData, hfirst]
    dsimp only
    rw [hrest, messagesOf_append, MessagePools.handAll_append]
    rfl

end OptimizedMessageDecoder

/-- The message objects hold these messages. -/
def Reads (p : MessagePools) (messages : List Ref) (ms : List Message) : Prop :=
  messages.map (fun ref => p.objects[ref]?) = ms.map some

/-- In every run that feeds the stream, `AsyncMessageDecoder` hands over exactly these messages
and is left with an empty buffer. -/
def AsyncMessageDecoder.Inverts (p : MessagePools) (stream : Bytes) (ms : List PeerMessage) :
    Prop :=
  ∀ events, AsyncMessageDecoder.fed events = stream →
    let d := Transition.run AsyncMessageDecoder.step { pools := p } events
    Reads d.pools d.output (ms.map .peer) ∧ d.buffer = []

/-- However the stream is cut, `OptimizedMessageDecoder` returns exactly these messages and is
left with an empty buffer. -/
def OptimizedMessageDecoder.Inverts (p : MessagePools) (stream : Bytes) (ms : List PeerMessage) :
    Prop :=
  ∀ chunks, chunks.flatten = stream →
    let r := OptimizedMessageDecoder.addAll ⟨p, []⟩ chunks
    Reads r.2.pools r.1 (ms.map .peer) ∧ r.2.buffer = []

/-- The frames of messages that encode. -/
theorem exists_frames {ms : List PeerMessage} {data : List Bytes}
    (h : ms.mapM PeerMessage.encode = some data) :
    ∃ frames : List Frame, data.flatten = frames.flatMap Frame.encode ∧
      frames.map Frame.body = ms.map PeerMessage.body := by
  induction ms generalizing data with
  | nil =>
    obtain rfl : [] = data := Option.some.inj h
    exact ⟨[], rfl, rfl⟩
  | cons m ms ih =>
    rw [List.mapM_cons] at h
    obtain ⟨first, hm, h⟩ := Option.bind_eq_some_iff.mp h
    obtain ⟨rest, hms, h⟩ := Option.bind_eq_some_iff.mp h
    obtain rfl : first :: rest = data := Option.some.inj h
    obtain ⟨f, hbody, rfl⟩ := PeerMessage.encode_eq_some hm
    obtain ⟨frames, hflatten, hbodies⟩ := ih hms
    exact ⟨f :: frames, by simp [hflatten], by simp [hbody, hbodies]⟩

section Frames

variable {other : Fallback} {frames : List Frame} {ms : List PeerMessage}

theorem decodes_iff (other : Fallback) (hbodies : frames.map Frame.body = ms.map PeerMessage.body) :
    (∀ f ∈ frames, f.Decodes other) ↔ ∀ m ∈ ms, m ≠ .BitfieldMessage [] := by
  have hforall : (∀ f ∈ frames, f.Decodes other) ↔
      ∀ body ∈ frames.map Frame.body, ∃ m, parse other body = .ok m := by
    simp [Frame.Decodes]
  rw [hforall, hbodies, List.forall_mem_map]
  refine forall₂_congr fun m _ => ⟨?_, fun hm => ⟨_, parse_body other hm⟩⟩
  rintro ⟨o, ho⟩ rfl
  obtain ⟨e, he⟩ := parse_emptyBitfield other
  rw [he] at ho
  cases ho

theorem messagesOf_eq (hbodies : frames.map Frame.body = ms.map PeerMessage.body)
    (hms : ∀ m ∈ ms, m ≠ .BitfieldMessage []) : messagesOf other frames = ms.map .peer := by
  have hmap : messagesOf other frames =
      (frames.map Frame.body).filterMap fun body => (parse other body).toOption := by
    rw [messagesOf, List.filterMap_map]
    rfl
  rw [hmap, hbodies, List.filterMap_map, ← List.filterMap_eq_map]
  apply List.filterMap_congr
  intro m hm
  simp [parse_body other (hms m hm), Except.toOption]

/-- The first frame that does not decode. -/
theorem exists_first_not_decodes (h : ¬∀ f ∈ frames, f.Decodes other) :
    ∃ good f bad e, frames = good ++ f :: bad ∧ (∀ g ∈ good, g.Decodes other) ∧
      parse other f.body = .error e := by
  induction frames with
  | nil => simp at h
  | cons f frames ih =>
    cases hp : parse other f.body with
    | error e => exact ⟨[], f, frames, e, rfl, by simp, hp⟩
    | ok m =>
      have hrest : ¬∀ g ∈ frames, g.Decodes other := fun hall =>
        h (List.forall_mem_cons.mpr ⟨⟨m, hp⟩, hall⟩)
      obtain ⟨good, g, bad, e, rfl, hgood, he⟩ := ih hrest
      exact ⟨f :: good, g, bad, e, rfl, List.forall_mem_cons.mpr ⟨⟨m, hp⟩, hgood⟩, he⟩

theorem length_messagesOf (h : ∀ f ∈ frames, f.Decodes other) :
    (messagesOf other frames).length = frames.length := by
  induction frames with
  | nil => rfl
  | cons f frames ih =>
    obtain ⟨⟨m, hm⟩, hrest⟩ := List.forall_mem_cons.mp h
    rw [← List.singleton_append (x := f), messagesOf_append, messagesOf_of_ok hm,
      List.length_append, List.length_append, ih hrest]
    rfl

theorem decodes_of_length_messagesOf (h : (messagesOf other frames).length = frames.length) :
    ∀ f ∈ frames, f.Decodes other := by
  by_contra hdec
  obtain ⟨good, f, bad, e, rfl, -, he⟩ := exists_first_not_decodes hdec
  have hgood : (messagesOf other good).length ≤ good.length := List.length_filterMap_le _ _
  have hbad : (messagesOf other bad).length ≤ bad.length := List.length_filterMap_le _ _
  rw [← List.singleton_append (x := f), messagesOf_append, messagesOf_append,
    messagesOf_of_error he] at h
  simp at h
  omega

end Frames

theorem MessagePools.length_handAll (p : MessagePools) (ms : List Message) :
    (p.handAll ms).1.length = ms.length := by
  induction ms generalizing p with
  | nil => rfl
  | cons m ms ih => rw [handAll, List.length_cons, ih, List.length_cons]

section Inverts

variable {p : MessagePools} {frames : List Frame} {ms : List PeerMessage}

theorem Frame.drain_encode (frames : List Frame) :
    splitter.drain ([] ++ frames.flatMap encode) = (frames, []) :=
  Framing.Splitter.drain_encode rfl fun f _ rest => splitter_encode f rest

theorem reads_iff (hbodies : frames.map Frame.body = ms.map PeerMessage.body) {other : Fallback}
    {messages : List Ref} {q : MessagePools}
    (h : p.handAll (messagesOf other frames) = (messages, q)) :
    Reads q messages (ms.map .peer) ↔
      (∀ m ∈ ms, m ≠ .BitfieldMessage []) ∧ p.NoClash (ms.map .peer) := by
  rw [← decodes_iff other hbodies]
  by_cases hdec : ∀ f ∈ frames, f.Decodes other
  · rw [messagesOf_eq hbodies ((decodes_iff other hbodies).mp hdec)] at h
    rw [and_iff_right hdec, ← MessagePools.readsBack_iff_noClash, MessagePools.ReadsBack, h]
    rfl
  · refine iff_of_false (fun hreads => hdec ?_) (fun hall => hdec hall.1)
    apply decodes_of_length_messagesOf
    have hlength := congrArg List.length hreads
    have hhanded := p.length_handAll (messagesOf other frames)
    have hsame := congrArg List.length hbodies
    simp only [List.length_map] at hlength hsame
    simp only [h] at hhanded
    omega

theorem AsyncMessageDecoder.inverts_iff
    (hbodies : frames.map Frame.body = ms.map PeerMessage.body) :
    AsyncMessageDecoder.Inverts p (frames.flatMap Frame.encode) ms ↔
      (∀ m ∈ ms, m ≠ .BitfieldMessage []) ∧ p.NoClash (ms.map .peer) := by
  have hrun (events : List Event) (hfed : fed events = frames.flatMap Frame.encode) :=
    run_spec (d := { pools := p }) rfl events
  constructor
  · intro h
    have hfed : fed [.feed (frames.flatMap Frame.encode)] = frames.flatMap Frame.encode := by
      simp [fed]
    obtain ⟨hreads, -⟩ := h _ hfed
    obtain ⟨-, hpools, houtput⟩ := hrun _ hfed
    rw [hfed, Frame.drain_encode] at hpools houtput
    exact (reads_iff hbodies (Prod.ext houtput.symm hpools.symm)).mp hreads
  · intro h events hfed
    obtain ⟨hbuffer, hpools, houtput⟩ := hrun _ hfed
    rw [hfed, Frame.drain_encode] at hbuffer hpools houtput
    exact ⟨(reads_iff hbodies (Prod.ext houtput.symm hpools.symm)).mpr h, hbuffer⟩

theorem OptimizedMessageDecoder.inverts_iff
    (hbodies : frames.map Frame.body = ms.map PeerMessage.body) :
    OptimizedMessageDecoder.Inverts p (frames.flatMap Frame.encode) ms ↔
      (∀ m ∈ ms, m ≠ .BitfieldMessage []) ∧ p.NoClash (ms.map .peer) := by
  have hrun (hdec : ∀ f ∈ frames, f.Decodes decodeV2Message) (chunks : List Bytes)
      (hchunks : chunks.flatten = frames.flatMap Frame.encode) :
      addAll ⟨p, []⟩ chunks = ((p.handAll (messagesOf decodeV2Message frames)).1,
        ⟨(p.handAll (messagesOf decodeV2Message frames)).2, []⟩) := by
    have h := @addAll_of_decodes ⟨p, []⟩ rfl chunks
    rw [hchunks, Frame.drain_encode] at h
    exact h hdec
  constructor
  · intro h
    obtain ⟨hreads, hbuffer⟩ := h [frames.flatMap Frame.encode] (by simp)
    by_cases hdec : ∀ f ∈ frames, f.Decodes decodeV2Message
    · rw [hrun hdec _ (by simp)] at hreads
      exact (reads_iff hbodies rfl).mp hreads
    · obtain ⟨good, f, bad, e, hframes, hgood, he⟩ := exists_first_not_decodes hdec
      have hloop := addDataLoop_of_not_decodes (d := ⟨p, [] ++ frames.flatMap Frame.encode⟩) le_rfl
        [] (by rw [Frame.drain_encode, hframes]) hgood he
      rw [addAll, addData, hloop] at hbuffer
      simp [addAll, Frame.encode_ne_nil] at hbuffer
  · intro h chunks hchunks
    have hdec := (decodes_iff decodeV2Message hbodies).mpr h.1
    rw [hrun hdec _ hchunks]
    exact ⟨(reads_iff hbodies rfl).mpr h, rfl⟩

end Inverts

/-- Decoding inverts encoding, however the stream is cut, exactly when no message is a bitfield
without octets and no pooled object is due to be given two different messages. -/
theorem decoders_invert_iff (p : MessagePools) {ms : List PeerMessage} {data : List Bytes}
    (h : ms.mapM PeerMessage.encode = some data) :
    (AsyncMessageDecoder.Inverts p data.flatten ms ↔
      (∀ m ∈ ms, m ≠ .BitfieldMessage []) ∧ p.NoClash (ms.map .peer)) ∧
    (OptimizedMessageDecoder.Inverts p data.flatten ms ↔
      (∀ m ∈ ms, m ≠ .BitfieldMessage []) ∧ p.NoClash (ms.map .peer)) := by
  obtain ⟨frames, hflatten, hbodies⟩ := exists_frames h
  rw [hflatten]
  exact ⟨AsyncMessageDecoder.inverts_iff hbodies, OptimizedMessageDecoder.inverts_iff hbodies⟩

theorem decoders_invert_mixed :
    AsyncMessageDecoder.Inverts .empty
        [[0, 0, 0, 0], [0, 0, 0, 5, 4, 0, 0, 0, 7], [0, 0, 0, 2, 5, 1]].flatten
        [.KeepAliveMessage, .HaveMessage 7, .BitfieldMessage [1]] ∧
      OptimizedMessageDecoder.Inverts .empty
        [[0, 0, 0, 0], [0, 0, 0, 5, 4, 0, 0, 0, 7], [0, 0, 0, 2, 5, 1]].flatten
        [.KeepAliveMessage, .HaveMessage 7, .BitfieldMessage [1]] := by
  have h := @decoders_invert_iff .empty [.KeepAliveMessage, .HaveMessage 7, .BitfieldMessage [1]]
    [[0, 0, 0, 0], [0, 0, 0, 5, 4, 0, 0, 0, 7], [0, 0, 0, 2, 5, 1]] (by decide)
  have hdue : MessagePools.empty.NoClash
      ([.KeepAliveMessage, .HaveMessage 7, .BitfieldMessage [1]].map .peer) := by
    intro t a ha
    simp [MessagePools.due, MessagePools.empty] at ha
  exact ⟨h.1.mpr ⟨by decide, hdue⟩, h.2.mpr ⟨by decide, hdue⟩⟩

/-- A decoder whose pool was given one `HaveMessage` twice. -/
def returnedTwice : MessagePools :=
  let (message, p) := MessagePools.empty.create (.peer (.HaveMessage 0))
  (p.returnMessageToPool message).returnMessageToPool message

/-- A bitfield without octets is lost by both decoders, and of two messages that share a pooled
object the first one changes. -/
theorem not_decoders_invert :
    (¬AsyncMessageDecoder.Inverts .empty [0, 0, 0, 1, 5] [.BitfieldMessage []] ∧
      ¬OptimizedMessageDecoder.Inverts .empty [0, 0, 0, 1, 5] [.BitfieldMessage []]) ∧
    ¬AsyncMessageDecoder.Inverts returnedTwice
      [0, 0, 0, 5, 4, 0, 0, 0, 1, 0, 0, 0, 5, 4, 0, 0, 0, 2] [.HaveMessage 1, .HaveMessage 2] := by
  refine ⟨⟨fun h => ?_, fun h => ?_⟩, fun h => ?_⟩
  · exact absurd (h [.feed [0, 0, 0, 1, 5]] rfl).1 (by unfold Reads; decide +kernel)
  · exact absurd (h [[0, 0, 0, 1, 5]] rfl).2 (by decide +kernel)
  · exact absurd (h [.feed [0, 0, 0, 5, 4, 0, 0, 0, 1, 0, 0, 0, 5, 4, 0, 0, 0, 2]] rfl).1
      (by unfold Reads; decide +kernel)

end Peer

end Ccbt
