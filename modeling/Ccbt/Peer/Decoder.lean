import Ccbt.Peer.Pool

/-!
# The message decoders of `peer/peer.py`

`AsyncMessageDecoder` and `OptimizedMessageDecoder` take messages off a buffer. They
differ in what becomes of a frame that does not decode: the first logs and skips it,
the second lets the exception through. `parse` is what both make of a frame, apart
from the objects that hold the messages.
-/

namespace Ccbt

open Python BittorrentV2

namespace Peer

/-- What a decoder makes of a message id that is none of the nine with a payload. -/
abbrev Fallback := UInt8 → Bytes → Except String V2Message

namespace MessagePools

def decodeSimpleMessage (p : MessagePools) (message_id : UInt8) :
    Except String (Ref × MessagePools) :=
  if message_id = MessageType.CHOKE.toByte then p.getPooledMessage .CHOKE
  else if message_id = MessageType.UNCHOKE.toByte then p.getPooledMessage .UNCHOKE
  else if message_id = MessageType.INTERESTED.toByte then p.getPooledMessage .INTERESTED
  else if message_id = MessageType.NOT_INTERESTED.toByte then p.getPooledMessage .NOT_INTERESTED
  else .error s!"Unknown simple message type: {message_id}"

def decodeComplexMessage (other : Fallback) (p : MessagePools) (message_id : UInt8)
    (message_data : Bytes) : Except String (Ref × MessagePools) :=
  let word (i : Nat) : UInt32 := unpackI ((message_data.drop i).take 4)
  if message_id = MessageType.HAVE.toByte then
    if message_data.length ≠ 5 then
      .error s!"Have message must be 5 bytes, got {message_data.length}"
    else .ok (p.getPooledHaveMessage (word 1))
  else if message_id = MessageType.BITFIELD.toByte then
    if message_data.length < 1 then .error "Bitfield message too short"
    else .ok (p.create (.peer (.BitfieldMessage (message_data.drop 1))))
  else if message_id = MessageType.REQUEST.toByte then
    if message_data.length ≠ 13 then
      .error s!"Request message must be 13 bytes, got {message_data.length}"
    else .ok (p.getPooledRequestMessage (word 1) (word 5) (word 9))
  else if message_id = MessageType.PIECE.toByte then
    if message_data.length < 9 then .error "Piece message too short"
    else .ok (p.create (.peer (.PieceMessage (word 1) (word 5) (message_data.drop 9))))
  else if message_id = MessageType.CANCEL.toByte then
    if message_data.length ≠ 13 then
      .error s!"Cancel message must be 13 bytes, got {message_data.length}"
    else .ok (p.getPooledCancelMessage (word 1) (word 5) (word 9))
  else
    match other message_id message_data with
    | .error e => .error e
    | .ok m => .ok (p.create (.v2 m))

/-- The decoding of one frame in the loops of both decoders. -/
def decodeMessage (other : Fallback) (p : MessagePools) (message_data : Bytes) :
    Except String (Ref × MessagePools) :=
  match message_data with
  | [] => .ok (p.create (.peer .KeepAliveMessage))
  | [message_id] => p.decodeSimpleMessage message_id
  | message_id :: b :: payload =>
    p.decodeComplexMessage other message_id (message_id :: b :: payload)

end MessagePools

def parseSimple (message_id : UInt8) : Except String Message :=
  if message_id = MessageType.CHOKE.toByte then .ok (.peer .ChokeMessage)
  else if message_id = MessageType.UNCHOKE.toByte then .ok (.peer .UnchokeMessage)
  else if message_id = MessageType.INTERESTED.toByte then .ok (.peer .InterestedMessage)
  else if message_id = MessageType.NOT_INTERESTED.toByte then .ok (.peer .NotInterestedMessage)
  else .error s!"Unknown simple message type: {message_id}"

def parseComplex (other : Fallback) (message_id : UInt8) (message_data : Bytes) :
    Except String Message :=
  let word (i : Nat) : UInt32 := unpackI ((message_data.drop i).take 4)
  if message_id = MessageType.HAVE.toByte then
    if message_data.length ≠ 5 then
      .error s!"Have message must be 5 bytes, got {message_data.length}"
    else .ok (.peer (.HaveMessage (word 1)))
  else if message_id = MessageType.BITFIELD.toByte then
    if message_data.length < 1 then .error "Bitfield message too short"
    else .ok (.peer (.BitfieldMessage (message_data.drop 1)))
  else if message_id = MessageType.REQUEST.toByte then
    if message_data.length ≠ 13 then
      .error s!"Request message must be 13 bytes, got {message_data.length}"
    else .ok (.peer (.RequestMessage (word 1) (word 5) (word 9)))
  else if message_id = MessageType.PIECE.toByte then
    if message_data.length < 9 then .error "Piece message too short"
    else .ok (.peer (.PieceMessage (word 1) (word 5) (message_data.drop 9)))
  else if message_id = MessageType.CANCEL.toByte then
    if message_data.length ≠ 13 then
      .error s!"Cancel message must be 13 bytes, got {message_data.length}"
    else .ok (.peer (.CancelMessage (word 1) (word 5) (word 9)))
  else (other message_id message_data).map Message.v2

/-- What a frame says, apart from the objects. -/
def parse (other : Fallback) : Bytes → Except String Message
  | [] => .ok (.peer .KeepAliveMessage)
  | [message_id] => parseSimple message_id
  | message_id :: b :: payload => parseComplex other message_id (message_id :: b :: payload)

namespace MessagePools

/-- The messages without fields: their type says all of them. -/
def simpleMessages : List PeerMessage :=
  [.ChokeMessage, .UnchokeMessage, .InterestedMessage, .NotInterestedMessage]

theorem eq_of_mem_simpleMessages {m : PeerMessage} {o : Message} (hm : m ∈ simpleMessages)
    (h : o.message_id = m.message_id) : o = .peer m := by
  simp only [simpleMessages, List.mem_cons, List.not_mem_nil, or_false] at hm
  cases o with
  | peer o => obtain rfl | rfl | rfl | rfl := hm <;> cases o <;> cases h <;> rfl
  | v2 o => obtain rfl | rfl | rfl | rfl := hm <;> cases h

/-- A pooled object of a type without fields already says what it is. -/
theorem getPooledMessage_eq (p : MessagePools) {t : MessageType} {m : PeerMessage}
    (hsimple : m ∈ simpleMessages) (hm : m.message_id = some t)
    (hcreate : p.createSimple t = .ok (p.create (.peer m))) :
    p.getPooledMessage t = .ok (p.hand (.peer m)) := by
  rw [getPooledMessage]
  split
  · next ref rest h =>
    obtain ⟨href, hobjects, hpools⟩ := hand_pooled (m := .peer m) hm h
    obtain ⟨o, ho, hid⟩ := p.typed (t := t) (h ▸ List.mem_cons_self)
    obtain ⟨hlt, hget⟩ := List.getElem?_eq_some_iff.mp ho
    have hset : p.objects.set ref (.peer m) = p.objects := by
      rw [← eq_of_mem_simpleMessages hsimple (hid.trans hm.symm), ← hget, List.set_getElem_self]
    congr 1
    refine Prod.ext href.symm (MessagePools.ext ?_ ?_)
    · rw [hobjects, hset]
      rfl
    · funext s
      rw [hpools]
      rfl
  · next h =>
    rw [hcreate, hand_new]
    intro s hs
    obtain rfl : t = s := Option.some.inj (hm.symm.trans hs)
    exact h

theorem create_eq_hand (p : MessagePools) {m : PeerMessage}
    (h : ∀ t, m.message_id = some t → t.isPooled = false) :
    p.create (.peer m) = p.hand (.peer m) :=
  (hand_new (m := .peer m) fun t ht => p.unpooled (h t ht)).symm

theorem decodeSimpleMessage_eq (p : MessagePools) (message_id : UInt8) :
    p.decodeSimpleMessage message_id = (parseSimple message_id).map p.hand := by
  rw [decodeSimpleMessage, parseSimple]
  split
  · exact getPooledMessage_eq p (by decide) rfl rfl
  split
  · exact getPooledMessage_eq p (by decide) rfl rfl
  split
  · exact getPooledMessage_eq p (by decide) rfl rfl
  split
  · exact getPooledMessage_eq p (by decide) rfl rfl
  · rfl

theorem decodeComplexMessage_eq (other : Fallback) (p : MessagePools) (message_id : UInt8)
    (message_data : Bytes) :
    p.decodeComplexMessage other message_id message_data =
      (parseComplex other message_id message_data).map p.hand := by
  rw [decodeComplexMessage, parseComplex]
  split
  · split <;> rfl
  split
  · split
    · rfl
    · rw [create_eq_hand p (by rintro t ⟨⟩; rfl)]
      rfl
  split
  · split <;> rfl
  split
  · split
    · rfl
    · rw [create_eq_hand p (by rintro t ⟨⟩; rfl)]
      rfl
  split
  · split <;> rfl
  · cases other message_id message_data <;> rfl

/-- A frame is decoded into the object that is handed over for what it says. -/
theorem decodeMessage_eq (other : Fallback) (p : MessagePools) (message_data : Bytes) :
    p.decodeMessage other message_data = (parse other message_data).map p.hand := by
  match message_data with
  | [] => rfl
  | [message_id] => exact p.decodeSimpleMessage_eq message_id
  | message_id :: b :: payload => exact p.decodeComplexMessage_eq other message_id _

end MessagePools

/-- `OptimizedMessageDecoder._decode_v2_message`. The classes take their octets from the
message id on, and are given those after it. -/
def decodeV2Message : Fallback := fun message_id message_data =>
  let payload := message_data.drop 1
  if message_id = MESSAGE_ID_PIECE_LAYER_REQUEST then PieceLayerRequest.deserialize payload
  else if message_id = MESSAGE_ID_PIECE_LAYER_RESPONSE then PieceLayerResponse.deserialize payload
  else if message_id = MESSAGE_ID_FILE_TREE_REQUEST then FileTreeRequest.deserialize payload
  else if message_id = MESSAGE_ID_FILE_TREE_RESPONSE then FileTreeResponse.deserialize payload
  else .error s!"Unknown v2 message type: {message_id}"

/-- The end of `AsyncMessageDecoder._decode_complex_message`. -/
def unknownMessage : Fallback := fun message_id _ =>
  .error s!"Unknown complex message type: {message_id}"

structure OptimizedMessageDecoder where
  pools : MessagePools
  buffer : Bytes

namespace OptimizedMessageDecoder

/-- The loop of `add_data`, at most `n` rounds of it. An exception leaves the loop before the
frame is removed from the buffer. -/
def addDataLoop : Nat → OptimizedMessageDecoder → List Ref →
    Except String (List Ref) × OptimizedMessageDecoder
  | 0, d, messages => (.ok messages, d)
  | n + 1, d, messages =>
    match Frame.split d.buffer with
    | none => (.ok messages, d)
    | some (frame, rest) =>
      match d.pools.decodeMessage decodeV2Message frame.body with
      | .error e => (.error e, d)
      | .ok (message, pools) => addDataLoop n ⟨pools, rest⟩ (messages ++ [message])

/-- `add_data`: what it returns or raises, and the decoder afterwards. -/
def addData (d : OptimizedMessageDecoder) (data : Bytes) :
    Except String (List Ref) × OptimizedMessageDecoder :=
  addDataLoop (d.buffer ++ data).length { d with buffer := d.buffer ++ data } []

/-- One call for each chunk, whatever the calls before it raised. The objects are those that
the calls returned. -/
def addAll (d : OptimizedMessageDecoder) : List Bytes → List Ref × OptimizedMessageDecoder
  | [] => ([], d)
  | chunk :: chunks =>
    let (returned, d) := d.addData chunk
    let (messages, d) := addAll d chunks
    match returned with
    | .ok first => (first ++ messages, d)
    | .error _ => (messages, d)

end OptimizedMessageDecoder

/-- The decoder together with the consumer of its queue. -/
structure AsyncMessageDecoder where
  pools : MessagePools
  buffer : Bytes := []
  message_queue : List Ref := []
  /-- What the consumer has taken from the queue. -/
  taken : List Ref := []

namespace AsyncMessageDecoder

def maxsize : Nat := 1000

def getMessage (d : AsyncMessageDecoder) : AsyncMessageDecoder :=
  match d.message_queue with
  | [] => d
  | message :: queue => { d with message_queue := queue, taken := d.taken ++ [message] }

/-- `await message_queue.put(message)`: on a full queue it waits for the consumer. -/
def put (d : AsyncMessageDecoder) (message : Ref) : AsyncMessageDecoder :=
  let d := if d.message_queue.length < maxsize then d else d.getMessage
  { d with message_queue := d.message_queue ++ [message] }

/-- The loop of `_process_buffer`, at most `n` rounds of it. An exception is logged, and the
frame is removed from the buffer all the same. -/
def processBuffer : Nat → AsyncMessageDecoder → AsyncMessageDecoder
  | 0, d => d
  | n + 1, d =>
    match Frame.split d.buffer with
    | none => d
    | some (frame, rest) =>
      match d.pools.decodeMessage unknownMessage frame.body with
      | .error _ => processBuffer n { d with buffer := rest }
      | .ok (message, pools) =>
        processBuffer n { put { d with pools := pools } message with buffer := rest }

def feedData (d : AsyncMessageDecoder) (data : Bytes) : AsyncMessageDecoder :=
  processBuffer (d.buffer ++ data).length { d with buffer := d.buffer ++ data }

/-- What was handed over so far, in order: what was taken from the queue and what is in it. -/
def output (d : AsyncMessageDecoder) : List Ref := d.taken ++ d.message_queue

end AsyncMessageDecoder

end Peer

end Ccbt
