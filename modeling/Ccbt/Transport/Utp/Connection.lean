import Ccbt.Python.Dict
import Ccbt.Transport.Utp.Packet

/-!
# uTP connections: `UTPConnection` of `transport/utp.py`

Every method takes the connection to its next state. The datagrams that a method
hands to the UDP transport are appended to `transport`. `now` is the value of
`_get_timestamp_microseconds()` during the call. Round-trip times, rates and
statistics are not part of the state: no method modelled here branches on them.
Whether a packet's retransmission is due depends on them, so it is an argument of
`checkRetransmissions`.
-/

namespace Ccbt

open Python

namespace Utp

/-- A host and a port. -/
abbrev Addr := String × Nat

inductive UTPConnectionState
  | IDLE
  | SYN_SENT
  | SYN_RECEIVED
  | CONNECTED
  | FIN_SENT
  | FIN_RECEIVED
  | CLOSED
  | RESET
  deriving DecidableEq

/-- `config.network.utp`. The bound that the configuration model checks for
`max_window_size` does not hold of a value that an override assigns. -/
structure UTPConfig where
  mtu : Nat := 1200
  max_window_size : Nat := 65535
  max_retransmits : Nat := 10
  mtu_ge : 576 ≤ mtu := by decide

structure UTPConnection where
  config : UTPConfig
  remote_addr : Addr
  connection_id : UInt16
  recv_window : UInt32 := 65535
  state : UTPConnectionState := .IDLE
  remote_connection_id : UInt16 := 0
  seq_nr : UInt16 := 0
  ack_nr : UInt16 := 0
  send_window : Nat := 0
  max_unacked_packets : Nat := 100
  last_timestamp_diff : UInt32 := 0
  retransmitted_packets : List UInt16 := []
  /-- Packets that wait for an acknowledgment, with their retry counts. -/
  send_buffer : Dict UInt16 (OutgoingPacket × Nat) := Dict.empty
  /-- Packets that arrived out of order. -/
  recv_buffer : Dict UInt16 UTPPacket := Dict.empty
  recv_buffer_expected_seq : UInt16 := 0
  recv_data_buffer : Bytes := []
  received_seqs : List UInt16 := []
  duplicate_acks : Nat := 0
  last_ack_nr : UInt16 := 0
  pending_acks : List OutgoingPacket := []
  ack_packet_count : Nat := 0
  supported_extensions : List UTPExtensionType := [.SACK, .WINDOW_SCALING, .ECN]
  negotiated_extensions : List UTPExtensionType := []
  window_scale : Nat := 0
  ecn_ce_received : Bool := false
  ecn_echo : Bool := false
  ecn_cwr : Bool := false
  transport : List OutgoingPacket := []

namespace UTPConnection

def sendPacket (c : UTPConnection) (p : OutgoingPacket) (now : UInt32) : UTPConnection :=
  { c with transport := c.transport ++ [p.setTimestamp now] }

/-- The connection once what it has sent is with the transport. -/
def flushed (c : UTPConnection) : UTPConnection := { c with transport := [] }

/-! ### Handshake -/

/-- The scale factor loop of `_advertise_extensions`, at most `n` rounds of it. -/
def scaleLoop (max_window : Nat) : Nat → ScaleFactor → ScaleFactor
  | 0, scale_factor => scale_factor
  | n + 1, scale_factor =>
    if 65535 < max_window >>> scale_factor.val ∧ scale_factor.val < 14 then
      scaleLoop max_window n (scale_factor + 1)
    else scale_factor

def advertiseExtensions (c : UTPConnection) : List UTPExtension :=
  (if .ECN ∈ c.supported_extensions then [.ecn false false] else []) ++
  (if .WINDOW_SCALING ∈ c.supported_extensions then
    let scale_factor := scaleLoop c.config.max_window_size 14 0
    if 0 < scale_factor then [.windowScaling scale_factor] else []
  else [])

/-- One round of `_process_extension_negotiation`. -/
def negotiate (c : UTPConnection) : UTPExtension → UTPConnection
  | .windowScaling scale_factor =>
    if .WINDOW_SCALING ∈ c.supported_extensions then
      { c with
        window_scale := if c.window_scale = 0 then scale_factor
          else min scale_factor.val c.window_scale
        negotiated_extensions := c.negotiated_extensions.insert .WINDOW_SCALING }
    else c
  | .sack _ _ =>
    if .SACK ∈ c.supported_extensions then
      { c with negotiated_extensions := c.negotiated_extensions.insert .SACK }
    else c
  | .ecn _ _ =>
    if .ECN ∈ c.supported_extensions then
      { c with negotiated_extensions := c.negotiated_extensions.insert .ECN }
    else c

def processExtensionNegotiation (c : UTPConnection) (peer_extensions : List UTPExtension) :
    UTPConnection :=
  peer_extensions.foldl negotiate c

/-- The window that the peer advertises in a packet, scaled as negotiated. -/
def updateSendWindow (c : UTPConnection) (packet : UTPPacket) : UTPConnection :=
  { c with
    send_window := if 0 < c.window_scale then packet.wnd_size.toNat <<< c.window_scale
      else packet.wnd_size.toNat }

def synPacket (c : UTPConnection) (ack_nr : UInt16) : OutgoingPacket :=
  { type := UTPPacketType.ST_SYN.toByte
    connection_id := c.connection_id
    seq_nr := 0
    ack_nr := ack_nr
    wnd_size := c.recv_window
    extensions := c.advertiseExtensions
    type_le := UTPPacketType.toByte_le _ }

/-- `connect`, up to the point where it waits for the SYN-ACK. -/
def connect (c : UTPConnection) (now : UInt32) : UTPConnection :=
  let c := { c with state := .SYN_SENT }
  let syn_packet := c.synPacket 0
  let c := c.sendPacket syn_packet now
  { c with send_buffer := c.send_buffer.set 0 (syn_packet.setTimestamp now, 0) }

def completeHandshake (c : UTPConnection) : UTPConnection :=
  { c with
    state := .CONNECTED
    seq_nr := 1
    send_buffer := c.send_buffer.erase 0 }

def handleSynAck (c : UTPConnection) (packet : UTPPacket) (now : UInt32) : UTPConnection :=
  if c.state ≠ .SYN_SENT then c
  else
    let c := { c with remote_connection_id := packet.connection_id }
    let c := c.processExtensionNegotiation packet.extensions
    let c := c.updateSendWindow packet
    let ack_packet : OutgoingPacket :=
      { type := UTPPacketType.ST_STATE.toByte
        connection_id := c.connection_id
        seq_nr := 1
        ack_nr := 1
        wnd_size := c.recv_window
        type_le := UTPPacketType.toByte_le _ }
    (c.sendPacket ack_packet now).completeHandshake

def sendSynAck (c : UTPConnection) (peer_seq_nr : UInt16) (now : UInt32) : UTPConnection :=
  let syn_ack_packet := c.synPacket peer_seq_nr
  let c := { c with send_buffer := c.send_buffer.set 0 (syn_ack_packet.setTimestamp now, 0) }
  c.sendPacket syn_ack_packet now

def handleSyn (c : UTPConnection) (packet : UTPPacket) (now : UInt32) : UTPConnection :=
  if c.state ≠ .IDLE ∧ c.state ≠ .SYN_RECEIVED then c
  else
    let c := { c with
      remote_connection_id := packet.connection_id
      send_window := packet.wnd_size.toNat
      ack_nr := packet.seq_nr }
    let c := c.processExtensionNegotiation packet.extensions
    let c := c.sendSynAck packet.seq_nr now
    if c.state = .IDLE then { c with state := .SYN_RECEIVED } else c

/-! ### Sending -/

def canSend (c : UTPConnection) : Bool :=
  if c.max_unacked_packets ≤ c.send_buffer.size then false
  else ¬c.send_window ≤ c.send_buffer.size * 1200

def payloadSize (c : UTPConnection) : Nat := c.config.mtu - UTPPacket.HEADER_SIZE

/-- The data packet for a chunk, under the number that `seq_nr` has been moved to. -/
def dataPacket (c : UTPConnection) (chunk : Bytes) : OutgoingPacket :=
  { type := UTPPacketType.ST_DATA.toByte
    connection_id := c.connection_id
    seq_nr := c.seq_nr
    ack_nr := c.ack_nr
    wnd_size := c.recv_window
    data := chunk
    type_le := UTPPacketType.toByte_le _ }

/-- The loop body of `send` behind its `_can_send` test. -/
def sendChunk (c : UTPConnection) (chunk : Bytes) (now : UInt32) : UTPConnection :=
  let c := { c with seq_nr := c.seq_nr + 1 }
  let packet := c.dataPacket chunk
  let c := { c with send_buffer := c.send_buffer.set c.seq_nr (packet.setTimestamp now, 0) }
  c.sendPacket packet now

/-- One round of the loop of `send` on the data that is left: the connection and
the data left for the next round. The chunk is taken off the data before the test,
so where `_can_send` fails the loop waits and goes on behind the chunk. -/
def sendRound (c : UTPConnection) (data : Bytes) (now : UInt32) : UTPConnection × Bytes :=
  let chunk := data.take c.payloadSize
  let rest := data.drop c.payloadSize
  if c.canSend then (c.sendChunk chunk now, rest) else (c, rest)

/-! ### Acknowledgments -/

def isSequenceAcked (seq ack_nr : UInt16) : Bool :=
  if ack_nr < 0x8000 then seq ≤ ack_nr
  else seq ≤ ack_nr ∨ seq < ack_nr + 0x8000

/-- The numbers of a block: `range(block.start_seq, block.end_seq)`. -/
def blockRange (block : SACKBlock) : List UInt16 :=
  (List.range' block.start_seq.toNat (block.end_seq.toNat - block.start_seq.toNat)).map
    UInt16.ofNat

def processSackBlocks (c : UTPConnection) (sack_blocks : List SACKBlock) : UTPConnection :=
  { c with
    send_buffer := sack_blocks.foldl (fun buffer block =>
      (blockRange block).foldl Dict.erase buffer) c.send_buffer }

/-- Send a buffered packet again. -/
def resend (c : UTPConnection) (seq : UInt16) (now : UInt32) : UTPConnection :=
  match c.send_buffer.get? seq with
  | none => c
  | some (packet, retry_count) =>
    let c := c.sendPacket packet now
    { c with send_buffer := c.send_buffer.set seq (packet.setTimestamp now, retry_count + 1) }

def oldestSeq (c : UTPConnection) : Option UInt16 :=
  (sortOn UInt16.toNat c.send_buffer.keys).head?

def fastRetransmit (c : UTPConnection) (now : UInt32) : UTPConnection :=
  match c.oldestSeq with
  | none => c
  | some oldest_seq =>
    let c := { c with retransmitted_packets := c.retransmitted_packets.insert oldest_seq }
    { c.resend oldest_seq now with duplicate_acks := 0 }

/-- The extensions of an acknowledgment; an ECN echo is only logged. -/
def processStateExtensions (c : UTPConnection) (extensions : List UTPExtension) :
    UTPConnection :=
  extensions.foldl (fun c ext =>
    match ext with
    | .sack blocks _ => c.processSackBlocks blocks
    | _ => c) c

/-- The duplicate test of `_handle_state_packet`. -/
def countDuplicate (c : UTPConnection) (ack_nr : UInt16) (now : UInt32) : UTPConnection :=
  if ack_nr = c.last_ack_nr then
    let c := { c with duplicate_acks := c.duplicate_acks + 1 }
    if 3 ≤ c.duplicate_acks then c.fastRetransmit now else c
  else { c with duplicate_acks := 0, last_ack_nr := ack_nr }

/-- The packets that an acknowledgment takes out of the send buffer. -/
def removeAcked (c : UTPConnection) (acked_seq : UInt16) : UTPConnection :=
  { c with
    send_buffer := (c.send_buffer.keys.filter (isSequenceAcked · acked_seq)).foldl
      Dict.erase c.send_buffer }

def handleStatePacket (c : UTPConnection) (packet : UTPPacket) (now : UInt32) :
    UTPConnection :=
  if c.state = .SYN_RECEIVED ∧ packet.ack_nr = 0 then c.completeHandshake
  else
    let c := c.processStateExtensions packet.extensions
    let c := c.updateSendWindow packet
    let c := c.countDuplicate packet.ack_nr now
    c.removeAcked packet.ack_nr

/-! ### Receiving -/

/-- A block as `_generate_sack_blocks` ends it: `0` as its end is a number that has
wrapped around, and no block can say so. -/
def closeBlock (block_start block_end : UInt16) : List SACKBlock :=
  if block_start = block_end then []
  else if block_end = 0 then
    if block_start < 0xFFFF then (SACKBlock.new block_start 0xFFFF).toList else []
  else (SACKBlock.new block_start block_end).toList

/-- The loop of `_generate_sack_blocks` over the sorted numbers. -/
def sackLoop (block_start block_end : UInt16) : List UInt16 → List SACKBlock
  | [] => closeBlock block_start block_end
  | seq :: seqs =>
    if seq = block_end then sackLoop block_start (seq + 1) seqs
    else closeBlock block_start block_end ++ sackLoop seq (seq + 1) seqs

def generateSackBlocks (c : UTPConnection) : List SACKBlock :=
  match sortOn UInt16.toNat c.received_seqs with
  | [] => []
  | seq :: seqs => (sackLoop seq (seq + 1) seqs).take 4

/-- The extensions of an acknowledgment. -/
def ackExtensions (c : UTPConnection) : List UTPExtension :=
  (if .SACK ∈ c.negotiated_extensions ∧ c.received_seqs ≠ [] then
    if c.generateSackBlocks ≠ [] then [UTPExtension.newSack c.generateSackBlocks] else []
  else []) ++
  (if .ECN ∈ c.negotiated_extensions ∧ (c.ecn_echo ∨ c.ecn_cwr) then
    [.ecn c.ecn_echo c.ecn_cwr]
  else [])

def ackPacket (c : UTPConnection) : OutgoingPacket :=
  { type := UTPPacketType.ST_STATE.toByte
    connection_id := c.connection_id
    seq_nr := c.seq_nr
    ack_nr := c.ack_nr
    wnd_size := c.recv_window
    timestamp_diff := c.last_timestamp_diff
    extensions := c.ackExtensions
    type_le := UTPPacketType.toByte_le _ }

/-- `_should_send_immediate_ack`, with the count that it moves. -/
def shouldSendImmediateAck (c : UTPConnection) (packet : UTPPacket) : UTPConnection × Bool :=
  if packet.seq_nr ≠ c.recv_buffer_expected_seq then (c, true)
  else
    let c := { c with ack_packet_count := c.ack_packet_count + 1 }
    (c, 2 ≤ c.ack_packet_count)

/-- The congestion flags once they have been sent. -/
def resetEcnFlags (c : UTPConnection) : UTPConnection :=
  if .ECN ∈ c.negotiated_extensions ∧ (c.ecn_echo ∨ c.ecn_cwr) then
    { c with ecn_echo := false, ecn_cwr := false }
  else c

/-- `_send_ack(packet, immediate=False)` -/
def sendAck (c : UTPConnection) (packet : UTPPacket) (now : UInt32) : UTPConnection :=
  let (c, immediate) := c.shouldSendImmediateAck packet
  if immediate then
    { c.resetEcnFlags.sendPacket c.ackPacket now with pending_acks := [], ack_packet_count := 0 }
  else { c.resetEcnFlags with pending_acks := [c.ackPacket] }

def sendBatchedAcks (c : UTPConnection) (now : UInt32) : UTPConnection :=
  match c.pending_acks.getLast? with
  | none => c
  | some latest_ack =>
    { c.sendPacket latest_ack now with pending_acks := [], ack_packet_count := 0 }

/-- The loop of `_process_out_of_order_packets`, at most `n` rounds of it. -/
def drain : Nat → UTPConnection → UTPConnection
  | 0, c => c
  | n + 1, c =>
    match c.recv_buffer.get? c.recv_buffer_expected_seq with
    | none => c
    | some packet =>
      drain n { c with
        recv_buffer := c.recv_buffer.erase c.recv_buffer_expected_seq
        recv_data_buffer := c.recv_data_buffer ++ packet.data
        recv_buffer_expected_seq := c.recv_buffer_expected_seq + 1 }

/-- Every round takes a packet out of the buffer, so its size is enough rounds. -/
def processOutOfOrderPackets (c : UTPConnection) : UTPConnection := drain c.recv_buffer.size c

/-- The test of `_handle_data_packet` that lets a number become the new `ack_nr`. -/
def movesAck (ack_nr seq_nr : UInt16) : Bool :=
  ack_nr < seq_nr ∨ (seq_nr < ack_nr ∧ 0x8000 < seq_nr)

/-- The first two steps of `_handle_data_packet`: `ack_nr` and the numbers for SACK. -/
def noteReceived (c : UTPConnection) (seq_nr : UInt16) : UTPConnection :=
  { c with
    ack_nr := if movesAck c.ack_nr seq_nr then seq_nr else c.ack_nr
    received_seqs := if .SACK ∈ c.negotiated_extensions then c.received_seqs.insert seq_nr
      else c.received_seqs }

/-- Where `_handle_data_packet` puts the payload. -/
def storeData (c : UTPConnection) (packet : UTPPacket) : UTPConnection :=
  if packet.seq_nr = c.recv_buffer_expected_seq then
    processOutOfOrderPackets { c with
      recv_data_buffer := c.recv_data_buffer ++ packet.data
      recv_buffer_expected_seq := c.recv_buffer_expected_seq + 1 }
  else { c with recv_buffer := c.recv_buffer.set packet.seq_nr packet }

def handleDataPacket (c : UTPConnection) (packet : UTPPacket) (now : UInt32) :
    UTPConnection :=
  ((c.noteReceived packet.seq_nr).storeData packet).sendAck packet now

/-- `receive(max_bytes)`, or `none` where it waits for more data. -/
def receive (c : UTPConnection) (max_bytes : Int) : Option (Bytes × UTPConnection) :=
  if max_bytes < 0 then
    if c.recv_data_buffer = [] then none
    else some (c.recv_data_buffer, { c with recv_data_buffer := [] })
  else if c.recv_data_buffer.length < max_bytes.toNat then none
  else some (c.recv_data_buffer.take max_bytes.toNat,
    { c with recv_data_buffer := c.recv_data_buffer.drop max_bytes.toNat })

/-! ### Closing and timers -/

def finPacket (c : UTPConnection) : OutgoingPacket :=
  { type := UTPPacketType.ST_FIN.toByte
    connection_id := c.connection_id
    seq_nr := c.seq_nr
    ack_nr := c.ack_nr
    wnd_size := c.recv_window
    type_le := UTPPacketType.toByte_le _ }

def close (c : UTPConnection) (now : UInt32) : UTPConnection :=
  if c.state = .CLOSED ∨ c.state = .RESET then c
  else
    let c := if c.state = .CONNECTED then { c.sendPacket c.finPacket now with state := .FIN_SENT }
      else c
    { c.sendBatchedAcks now with state := .CLOSED }

/-- `_handle_fin_packet`, with the task that it starts. -/
def handleFinPacket (c : UTPConnection) (now : UInt32) : UTPConnection :=
  if c.state = .CONNECTED then
    let c := { c with state := .FIN_RECEIVED }
    (c.sendPacket c.finPacket now).close now
  else c

/-- `_handle_reset_packet`: the task that it starts finds the connection reset and returns. -/
def handleResetPacket (c : UTPConnection) : UTPConnection := { c with state := .RESET }

/-- The first loop of `_check_retransmissions` over the entries of the send buffer: the
numbers to send again, and none with a closed connection after too many retries. -/
def collectExpired (expired : UInt16 → Nat → Bool) :
    List (UInt16 × OutgoingPacket × Nat) → UTPConnection → List UInt16 →
      UTPConnection × List UInt16
  | [], c, retransmit_list => (c, retransmit_list)
  | (seq, _, retry_count) :: entries, c, retransmit_list =>
    if expired seq retry_count then
      if c.config.max_retransmits ≤ retry_count then ({ c with state := .CLOSED }, [])
      else collectExpired expired entries
        { c with retransmitted_packets := c.retransmitted_packets.insert seq }
        (retransmit_list ++ [seq])
    else collectExpired expired entries c retransmit_list

/-- `_check_retransmissions`; `expired` is its comparison of times. -/
def checkRetransmissions (c : UTPConnection) (expired : UInt16 → Nat → Bool) (now : UInt32) :
    UTPConnection :=
  let (c, retransmit_list) := collectExpired expired c.send_buffer.entries c []
  retransmit_list.foldl (fun c seq => c.resend seq now) c

/-! ### Dispatch -/

/-- `_handle_ecn_congestion`. The product with `0.8` is exact far beyond the windows that
a header can advertise, so `int` cuts it off at four fifths. -/
def handleEcnCongestion (c : UTPConnection) : UTPConnection :=
  if .ECN ∈ c.negotiated_extensions then
    let current_window := if 0 < c.send_window then c.send_window else 1500
    { c with send_window := max 2 (current_window * 4 / 5), ecn_cwr := true }
  else c

/-- The part of `_update_rtt` that other methods read. -/
def updateRtt (c : UTPConnection) (packet : UTPPacket) : UTPConnection :=
  if packet.ack_nr ∈ c.retransmitted_packets then c
  else if 0 < packet.timestamp_diff then
    { c with last_timestamp_diff := packet.timestamp_diff }
  else c

/-- `_handle_packet` on the congestion flag of the IP header. -/
def noteEcn (c : UTPConnection) (ecn_ce : Bool) : UTPConnection :=
  if ecn_ce then { c with ecn_ce_received := true, ecn_echo := true }.handleEcnCongestion else c

/-- `_handle_packet` on the acknowledgment of a buffered packet. -/
def noteAck (c : UTPConnection) (packet : UTPPacket) : UTPConnection :=
  if packet.type = UTPPacketType.ST_STATE.toByte ∧ 0 < packet.ack_nr ∧
      c.send_buffer.contains packet.ack_nr then c.updateRtt packet
  else c

/-- The last part of `_handle_packet`. -/
def route (c : UTPConnection) (packet : UTPPacket) (now : UInt32) : UTPConnection :=
  if packet.type = UTPPacketType.ST_SYN.toByte then
    if c.state = .SYN_SENT then c.handleSynAck packet now
    else if c.state = .IDLE ∨ c.state = .SYN_RECEIVED then c.handleSyn packet now
    else c
  else if packet.type = UTPPacketType.ST_STATE.toByte then c.handleStatePacket packet now
  else if packet.type = UTPPacketType.ST_DATA.toByte then c.handleDataPacket packet now
  else if packet.type = UTPPacketType.ST_FIN.toByte then c.handleFinPacket now
  else if packet.type = UTPPacketType.ST_RESET.toByte then c.handleResetPacket
  else c

def handlePacket (c : UTPConnection) (packet_data : Bytes) (ecn_ce : Bool) (now : UInt32) :
    UTPConnection :=
  match UTPPacket.unpack packet_data with
  | .error _ => c
  | .ok packet => ((c.noteEcn ecn_ce).noteAck packet).route packet now

end UTPConnection

end Utp

end Ccbt
