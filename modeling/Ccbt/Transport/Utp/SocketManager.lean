import Ccbt.Transport.Utp.Connection

/-!
# The uTP socket: `UTPSocketManager` of `transport/utp_socket.py`

The tables of a manager refer to connection objects, so the objects have a list of
their own and the tables hold positions in it. All connections send through the
one socket; `transport` is what has been sent, with the addresses. The task that
handles an incoming SYN has no point where it waits and is run at once.
-/

namespace Ccbt

open Python

namespace Utp

/-- What `random.randint(0x0001, 0xFFFE)` returns. -/
abbrev RandomId := { id : UInt16 // 0x0001 ≤ id ∧ id ≤ 0xFFFE }

structure UTPSocketManager where
  config : UTPConfig
  objects : List UTPConnection := []
  connections : Dict (Addr × UInt16) Nat := Dict.empty
  pending_connections : Dict UInt16 Nat := Dict.empty
  active_connection_ids : List UInt16 := []
  transport : List (Bytes × Addr) := []

namespace UTPSocketManager

def call (m : UTPSocketManager) (ref : Nat) (method : UTPConnection → UTPConnection) :
    UTPSocketManager :=
  match m.objects[ref]? with
  | none => m
  | some c =>
    let c' := method c.flushed
    { m with
      objects := m.objects.set ref c'
      transport := m.transport ++ c'.transport.map (fun p => (p.bytes, c'.remote_addr)) }

def registerConnection (m : UTPSocketManager) (connection : UTPConnection)
    (remote_addr : Addr) (connection_id : UInt16) : UTPSocketManager :=
  let ref := m.objects.length
  { m with
    objects := m.objects ++ [connection]
    connections := m.connections.set (remote_addr, connection_id) ref
    pending_connections := m.pending_connections.set connection_id ref
    active_connection_ids := m.active_connection_ids.insert connection_id }

/-- `_generate_connection_id`, or `none` where it raises. -/
def generateConnectionId (m : UTPSocketManager) (randint : Nat → RandomId) : Option UInt16 :=
  ((List.range 100).map (fun k => (randint k).val)).find? (· ∉ m.active_connection_ids)

/-- The connection that `_handle_incoming_syn` makes. -/
def acceptedConnection (m : UTPSocketManager) (packet : UTPPacket) (addr : Addr)
    (connection_id local_conn_id : UInt16) : UTPConnection :=
  { config := m.config
    remote_addr := addr
    connection_id := local_conn_id
    state := .SYN_RECEIVED
    remote_connection_id := connection_id
    ack_nr := packet.seq_nr
    send_window := packet.wnd_size.toNat }

def handleIncomingSyn (m : UTPSocketManager) (packet_data : Bytes) (addr : Addr)
    (connection_id : UInt16) (randint : Nat → RandomId) (now : UInt32) : UTPSocketManager :=
  match UTPPacket.unpack packet_data with
  | .error _ => m
  | .ok packet =>
    if packet.type ≠ UTPPacketType.ST_SYN.toByte then m
    else
      match m.generateConnectionId randint with
      | none => m
      | some local_conn_id =>
        let conn := m.acceptedConnection packet addr connection_id local_conn_id
        (m.registerConnection conn addr local_conn_id).call m.objects.length
          (·.sendSynAck packet.seq_nr now)

/-- The tables of `_handle_incoming_packet`: by address and number, then by number. -/
def lookup (m : UTPSocketManager) (addr : Addr) (connection_id : UInt16) : Option Nat :=
  match m.connections.get? (addr, connection_id) with
  | some ref => some ref
  | none => m.pending_connections.get? connection_id

/-- Another address has a connection under the number. -/
def collides (m : UTPSocketManager) (addr : Addr) (connection_id : UInt16) : Bool :=
  connection_id ∈ m.active_connection_ids ∧
    m.connections.keys.any (fun key => key.2 = connection_id ∧ key.1 ≠ addr)

/-- The connection number in a datagram: `struct.unpack("!H", data[4:6])`. -/
def datagramId (data : Bytes) : UInt16 := unpackH (UTPPacket.field data 4 2)

def handleIncomingPacket (m : UTPSocketManager) (data : Bytes) (addr : Addr) (ecn_ce : Bool)
    (randint : Nat → RandomId) (now : UInt32) : UTPSocketManager :=
  if data.length < 20 then m
  else
    let connection_id := datagramId data
    match m.lookup addr connection_id with
    | some ref => m.call ref (·.handlePacket data ecn_ce now)
    | none =>
      if m.collides addr connection_id then m
      else if data.head? = some UTPPacketType.ST_SYN.toByte then
        m.handleIncomingSyn data addr connection_id randint now
      else m

/-- A new connection that registers itself (`initialize_transport`) and connects. -/
def initiate (m : UTPSocketManager) (remote_addr : Addr) (connection_id : UInt16)
    (now : UInt32) : UTPSocketManager :=
  let conn : UTPConnection :=
    { config := m.config, remote_addr := remote_addr, connection_id := connection_id }
  (m.registerConnection conn remote_addr connection_id).call m.objects.length (·.connect now)

/-- The datagrams that a step has sent to an address. -/
def sentTo (before after : UTPSocketManager) (addr : Addr) : List Bytes :=
  ((after.transport.drop before.transport.length).filter (·.2 = addr)).map (·.1)

/-- Handle datagrams from one address in order, each once. -/
def handleAll (m : UTPSocketManager) (datagrams : List Bytes) (addr : Addr)
    (randint : Nat → RandomId) (now : UInt32) : UTPSocketManager :=
  datagrams.foldl (fun m data => m.handleIncomingPacket data addr false randint now) m

end UTPSocketManager

end Utp

end Ccbt
