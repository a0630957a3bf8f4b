import Ccbt.Python.Bytes
import Ccbt.Python.Text
import Ccbt.Transition.Run

/-!
# The messages of NAT-PMP

The client of `nat/natpmp.py` and a gateway that follows RFC 6886: the opcode of an answer is 128 more
than that of its request. A call blocks until it has an answer or three attempts have timed out. The
gateway has been found, and every datagram comes from it.
-/

namespace Ccbt.Natpmp

open Python Transition

section Messages

inductive Protocol
  | tcp
  | udp
deriving DecidableEq

def NAT_PMP_VERSION : UInt8 := 0

def NAT_PMP_MAX_RETRIES : Nat := 3

def PUBLIC_ADDRESS_REQUEST : UInt8 := 0

def UDP_MAPPING_REQUEST : UInt8 := 1

def TCP_MAPPING_REQUEST : UInt8 := 2

/-- `NATPMPResult(result).name`, or the text for a number that is none. -/
def errorName (result : UInt16) : Str :=
  match result.toNat with
  | 0 => "SUCCESS".toList
  | 1 => "UNSUPPORTED_VERSION".toList
  | 2 => "NOT_AUTHORIZED".toList
  | 3 => "NETWORK_FAILURE".toList
  | 4 => "OUT_OF_RESOURCES".toList
  | 5 => "UNSUPPORTED_OPCODE".toList
  | n => "Unknown(".toList ++ strInt n ++ ")".toList

structure NATPMPPortMapping where
  internal_port : UInt16
  external_port : UInt16
  lifetime : UInt32
  protocol : Protocol
deriving DecidableEq

def encodePublicAddressRequest : Bytes := [NAT_PMP_VERSION, PUBLIC_ADDRESS_REQUEST]

def packPort (n : Int) : Option Bytes :=
  if 0 ≤ n ∧ n < 2 ^ 16 then some (packH (.ofNat n.toNat)) else none

/-- The `I` of a format, or `none` where `struct.pack` raises. -/
def packLifetime (n : Int) : Option Bytes :=
  if 0 ≤ n ∧ n < 2 ^ 32 then some (packI (.ofNat n.toNat)) else none

def Protocol.opcode : Protocol → UInt8
  | .tcp => TCP_MAPPING_REQUEST
  | .udp => UDP_MAPPING_REQUEST

def encodePortMappingRequest (internal_port external_port lifetime : Int) (protocol : Protocol) :
    Option Bytes := do
  let internal ← packPort internal_port
  let external ← packPort external_port
  let seconds ← packLifetime lifetime
  return NAT_PMP_VERSION :: protocol.opcode :: (packH 0 ++ internal ++ external ++ seconds)

/-- The address and the seconds, or the text of what is raised. -/
def decodePublicAddressResponse (data : Bytes) : Except Str (UInt32 × UInt32) :=
  if data.length < 12 then .error "Response too short".toList
  else
    let result := unpackH ((data.drop 2).take 2)
    let seconds := unpackI ((data.drop 4).take 4)
    let ip_int := unpackI ((data.drop 8).take 4)
    if result ≠ 0 then .error ("NAT-PMP error: ".toList ++ errorName result)
    else .ok (ip_int, seconds)

def decodePortMappingResponse (data : Bytes) : Except Str NATPMPPortMapping :=
  if data.length < 16 then .error "Response too short".toList
  else
    let opcode := data[1]?
    let result := unpackH ((data.drop 2).take 2)
    let internal_port := unpackH ((data.drop 8).take 2)
    let external_port := unpackH ((data.drop 10).take 2)
    let lifetime := unpackI ((data.drop 12).take 4)
    if result ≠ 0 then .error ("NAT-PMP error: ".toList ++ errorName result)
    else .ok {
      internal_port
      external_port
      lifetime
      protocol := if opcode = some TCP_MAPPING_REQUEST then .tcp else .udp }

end Messages

section Gateway

inductive Request
  | address
  | mapping (protocol : Protocol) (internal_port external_port : UInt16) (lifetime : UInt32)

def Request.parse (data : Bytes) : Option Request :=
  match data with
  | [0, 0] => some .address
  | 0 :: opcode :: fields =>
    if fields.length ≠ 10 then none
    else
      let request (protocol : Protocol) := Request.mapping protocol
        (unpackH ((fields.drop 2).take 2)) (unpackH ((fields.drop 4).take 2))
        (unpackI ((fields.drop 6).take 4))
      if opcode = 1 then some (request .udp) else if opcode = 2 then some (request .tcp) else none
  | _ => none

inductive Answer
  | address (result : UInt16) (seconds external_ip : UInt32)
  | mapping (protocol : Protocol) (result : UInt16) (seconds : UInt32)
      (internal_port external_port : UInt16) (lifetime : UInt32)

/-- The opcode is 128 more than that of the request. -/
def Answer.datagram : Answer → Bytes
  | .address result seconds external_ip =>
    0 :: 128 :: (packH result ++ packI seconds ++ packI external_ip)
  | .mapping protocol result seconds internal_port external_port lifetime =>
    0 :: (128 + protocol.opcode) :: (packH result ++ packI seconds ++ packH internal_port ++
      packH external_port ++ packI lifetime)

/-- What a gateway decides about a request. -/
structure Decision where
  result : UInt16
  seconds : UInt32
  external_ip : UInt32
  external_port : UInt16
  lifetime : UInt32

/-- The answer to a mapping request repeats its internal port. -/
def Request.answer (decision : Decision) : Request → Answer
  | .address => .address decision.result decision.seconds decision.external_ip
  | .mapping protocol internal_port _ _ =>
    .mapping protocol decision.result decision.seconds internal_port decision.external_port
      decision.lifetime

/-- Two ports where an address is looked for. -/
def portsAsAddress (internal_port external_port : UInt16) : UInt32 :=
  unpackI (packH internal_port ++ packH external_port)

theorem decodePublicAddressResponse_address (result : UInt16) (seconds external_ip : UInt32) :
    decodePublicAddressResponse (Answer.address result seconds external_ip).datagram =
      if result ≠ 0 then .error ("NAT-PMP error: ".toList ++ errorName result)
      else .ok (external_ip, seconds) := by
  show (if unpackH (packH result) ≠ 0 then
      Except.error ("NAT-PMP error: ".toList ++ errorName (unpackH (packH result)))
    else .ok (unpackI (packI external_ip), unpackI (packI seconds))) = _
  rw [unpackH_packH, unpackI_packI, unpackI_packI]

/-- The answer to a mapping request is taken for an address. -/
theorem decodePublicAddressResponse_mapping (protocol : Protocol) (result : UInt16)
    (seconds : UInt32) (internal_port external_port : UInt16) (lifetime : UInt32) :
    decodePublicAddressResponse
        (Answer.mapping protocol result seconds internal_port external_port lifetime).datagram =
      if result ≠ 0 then .error ("NAT-PMP error: ".toList ++ errorName result)
      else .ok (portsAsAddress internal_port external_port, seconds) := by
  show (if unpackH (packH result) ≠ 0 then
      Except.error ("NAT-PMP error: ".toList ++ errorName (unpackH (packH result)))
    else .ok (portsAsAddress internal_port external_port, unpackI (packI seconds))) = _
  rw [unpackH_packH, unpackI_packI]

/-- No answer has the opcode that is looked for. -/
theorem decodePortMappingResponse_mapping (protocol : Protocol) (result : UInt16)
    (seconds : UInt32) (internal_port external_port : UInt16) (lifetime : UInt32) :
    decodePortMappingResponse
        (Answer.mapping protocol result seconds internal_port external_port lifetime).datagram =
      if result ≠ 0 then .error ("NAT-PMP error: ".toList ++ errorName result)
      else .ok (⟨internal_port, external_port, lifetime, .udp⟩ : NATPMPPortMapping) := by
  have hopcode : some (128 + protocol.opcode) ≠ some TCP_MAPPING_REQUEST := by
    cases protocol <;> decide
  show (if unpackH (packH result) ≠ 0 then
      Except.error ("NAT-PMP error: ".toList ++ errorName (unpackH (packH result)))
    else .ok (⟨unpackH (packH internal_port), unpackH (packH external_port),
      unpackI (packI lifetime), if some (128 + protocol.opcode) = some TCP_MAPPING_REQUEST then .tcp
        else .udp⟩ : NATPMPPortMapping)) = _
  rw [unpackH_packH, unpackH_packH, unpackH_packH, unpackI_packI, if_neg hopcode]

end Gateway

section Calls

inductive Call
  | getExternalIp
  | addPortMapping (internal_port external_port lifetime : Int) (protocol : Protocol)
deriving DecidableEq

/-- How a call ends. -/
inductive Outcome
  | address (external_ip : UInt32)
  | mapping (mapping : NATPMPPortMapping)
  /-- `NATPMPError` -/
  | error (msg : Str)
  /-- `struct.pack` raises. -/
  | structError
deriving DecidableEq

structure NATPMPClient where
  external_ip : Option UInt32 := none
  last_epoch_time : UInt32 := 0

def Call.request : Call → Option Bytes
  | .getExternalIp => some encodePublicAddressRequest
  | .addPortMapping internal_port external_port lifetime protocol =>
    encodePortMappingRequest internal_port external_port lifetime protocol

/-- A call reads a datagram. -/
def NATPMPClient.receive (client : NATPMPClient) (response : Bytes) : Call → NATPMPClient × Outcome
  | .getExternalIp =>
    match decodePublicAddressResponse response with
    | .ok (external_ip, seconds) =>
      ({ external_ip := some external_ip, last_epoch_time := seconds }, .address external_ip)
    | .error e => (client, .error ("Error getting external IP: ".toList ++ e))
  | .addPortMapping _ _ _ _ =>
    match decodePortMappingResponse response with
    | .ok mapping => (client, .mapping mapping)
    | .error e => (client, .error ("Error adding port mapping: ".toList ++ e))

def Call.timeout : Call → Outcome
  | .getExternalIp => .error "Timeout getting external IP".toList
  | .addPortMapping _ _ _ _ => .error "Timeout adding port mapping".toList

/-- The call under way. -/
structure Exchange where
  call : Call
  request : Bytes
  attempt : Nat := 0

/-- The client, what has been sent and answered, the addresses that the gateway has reported, and
what the calls have returned, the latest first. -/
structure System where
  client : NATPMPClient := {}
  current : Option Exchange := none
  requests : List Bytes := []
  answers : List Answer := []
  reported : List UInt32 := []
  returned : List (Call × Outcome) := []

inductive Event
  | call (call : Call)
  /-- The gateway answers one of the requests, again or late as it may be. -/
  | answer (request : Nat) (decision : Decision)
  /-- One of the answers is read, again or late as it may be. -/
  | receive (answer : Nat)
  | timeout

/-- The address that an answer reports. -/
def Answer.reports : Answer → List UInt32
  | .address result _ external_ip => if result = 0 then [external_ip] else []
  | .mapping .. => []

def System.finish (s : System) (call : Call) (result : NATPMPClient × Outcome) : System :=
  { s with
    client := result.1
    current := none
    returned := (call, result.2) :: s.returned }

def step (s : System) : Event → System
  | .call call =>
    match s.current, call.request with
    | some _, _ => s
    | none, none => s.finish call (s.client, .structError)
    | none, some request =>
      { s with current := some { call, request }, requests := s.requests ++ [request] }
  | .answer request decision =>
    match s.requests[request]?.bind Request.parse with
    | none => s
    | some request =>
      { s with
        answers := s.answers ++ [request.answer decision]
        reported := (request.answer decision).reports ++ s.reported }
  | .receive answer =>
    match s.current, s.answers[answer]? with
    | some exchange, some answer =>
      s.finish exchange.call (s.client.receive answer.datagram exchange.call)
    | _, _ => s
  | .timeout =>
    match s.current with
    | none => s
    | some exchange =>
      if exchange.attempt = NAT_PMP_MAX_RETRIES - 1 then
        s.finish exchange.call (s.client, exchange.call.timeout)
      else
        { s with
          current := some { exchange with attempt := exchange.attempt + 1 }
          requests := s.requests ++ [exchange.request] }

/-- What a call returns is what has been asked for. -/
def Proper (reported : List UInt32) : Call × Outcome → Prop
  | (.getExternalIp, .address external_ip) => external_ip ∈ reported
  | (.addPortMapping internal_port _ _ protocol, .mapping mapping) =>
    (mapping.internal_port.toNat : Int) = internal_port ∧ mapping.protocol = protocol
  | _ => True

def Matched (s : System) : Prop := ∀ r ∈ s.returned, Proper s.reported r

/-- An answer does no harm to a call: no mapping is read by a call for TCP, a mapping read by a call
for UDP has its internal port, and a mapping read as an address spells one that has been reported. -/
def Harmless (reported : List UInt32) : Call → Answer → Prop
  | .getExternalIp, .mapping _ result _ internal_port external_port _ =>
    result = 0 → portsAsAddress internal_port external_port ∈ reported
  | .addPortMapping _ _ _ .tcp, .mapping _ result _ _ _ _ => result ≠ 0
  | .addPortMapping i _ _ .udp, .mapping _ result _ internal_port _ _ =>
    result = 0 → (internal_port.toNat : Int) = i
  | _, .address .. => True

/-- What is read does no harm. -/
def Meets (s : System) : Event → Prop
  | .receive answer => ∀ exchange a, s.current = some exchange → s.answers[answer]? = some a →
      Harmless s.reported exchange.call a
  | _ => True

end Calls

section Runs

variable {s : System} {reported : List UInt32}

/-- What the gateway has reported as an address is kept. -/
def Recorded (s : System) : Prop := ∀ a ∈ s.answers, ∀ ip ∈ a.reports, ip ∈ s.reported

theorem Proper.mono {reported' : List UInt32} (hsub : reported ⊆ reported') {r : Call × Outcome}
    (h : Proper reported r) : Proper reported' r := by
  obtain ⟨call, outcome⟩ := r
  cases call with
  | getExternalIp =>
    cases outcome with
    | address external_ip => exact hsub h
    | mapping | error | structError => trivial
  | addPortMapping =>
    cases outcome with
    | mapping mapping => exact h
    | address | error | structError => trivial

/-- Whether what a call returns is proper, is decided by the answer it reads. -/
theorem proper_receive_iff (client : NATPMPClient) (call : Call) {a : Answer}
    (ha : ∀ ip ∈ a.reports, ip ∈ reported) :
    Proper reported (call, (client.receive a.datagram call).2) ↔ Harmless reported call a := by
  cases a with
  | address result seconds external_ip =>
    cases call with
    | getExternalIp =>
      refine iff_of_true ?_ trivial
      rw [NATPMPClient.receive, decodePublicAddressResponse_address]
      by_cases hresult : result = 0
      · rw [if_neg (not_not.mpr hresult)]
        refine ha external_ip ?_
        rw [Answer.reports, if_pos hresult]
        exact List.mem_singleton_self external_ip
      · rw [if_pos hresult]
        trivial
    | addPortMapping => exact iff_of_true trivial (by cases ‹Protocol› <;> trivial)
  | mapping protocol result seconds internal_port external_port lifetime =>
    cases call with
    | getExternalIp =>
      rw [NATPMPClient.receive, decodePublicAddressResponse_mapping, Harmless]
      by_cases hresult : result = 0
      · rw [if_neg (not_not.mpr hresult), forall_prop_of_true hresult]
        rfl
      · rw [if_pos hresult]
        exact iff_of_true trivial fun h => absurd h hresult
    | addPortMapping i e l asked =>
      rw [NATPMPClient.receive, decodePortMappingResponse_mapping]
      by_cases hresult : result = 0
      · rw [if_neg (not_not.mpr hresult)]
        cases asked with
        | tcp => exact iff_of_false (fun h => nomatch h.2) (not_not.mpr hresult)
        | udp =>
          rw [Harmless, forall_prop_of_true hresult]
          exact and_iff_left rfl
      · rw [if_pos hresult]
        cases asked with
        | tcp => exact iff_of_true trivial hresult
        | udp => exact iff_of_true trivial fun h => absurd h hresult

theorem matched_finish (call : Call) (result : NATPMPClient × Outcome) :
    Matched (s.finish call result) ↔ Proper s.reported (call, result.2) ∧ Matched s :=
  List.forall_mem_cons

theorem recorded_step (h : Recorded s) (e : Event) : Recorded (step s e) := by
  cases e with
  | call call =>
    rw [step]
    split <;> exact h
  | answer request decision =>
    rw [step]
    split
    · exact h
    · intro a ha ip hip
      rcases List.mem_append.mp ha with ha | ha
      · exact List.mem_append_right _ (h a ha ip hip)
      · rw [List.mem_singleton.mp ha] at hip
        exact List.mem_append_left _ hip
  | receive answer =>
    rw [step]
    split <;> exact h
  | timeout =>
    rw [step]
    split
    · exact h
    · split <;> exact h

/-- A step that returns the answer of the gateway keeps the property if and only if the answer does
no harm, and the other steps keep it. -/
theorem matched_step_iff (hmatched : Matched s) (hrecorded : Recorded s) (e : Event) :
    Matched (step s e) ↔ Meets s e := by
  cases e with
  | call call =>
    refine iff_of_true ?_ trivial
    rw [step]
    split
    · exact hmatched
    · refine (matched_finish _ _).mpr ⟨?_, hmatched⟩
      cases call <;> trivial
    · exact hmatched
  | answer request decision =>
    refine iff_of_true ?_ trivial
    rw [step]
    split
    · exact hmatched
    · exact fun r hr => (hmatched r hr).mono (List.subset_append_right _ _)
  | receive answer =>
    rw [step, Meets]
    cases hcurrent : s.current with
    | none => exact iff_of_true hmatched nofun
    | some exchange =>
      cases hanswer : s.answers[answer]? with
      | none => exact iff_of_true hmatched nofun
      | some a =>
        have ha := hrecorded a (List.mem_of_getElem? hanswer)
        rw [matched_finish, and_iff_left hmatched, proper_receive_iff s.client exchange.call ha]
        constructor
        · rintro h _ _ ⟨⟩ ⟨⟩
          exact h
        · exact fun h => h exchange a rfl rfl
  | timeout =>
    refine iff_of_true ?_ trivial
    rw [step]
    split
    · exact hmatched
    · split
      · refine (matched_finish _ _).mpr ⟨?_, hmatched⟩
        cases ‹Exchange›.call <;> trivial
      · exact hmatched

/-- Calls return what has been asked for throughout a run exactly if no call reads an answer that
does harm. -/
theorem always_matched_iff (events : List Event) :
    Always step Matched {} events ↔ StepsMeet step Meets {} events :=
  always_iff_stepsMeet_of (fun _ (h : Matched _ ∧ Recorded _) => h.1)
    (fun _ e h hmatched => (matched_step_iff h.1 h.2 e).mp hmatched)
    (fun _ e h hmeets => ⟨(matched_step_iff h.1 h.2 e).mpr hmeets, recorded_step h.2 e⟩)
    ⟨by simp [Matched], by simp [Recorded]⟩

/-- A port is mapped for TCP, and the gateway answers at once. -/
def mappedForTcp : List Event :=
  [.call (.addPortMapping 6881 6881 3600 .tcp), .answer 0 ⟨0, 1000, 0, 6881, 3600⟩, .receive 0]

theorem not_always_matched_mappedForTcp : ¬Always step Matched {} mappedForTcp := by
  intro h
  have hlast := always_iff_take.mp h 3 (.addPortMapping 6881 6881 3600 .tcp,
    .mapping ⟨6881, 6881, 3600, .udp⟩) (by decide +kernel)
  exact nomatch hlast.2

end Runs

end Ccbt.Natpmp
