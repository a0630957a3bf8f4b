import Ccbt.Python.Dict
import Ccbt.Python.Bytes
import Ccbt.Transition.Run

/-!
# Chunk requests of the Xet extension

`XetExtension` of `extensions/xet.py`, which asks peers for chunks, serves the requests of peers and
takes their answers. Each of its calls changes the state before it first awaits anything.
-/

namespace Ccbt.Extensions.Xet

open Python Transition

abbrev CHUNK_REQUEST : UInt8 := 0x01
abbrev CHUNK_RESPONSE : UInt8 := 0x02
abbrev CHUNK_NOT_FOUND : UInt8 := 0x03
abbrev CHUNK_ERROR : UInt8 := 0x04

structure XetChunkRequest where
  chunk_hash : Bytes
  request_id : Nat

structure XetExtension where
  pending_requests : Dict (Str × Nat) XetChunkRequest := .empty
  request_counter : Nat := 0

/-- What `chunk_provider` does, where there is one. -/
inductive Provided
  | no_provider
  | chunk (chunk_data : Bytes)
  | absent
  | raised

section Messages

/-- The `I` of a format, or `none` where `struct.pack` raises. -/
def packId (n : Nat) : Option Bytes := if n < 2 ^ 32 then some (bigEndian 4 n) else none

def decodeChunkRequest (data : Bytes) : Option (Nat × Bytes) :=
  if data.length < 37 then none
  else if data.head? ≠ some CHUNK_REQUEST then none
  else
    let chunk_hash := (data.drop 5).take 32
    if chunk_hash.length ≠ 32 then none
    else some (ofBigEndian ((data.drop 1).take 4), chunk_hash)

def encodeChunkResponse (request_id : Nat) (chunk_data : Bytes) : Option Bytes := do
  let id ← packId request_id
  let chunk_size ← packId chunk_data.length
  return CHUNK_RESPONSE :: (id ++ chunk_size ++ chunk_data)

def encodeChunkNotFound (request_id : Nat) : Option Bytes := do
  let id ← packId request_id
  return CHUNK_NOT_FOUND :: id

def encodeChunkError (request_id error_code : Nat) : Option Bytes := do
  let id ← packId request_id
  let code ← packId error_code
  return CHUNK_ERROR :: (id ++ code)

end Messages

/-- The data of the event `XET_CHUNK_RECEIVED`. -/
structure Received where
  peer_id : Str
  request_id : Nat
  chunk_hash : Bytes
  chunk_size : Nat

namespace XetExtension

variable (x : XetExtension)

/-- The counter has gone up where the number does not fit into the message. -/
def encodeChunkRequest (chunk_hash : Bytes) : XetExtension × Option Bytes :=
  if chunk_hash.length ≠ 32 then (x, none)
  else
    let request_id := x.request_counter + 1
    ({ x with request_counter := request_id },
      (packId request_id).map fun id => CHUNK_REQUEST :: (id ++ chunk_hash))

def handleChunkRequest (peer_id : Str) (request_id : Nat) (chunk_hash : Bytes)
    (provided : Provided) : XetExtension × Option Bytes :=
  ({ x with
      pending_requests := x.pending_requests.set (peer_id, request_id)
        { chunk_hash, request_id } },
    match provided with
    | .chunk chunk_data =>
      match encodeChunkResponse request_id chunk_data with
      | some message => some message
      | none => encodeChunkError request_id 1
    | .raised => encodeChunkError request_id 1
    | .no_provider | .absent => encodeChunkNotFound request_id)

/-- With what is reported as received. -/
def handleChunkResponse (peer_id : Str) (request_id : Nat) (chunk_data : Bytes) :
    XetExtension × Option Received :=
  match x.pending_requests.get? (peer_id, request_id) with
  | none => (x, none)
  | some request =>
    ({ x with pending_requests := x.pending_requests.erase (peer_id, request_id) },
      some {
        peer_id
        request_id
        chunk_hash := request.chunk_hash
        chunk_size := chunk_data.length })

end XetExtension

section Runs

inductive Event
  /-- A request is encoded and sent to the peer. -/
  | send (peer_id : Str) (chunk_hash : Bytes)
  | serve (peer_id : Str) (request_id : Nat) (chunk_hash : Bytes) (provided : Provided)
  | answer (peer_id : Str) (request_id : Nat) (chunk_data : Bytes)

/-- The extension with the requests of this side that have not been answered, as they stand in the
messages sent, and all reports, each with the hash of the unanswered request that it is about. -/
structure System where
  extension : XetExtension := {}
  outstanding : Dict (Str × Nat) Bytes := .empty
  reports : List (Received × Option Bytes) := []

def step (s : System) : Event → System
  | .send peer_id chunk_hash =>
    let (extension, message) := s.extension.encodeChunkRequest chunk_hash
    { s with
      extension
      outstanding := match message.bind decodeChunkRequest with
        | some (request_id, asked) => s.outstanding.set (peer_id, request_id) asked
        | none => s.outstanding }
  | .serve peer_id request_id chunk_hash provided =>
    { s with
      extension := (s.extension.handleChunkRequest peer_id request_id chunk_hash provided).1 }
  | .answer peer_id request_id chunk_data =>
    let (extension, report) := s.extension.handleChunkResponse peer_id request_id chunk_data
    { extension
      outstanding := s.outstanding.erase (peer_id, request_id)
      reports := match report with
        | some received => (received, s.outstanding.get? (peer_id, request_id)) :: s.reports
        | none => s.reports }

/-- The table has the unanswered requests of this side and no others, and every report is about one
of them. -/
structure Sound (s : System) : Prop where
  pending : ∀ key,
    (s.extension.pending_requests.get? key).map XetChunkRequest.chunk_hash = s.outstanding.get? key
  reports : ∀ e ∈ s.reports, e.2 = some e.1.chunk_hash

/-- No request is served, and none is sent: the hash is too long or too short, or the numbers are
used up. -/
def Meets (s : System) : Event → Prop
  | .send _ chunk_hash => chunk_hash.length ≠ 32 ∨ 2 ^ 32 ≤ s.extension.request_counter + 1
  | .serve _ _ _ _ => False
  | .answer _ _ _ => True

structure Untouched (s : System) : Prop where
  pending : ∀ key, s.extension.pending_requests.get? key = none
  outstanding : ∀ key, s.outstanding.get? key = none
  reports : ∀ e ∈ s.reports, e.2 = some e.1.chunk_hash

variable {s : System}

theorem Untouched.sound (h : Untouched s) : Sound s where
  pending key := by rw [h.pending, h.outstanding, Option.map_none]
  reports := h.reports

/-- A request is read from its message as it has been sent. -/
theorem decodeChunkRequest_encode {id : Nat} (hid : id < 2 ^ 32) {chunk_hash : Bytes}
    (hlength : chunk_hash.length = 32) :
    decodeChunkRequest (CHUNK_REQUEST :: (bigEndian 4 id ++ chunk_hash)) = some (id, chunk_hash) := by
  have hmessage : ¬(CHUNK_REQUEST :: (bigEndian 4 id ++ chunk_hash)).length < 37 := by
    simp [hlength]
  have hhash : ((CHUNK_REQUEST :: (bigEndian 4 id ++ chunk_hash)).drop 5).take 32 = chunk_hash := by
    rw [List.drop_succ_cons, List.drop_left' (bigEndian_length 4 id),
      List.take_of_length_le hlength.le]
  have hnumber : ((CHUNK_REQUEST :: (bigEndian 4 id ++ chunk_hash)).drop 1).take 4 =
      bigEndian 4 id := by
    rw [List.drop_succ_cons, List.drop_zero, List.take_left' (bigEndian_length 4 id)]
  have htype : ¬(CHUNK_REQUEST :: (bigEndian 4 id ++ chunk_hash)).head? ≠ some CHUNK_REQUEST :=
    not_not.mpr rfl
  rw [decodeChunkRequest, if_neg hmessage, if_neg htype, hhash, hnumber,
    if_neg (not_not.mpr hlength), ofBigEndian_bigEndian hid]

theorem encodeChunkRequest_message (x : XetExtension) {chunk_hash : Bytes}
    (hlength : chunk_hash.length = 32) (hcounter : x.request_counter + 1 < 2 ^ 32) :
    (x.encodeChunkRequest chunk_hash).2.bind decodeChunkRequest =
      some (x.request_counter + 1, chunk_hash) := by
  rw [XetExtension.encodeChunkRequest, if_neg (not_not.mpr hlength)]
  simp only [packId, if_pos hcounter, Option.map_some, Option.bind_some]
  exact decodeChunkRequest_encode hcounter hlength

theorem encodeChunkRequest_none (x : XetExtension) {chunk_hash : Bytes}
    (h : chunk_hash.length ≠ 32 ∨ 2 ^ 32 ≤ x.request_counter + 1) :
    (x.encodeChunkRequest chunk_hash).2 = none := by
  rw [XetExtension.encodeChunkRequest]
  split
  · rfl
  · have hcounter := h.resolve_left ‹_›
    simp only [packId, if_neg (Nat.not_lt.mpr hcounter), Option.map_none]

/-- The table is left alone when a request is sent. -/
theorem encodeChunkRequest_pending (x : XetExtension) (chunk_hash : Bytes) :
    (x.encodeChunkRequest chunk_hash).1.pending_requests = x.pending_requests := by
  rw [XetExtension.encodeChunkRequest]
  split <;> rfl

theorem untouched_step (h : Untouched s) {e : Event} (hmeets : Meets s e) :
    Untouched (step s e) := by
  cases e with
  | send peer_id chunk_hash =>
    have hnone : (step s (.send peer_id chunk_hash)).outstanding = s.outstanding := by
      simp only [step, encodeChunkRequest_none s.extension hmeets, Option.bind_none]
    refine ⟨fun key => ?_, fun key => ?_, h.reports⟩
    · show (s.extension.encodeChunkRequest chunk_hash).1.pending_requests.get? key = none
      rw [encodeChunkRequest_pending, h.pending]
    · rw [hnone, h.outstanding]
  | serve peer_id request_id chunk_hash provided => exact hmeets.elim
  | answer peer_id request_id chunk_data =>
    have hnone : s.extension.handleChunkResponse peer_id request_id chunk_data =
        (s.extension, none) := by
      rw [XetExtension.handleChunkResponse, h.pending]
    refine ⟨fun key => ?_, fun key => ?_, ?_⟩
    · simp only [step, hnone, h.pending]
    · show (s.outstanding.erase (peer_id, request_id)).get? key = none
      rw [Dict.get?_erase, h.outstanding, ite_self]
    · simpa only [step, hnone] using h.reports

theorem meets_of_sound (h : Untouched s) {e : Event} (hsound : Sound (step s e)) : Meets s e := by
  cases e with
  | send peer_id chunk_hash =>
    by_contra hnot
    simp only [Meets, not_or, not_not, Nat.not_le] at hnot
    have hpending := hsound.pending (peer_id, s.extension.request_counter + 1)
    simp only [step, encodeChunkRequest_message s.extension hnot.1 hnot.2,
      encodeChunkRequest_pending, h.pending, Dict.get?_set_self, Option.map_none] at hpending
    cases hpending
  | serve peer_id request_id chunk_hash provided =>
    have hpending := hsound.pending (peer_id, request_id)
    simp only [step, XetExtension.handleChunkRequest, Dict.get?_set_self, h.outstanding,
      Option.map_some] at hpending
    cases hpending
  | answer peer_id request_id chunk_data => trivial

/-- The table of pending requests and the reports are right in every state of a run exactly when
nothing is sent and nothing is served. -/
theorem always_sound_iff_idle (events : List Event) :
    Always step Sound {} events ↔ StepsMeet step Meets {} events :=
  always_iff_stepsMeet_of (fun _ => Untouched.sound) (fun _ _ h hsound => meets_of_sound h hsound)
    (fun _ _ h hmeets => untouched_step h hmeets) ⟨fun _ => rfl, fun _ => rfl, by simp⟩

/-- A request is served that the peer has numbered like a request of this side would be, and then the
peer sends a chunk under that number. -/
def answeredUnasked : List Event :=
  [.serve ['p'] 1 [7] .absent, .answer ['p'] 1 [1, 2, 3]]

/-- A chunk that nobody has asked for is reported as received. -/
theorem not_always_sound_answeredUnasked : ¬Always step Sound {} answeredUnasked := by
  intro h
  have hreports := (always_iff_take.mp h 2).reports
  revert hreports
  decide

end Runs

end Ccbt.Extensions.Xet
