import Ccbt.Peer.Manager
import Ccbt.Transition.Run

/-!
# The two copies of the message semantics

`_handle_message` against the handlers of `message_handlers`: on which messages they
agree, which requests are answered, and when a connection can request blocks.
-/

namespace Ccbt

open Python

namespace Peer

namespace Environment

variable (env : Environment)

section Serving

/-- The octets of a verified piece are in its blocks in memory, or reading them back from the
files gives them. -/
def Holds (pm : PieceManager) (piece_index : Nat) (content : Bytes) : Prop :=
  ∃ piece, pm.pieces[piece_index]? = some piece ∧ piece.state = .VERIFIED ∧
    ((piece.blocks.map PieceBlock.data).flatten = content ∨
      ∃ fa, pm.file_assembler = some fa ∧ ∀ begin length, begin + length ≤ content.length →
        fa.readBlock piece_index begin length = some ((content.drop begin).take length))

/-- A range of a piece that a peer can be served from. -/
structure HeldRange (pm : PieceManager) where
  piece_index : UInt32
  begin : UInt32
  length : UInt32
  content : Bytes
  holds : Holds pm piece_index.toNat content
  inside : begin.toNat + length.toNat ≤ content.length

/-- The octets of the range. -/
def HeldRange.data {pm : PieceManager} (r : HeldRange pm) : Bytes :=
  (r.content.drop r.begin.toNat).take r.length.toNat

def blocksSent (calls : List Call) : List PeerMessage :=
  calls.filterMap fun
    | .send (.PieceMessage i b block) => some (.PieceMessage i b block)
    | _ => none

/-- A request for the range is answered with exactly one message that holds its octets, or with
no block where the peer is choked. -/
def Serves (s : Session) (r : HeldRange (env.piece_manager s.calls)) : Prop :=
  ∃ sent, (env.handleMessage s (.RequestMessage r.piece_index r.begin r.length)).calls =
      s.calls ++ sent ∧
    blocksSent sent =
      if s.connection.am_choking then [] else [.PieceMessage r.piece_index r.begin r.data]

/-- Requests are handled as they should be exactly where they should not be answered. -/
theorem serves_iff_choking (s : Session) (r : HeldRange (env.piece_manager s.calls)) :
    env.Serves s r ↔ s.connection.am_choking := by
  constructor
  · rintro ⟨sent, hcalls, hblocks⟩
    have hnone : sent = [] := by
      have : s.calls ++ [] = s.calls ++ sent := by
        rw [List.append_nil, ← hcalls]
        rfl
      exact (List.append_cancel_left this).symm
    subst hnone
    by_contra hchoking
    rw [if_neg hchoking] at hblocks
    simp [blocksSent] at hblocks
  · intro hchoking
    refine ⟨[], by rw [List.append_nil]; rfl, ?_⟩
    rw [if_pos hchoking]
    rfl

/-- An unchoked peer that asks for the one octet of a verified piece in memory gets nothing. -/
theorem not_serves_inMemory :
    let pm : PieceManager := { pieces := [⟨1, [⟨0, 1, [7]⟩], .VERIFIED⟩] }
    let env : Environment := { piece_manager := fun _ => pm }
    ∃ r : HeldRange pm, r.data = [7] ∧ ¬env.Serves { connection := { am_choking := false } } r := by
  refine ⟨⟨0, 0, 1, [7], ⟨_, rfl, rfl, Or.inl rfl⟩, by decide⟩, rfl, ?_⟩
  rintro ⟨sent, hcalls, hblocks⟩
  obtain rfl : [] = sent := hcalls
  exact absurd hblocks (by decide)

end Serving

section Agreement

/-- A message has the effect of its registered handler, and an unchoke schedules a piece
selection. -/
def HasRegisteredEffect (s : Session) (m : PeerMessage) : Prop :=
  env.handleMessage s m = env.registeredHandler s m ∧
    (m = .UnchokeMessage → (env.handleMessage s m).calls =
      s.calls ++ [.trigger_piece_selection_with_retry])

/-- The messages that `_handle_message` does not leave out. -/
def IsRouted (s : Session) : PeerMessage → Prop
  | .UnchokeMessage => False
  | .RequestMessage _ _ _ => False
  | .CancelMessage piece_index begin length =>
    s.connection.outstanding_requests.get? (piece_index.toNat, begin.toNat, length.toNat) = none
  | _ => True

theorem sendMessage_calls (s : Session) (message : PeerMessage) :
    ∃ more, (env.sendMessage s message).1.calls = s.calls ++ more := by
  rw [sendMessage]
  split
  · exact ⟨[.send message], rfl⟩
  · exact ⟨[], (List.append_nil _).symm⟩

/-- The handler of requests asks the piece manager for the block. -/
theorem handleRequest_calls (s : Session) (piece_index begin length : UInt32) :
    ∃ more, (env.handleRequest s piece_index begin length).calls =
      s.calls ++ .get_block piece_index.toNat begin.toNat length.toNat :: more := by
  have hfind : ∃ more, (env.findBlock s piece_index.toNat begin.toNat length.toNat).1.calls =
      s.calls ++ .get_block piece_index.toNat begin.toNat length.toNat :: more := by
    rw [findBlock]
    split
    · exact ⟨[], rfl⟩
    · split
      · exact ⟨[_], List.append_assoc _ _ _⟩
      · exact ⟨[], rfl⟩
  obtain ⟨more, hmore⟩ := hfind
  rw [handleRequest]
  generalize env.findBlock s piece_index.toNat begin.toNat length.toNat = found at hmore
  obtain ⟨s', block⟩ := found
  dsimp only at hmore
  match block with
  | none => exact ⟨more, hmore⟩
  | some .coroutine => exact ⟨more, hmore⟩
  | some (.bytes block) =>
    dsimp only
    split
    · exact ⟨more, hmore⟩
    · obtain ⟨sent, hsent⟩ := env.sendMessage_calls s' (.PieceMessage piece_index begin block)
      refine ⟨more ++ sent, ?_⟩
      rw [← List.cons_append, ← List.append_assoc, ← hmore, ← hsent]
      split <;> rfl

theorem hasRegisteredEffect_iff (s : Session) (m : PeerMessage) :
    env.HasRegisteredEffect s m ↔ IsRouted s m := by
  cases m with
  | UnchokeMessage =>
    refine iff_of_false (fun h => ?_) id
    have := congrArg Session.calls h.1
    simp [handleMessage, registeredHandler, handleUnchoke, call] at this
  | RequestMessage piece_index begin length =>
    refine iff_of_false (fun h => ?_) id
    obtain ⟨more, hmore⟩ := env.handleRequest_calls s piece_index begin length
    have hcalls : s.calls = (env.handleRequest s piece_index begin length).calls :=
      congrArg Session.calls h.1
    have := congrArg List.length (hcalls.trans hmore)
    simp at this
  | CancelMessage piece_index begin length =>
    rw [IsRouted, ← Dict.erase_eq_self_iff]
    constructor
    · intro h
      exact (congrArg (fun s => s.connection.outstanding_requests) h.1).symm
    · intro h
      refine ⟨?_, by simp⟩
      simp only [handleMessage, registeredHandler, handleCancel, h]
  | _ => exact iff_of_true ⟨rfl, by simp⟩ trivial

end Agreement

section CanRequest

/-- Whether the peer chokes after some messages: what its last choke-related message said. -/
def lastChoke (choking : Bool) (ms : List PeerMessage) : Bool :=
  ms.foldl (fun choking m =>
    match m with
    | .ChokeMessage => true
    | .UnchokeMessage => false
    | _ => choking) choking

/-- A connection that was unchoked has come as far as the bitfield of the peer. -/
def Coherent (c : AsyncPeerConnection) : Prop :=
  c.peer_choking = false →
    c.state = .BITFIELD_RECEIVED ∨ c.state = .ACTIVE ∨ c.state = .CHOKED ∨ c.state = .ERROR

/-- After the messages blocks can be requested exactly when the last choke-related message was an
unchoke, the connection is not in an error and the pipeline has a free slot. -/
def CanRequestRight (s : Session) (ms : List PeerMessage) : Prop :=
  let c := (Transition.run env.handleMessage s ms).connection
  c.canRequest ↔ lastChoke s.connection.peer_choking ms = false ∧ c.state ≠ .ERROR ∧
    c.outstanding_requests.size < c.max_pipeline_depth

theorem canRequest_iff {c : AsyncPeerConnection} (h : Coherent c) :
    c.canRequest ↔ c.peer_choking = false ∧ c.state ≠ .ERROR ∧
      c.outstanding_requests.size < c.max_pipeline_depth := by
  rw [AsyncPeerConnection.canRequest, AsyncPeerConnection.isActive]
  cases hchoking : c.peer_choking with
  | true => simp
  | false =>
    obtain hs | hs | hs | hs := h hchoking <;> simp [hs]

/-- The choke state and the state of the connection are the same. -/
def SameChoke (c c' : AsyncPeerConnection) : Prop :=
  c'.peer_choking = c.peer_choking ∧ c'.state = c.state

theorem startDownload_connection (s : Session) :
    (env.startDownload s).connection = s.connection := by
  rw [startDownload]
  split <;> rfl

theorem triggerSelection_connection (s : Session) :
    (env.triggerSelection s).connection = s.connection := by
  rw [triggerSelection]
  split <;> rfl

theorem startWithManager_connection (s : Session) :
    (env.startWithManager s).connection = s.connection := by
  rw [startWithManager]
  split
  · rfl
  · split <;> rfl

theorem notifyBitfield_connection (s : Session) (bitfield : Bytes) :
    (env.notifyBitfield s bitfield).connection = s.connection := by
  rw [notifyBitfield]
  split <;> rfl

theorem handleHave_sameChoke (s : Session) (piece_index : UInt32) :
    SameChoke s.connection (env.handleHave s piece_index).connection := by
  rw [handleHave]
  split
  · exact ⟨rfl, rfl⟩
  · dsimp only
    split
    · rw [triggerSelection_connection, startDownload_connection]
      exact ⟨rfl, rfl⟩
    · rw [startDownload_connection]
      exact ⟨rfl, rfl⟩

theorem handlePiece_sameChoke (s : Session) (piece_index begin : UInt32) (block : Bytes) :
    SameChoke s.connection (env.handlePiece s piece_index begin block).connection := by
  rw [handlePiece]
  split <;> exact ⟨rfl, rfl⟩

theorem sendInterested_sameChoke (s : Session) :
    SameChoke s.connection (env.sendInterested s).connection := by
  have hsend : (env.sendMessage s .InterestedMessage).1.connection = s.connection := by
    rw [sendMessage]
    split <;> rfl
  rw [sendInterested]
  split
  next s' ok he =>
  rw [he] at hsend
  split <;> simp only [SameChoke, ← hsend, and_self]

theorem activate_state {s : Session} {choking : Bool}
    (hchoking : s.connection.peer_choking = choking)
    (hstate : s.connection.state = .BITFIELD_RECEIVED) :
    (activate s).connection.peer_choking = choking ∧
      (activate s).connection.state = if choking then .BITFIELD_RECEIVED else .ACTIVE := by
  rw [activate, if_neg (by simp [hstate]), hchoking]
  cases choking with
  | true => exact ⟨hchoking, hstate⟩
  | false => exact ⟨hchoking, rfl⟩

/-- A bitfield that is not empty leaves a connection that is not choked active. -/
theorem handleBitfield_state (s : Session) {bitfield : Bytes} (h : bitfield ≠ []) :
    let c := (env.handleBitfield s bitfield).connection
    c.peer_choking = s.connection.peer_choking ∧
      c.state = if s.connection.peer_choking then .BITFIELD_RECEIVED else .ACTIVE := by
  rw [handleBitfield, if_neg h, notifyBitfield_connection, startWithManager_connection]
  dsimp only
  split
  · exact activate_state rfl rfl
  · obtain ⟨hchoking, hstate⟩ := env.sendInterested_sameChoke { s with
      connection := { s.connection with
        peer_state := { s.connection.peer_state with bitfield := some bitfield }
        state := .BITFIELD_RECEIVED } }
    exact activate_state hchoking hstate

/-- What a step does to the state of the connection: a choke-related message sets it, a bitfield
leaves a connection that is not choked active, and nothing else changes it. -/
theorem handleMessage_cases (s : Session) (m : PeerMessage) :
    let c := (env.handleMessage s m).connection
    c.peer_choking = lastChoke s.connection.peer_choking [m] ∧
      (Coherent s.connection → Coherent c) := by
  have hsame {c : AsyncPeerConnection} (h : SameChoke s.connection c) :
      c.peer_choking = s.connection.peer_choking ∧ (Coherent s.connection → Coherent c) := by
    refine ⟨h.1, fun hcoherent => ?_⟩
    rw [Coherent, h.1, h.2]
    exact hcoherent
  cases m with
  | ChokeMessage => exact ⟨rfl, fun _ h => by simp [handleMessage] at h⟩
  | UnchokeMessage => exact ⟨rfl, fun _ _ => Or.inr (Or.inl rfl)⟩
  | HaveMessage piece_index => exact hsame (env.handleHave_sameChoke s piece_index)
  | PieceMessage piece_index begin block =>
    exact hsame (env.handlePiece_sameChoke s piece_index begin block)
  | BitfieldMessage bitfield =>
    by_cases hb : bitfield = []
    · subst hb
      exact hsame ⟨rfl, rfl⟩
    · obtain ⟨hchoking, hstate⟩ := env.handleBitfield_state s hb
      refine ⟨hchoking, fun _ hunchoked => ?_⟩
      have hfree := hchoking.symm.trans hunchoked
      rw [hfree, if_neg Bool.false_ne_true] at hstate
      exact Or.inr (Or.inl hstate)
  | _ => exact hsame ⟨rfl, rfl⟩

theorem run_canRequest {s : Session} (h : Coherent s.connection) (ms : List PeerMessage) :
    env.CanRequestRight s ms := by
  have hrun : ∀ s : Session, Coherent s.connection →
      (Transition.run env.handleMessage s ms).connection.peer_choking =
        lastChoke s.connection.peer_choking ms ∧
      Coherent (Transition.run env.handleMessage s ms).connection := by
    induction ms with
    | nil => exact fun s hs => ⟨rfl, hs⟩
    | cons m ms ih =>
      intro s hs
      obtain ⟨hchoking, hcoherent⟩ := env.handleMessage_cases s m
      obtain ⟨hchoking', hcoherent'⟩ := ih _ (hcoherent hs)
      exact ⟨by rw [Transition.run_cons, hchoking', hchoking]; rfl, hcoherent'⟩
  obtain ⟨hchoking, hcoherent⟩ := hrun s h
  rw [CanRequestRight, canRequest_iff hcoherent, hchoking]

/-- Along a run every message has the effect of its registered handler exactly when all of them
are routed, and what the messages say about requesting is right after every run. -/
theorem registeredEffects_iff_routed (s : Session) (ms : List PeerMessage) :
    (Transition.StepsMeet env.handleMessage env.HasRegisteredEffect s ms ↔
      Transition.StepsMeet env.handleMessage IsRouted s ms) ∧
    (Coherent s.connection → env.CanRequestRight s ms) :=
  ⟨Transition.stepsMeet_congr env.hasRegisteredEffect_iff, fun h => env.run_canRequest h ms⟩

/-- An unchoke does not schedule a piece selection, a request does not reach the piece manager, and
a cancel leaves the outstanding request that its handler would remove. -/
theorem not_registeredEffects_unchoke :
    let env : Environment := { piece_manager := fun _ => {} }
    let asked : Session := { connection := {
      outstanding_requests := Dict.empty.set (0, 0, 1) ⟨0, 0, 1, 0, 0⟩ } }
    ¬Transition.StepsMeet env.handleMessage env.HasRegisteredEffect asked [.UnchokeMessage] ∧
      ¬Transition.StepsMeet env.handleMessage env.HasRegisteredEffect asked
        [.RequestMessage 0 0 1] ∧
      ¬Transition.StepsMeet env.handleMessage env.HasRegisteredEffect asked
        [.CancelMessage 0 0 1] := by
  refine ⟨fun h => ?_, fun h => ?_, fun h => ?_⟩
  · exact absurd (congrArg (fun s => s.calls.length) h.1.1) (by decide)
  · exact absurd (congrArg (fun s => s.calls.length) h.1.1) (by decide)
  · exact absurd (congrArg (fun s => s.connection.outstanding_requests.size) h.1.1) (by decide)

end CanRequest

end Environment

end Peer

end Ccbt
