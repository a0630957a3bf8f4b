import Ccbt.Concurrency.Coroutine
import Ccbt.Piece.RarestFirst

/-!
# The lock of the selectors of `piece/async_piece_manager.py`

`self.lock` is not reentrant. The selectors and `handle_streaming_seek` as coroutines that take
it, with every call from one of them to another; the request of a piece is a task of its own,
of which only the making is kept.

A selector that calls another one holds the lock while the other waits for it. So
`_select_sequential_with_fallback`, `_select_sequential_streaming` and `handle_streaming_seek`
never return from a state in which they get as far as such a call.
-/

namespace Ccbt

open Python Concurrency Coroutine

namespace Piece

inductive LockName
  | lock
  deriving DecidableEq

inductive SelectorError
  | IndexError
  | ZeroDivisionError
  | OverflowError
  deriving DecidableEq

/-- The configuration with what only the selectors read. -/
structure SelectorConfig extends Config where
  sequential_fallback_threshold : Rat := 1 / 10

/-- The manager with its peer manager and the tasks made for `request_piece_from_peers`. -/
structure Selecting where
  manager : AsyncPieceManager
  /-- `_peer_manager` is set. -/
  peer_manager : Bool
  requested : List Nat := []

namespace Selecting

/-- The manager changed, and tasks made for these pieces where there is a peer manager. -/
def request (s : Selecting) (pieces : List Nat) (m : AsyncPieceManager) : Selecting :=
  { s with
    manager := m
    requested := if s.peer_manager then s.requested ++ pieces else s.requested }

end Selecting

namespace AsyncPieceManager

section Selectors

variable (config : SelectorConfig) (m : AsyncPieceManager)

/-- Whether `_select_sequential_with_fallback` falls back to rarest-first. -/
def fallsBack (missing_pieces : List Nat) : Bool :=
  let window_start := missing_pieces.min?.getD 0
  let window_end := min (window_start + config.sequential_window) m.pieces.length
  let window_pieces := missing_pieces.filter fun i => window_start ≤ i ∧ i < window_end
  let active_peer_count := m.peer_availability.entries.length
  let total_availability := (window_pieces.map m.piece_frequency.count).sum
  window_pieces ≠ [] ∧ 0 < active_peer_count ∧
    (total_availability / window_pieces.length : Rat) <
      config.sequential_fallback_threshold * active_peer_count

/-- `_select_sequential_with_window`: the piece it requests, and `none` where it raises an
`IndexError`. -/
def selectSequentialWithWindow (window_size : Nat) : Option (List Nat) × AsyncPieceManager :=
  let (missing_pieces, m) := m.getMissingPieces
  if missing_pieces = [] then (some [], m)
  else
    let current_piece := m.getCurrentSequentialPiece
    let window_end := min (current_piece + window_size) m.pieces.length
    let window_pieces := missing_pieces.filter fun i => current_piece ≤ i ∧ i < window_end
    if window_pieces = [] then (some [], m)
    else
      let window_pieces :=
        match m.file_selection_manager with
        | some fm => sortByFilePriority fm window_pieces
        | none => window_pieces
      match window_pieces with
      | [] => (none, m)
      | piece_idx :: _ => (some (if m.isMissing piece_idx then [piece_idx] else []), m)

/-- The first integer that has no value as a float. -/
@[irreducible] def floatOverflow : Nat := 2 ^ 1024 - 2 ^ 970

/-- `int((playback_rate * buffer_time) / piece_length)`. The rounding of the quotient does not
reach the next integer. -/
def piecesNeeded : Except SelectorError Nat :=
  if m.piece_length = 0 then .error .ZeroDivisionError
  else if floatOverflow ≤ m.piece_length then .error .OverflowError
  else .ok (10000000 / m.piece_length)

/-- `_get_current_sequential_piece` with the states it corrects. -/
def currentSequentialPiece : Nat × AsyncPieceManager :=
  (m.getCurrentSequentialPiece,
    if 0 < m.current_sequential_piece then m else m.getMissingPieces.2)

/-- What `handle_streaming_seek` changes before it selects. A position that is not positive is
as good as none. -/
def seek (target_piece : Int) : AsyncPieceManager :=
  let m := { m with current_sequential_piece := target_piece.toNat }
  let seek_window_start := max 0 (target_piece - 2)
  let seek_window_end := min (target_piece + config.sequential_window) m.pieces.length
  let (missing_pieces, m) := m.getMissingPieces
  { m with
    pieces := m.pieces.mapIdx fun piece_idx piece =>
      if seek_window_start ≤ piece_idx ∧ piece_idx < seek_window_end ∧
          piece_idx ∈ missing_pieces then
        { piece with priority := piece.priority + 500 }
      else piece }

end Selectors

end AsyncPieceManager

/-- A call that takes the lock. -/
abbrev Call := Coroutine LockName Unit Unit Selecting SelectorError

/-- One step of the manager that may raise. -/
def Call.attempt {α : Type} (f : AsyncPieceManager → Except SelectorError α × AsyncPieceManager) :
    Call α :=
  atomic () fun _ s => ((f s.manager).1, { s with manager := (f s.manager).2 })

/-- One step of the manager. -/
def Call.update {α : Type} (f : AsyncPieceManager → α × AsyncPieceManager) : Call α :=
  attempt fun m => (.ok (f m).1, (f m).2)

/-- One step that requests pieces, and raises an `IndexError` for `none`. -/
def Call.select (f : AsyncPieceManager → Option (List Nat) × AsyncPieceManager) : Call Unit :=
  atomic () fun _ s =>
    match f s.manager with
    | (some pieces, m) => (.ok (), s.request pieces m)
    | (none, m) => (.error .IndexError, { s with manager := m })

section Selectors

variable (config : SelectorConfig)

def selectRarestFirst : Call Unit := withLock .lock (Call.select fun m => m.selectRarestFirst)

def selectSequential : Call Unit :=
  withLock .lock (Call.select fun m =>
    (some (m.selectSequential config.toConfig).1, (m.selectSequential config.toConfig).2))

def selectRoundRobin : Call Unit :=
  withLock .lock (Call.select fun m => (some m.selectRoundRobin, m))

def selectSequentialWithFallback : Call Unit :=
  withLock .lock do
    let missing_pieces ← Call.update fun m => m.getMissingPieces
    if missing_pieces = [] then pure ()
    else
      let falls_back ← Call.update fun m => (m.fallsBack config missing_pieces, m)
      if falls_back then selectRarestFirst else selectSequential config

def selectSequentialWithWindow (window_size : Nat) : Call Unit :=
  withLock .lock (Call.select fun m => m.selectSequentialWithWindow window_size)

def markPieceRequested (piece_index : Nat) : Call Unit :=
  withLock .lock (Call.update fun m =>
    ((), m.modifyPiece piece_index fun piece => { piece with state := .REQUESTED }))

/-- The loop of `_select_sequential_streaming` over the priority pieces. -/
def prioritise : List Nat → Call Unit
  | [] => pure ()
  | piece_idx :: priority_pieces => do
    let has_peer ← withLock .lock (Call.update fun m =>
      (m.peer_availability.values.any fun peer_avail => piece_idx ∈ peer_avail.pieces, m))
    if has_peer then markPieceRequested piece_idx else prioritise priority_pieces

def selectSequentialStreaming : Call Unit :=
  withLock .lock
    (if config.streaming_mode = false then selectSequential config
    else do
      let pieces_needed ← Call.attempt fun m => (m.piecesNeeded, m)
      let dynamic_window := max config.sequential_window pieces_needed
      let current_piece ← Call.update fun m => m.currentSequentialPiece
      if current_piece < 5 then
        let priority_pieces ← Call.update fun m =>
          ((List.range 5).filter (· ∈ m.getMissingPieces.1), m.getMissingPieces.2)
        prioritise priority_pieces
      selectSequentialWithWindow dynamic_window)

def handleStreamingSeek (target_piece : Int) : Call Unit :=
  withLock .lock do
    Call.update fun m => ((), m.seek config target_piece)
    selectSequential config

/-- The calls by which pieces are selected. -/
inductive Selector
  | _select_rarest_first
  | _select_sequential
  | _select_sequential_with_fallback
  | _select_sequential_streaming
  | _select_round_robin
  | handle_streaming_seek (target_piece : Int)

def Selector.code : Selector → Call Unit
  | _select_rarest_first => selectRarestFirst
  | _select_sequential => selectSequential config
  | _select_sequential_with_fallback => selectSequentialWithFallback config
  | _select_sequential_streaming => selectSequentialStreaming config
  | _select_round_robin => selectRoundRobin
  | handle_streaming_seek target_piece => handleStreamingSeek config target_piece

end Selectors

section Waits

namespace AsyncPieceManager

variable (m : AsyncPieceManager)

/-- The list of pieces has every needed piece that the count promises. -/
def AllListed : Prop :=
  ∀ i, m.isPieceNeeded i = true → i < m.num_pieces → i < m.pieces.length

/-- Every needed piece is listed and under way or complete. -/
def NothingMissing : Prop :=
  m.AllListed ∧ ∀ i piece, m.isPieceNeeded i = true → m.pieces[i]? = some piece →
    piece.state ≠ .MISSING ∧
      (piece.state = .COMPLETE ∨ piece.state = .VERIFIED → piece.isComplete = true)

theorem correct_state_eq_missing {piece : PieceData} : piece.correct.state = .MISSING ↔
    ¬(piece.state ≠ .MISSING ∧
      (piece.state = .COMPLETE ∨ piece.state = .VERIFIED → piece.isComplete = true)) := by
  rw [PieceData.correct]
  split
  · next h => simp [h.1, h.2]
  · next h =>
    rw [not_and, Bool.not_eq_false] at h
    constructor
    · intro hmissing hkept
      exact hkept.1 hmissing
    · intro hlost
      by_contra hmissing
      exact hlost ⟨hmissing, h⟩

theorem allListed_iff : m.AllListed ↔ ∀ i ∈ m.getMissingPieces.1, i < m.pieces.length := by
  constructor
  · intro h i hi
    obtain ⟨hneeded, ⟨piece, hpiece, -⟩ | ⟨-, hlt⟩⟩ := m.mem_getMissingPieces.mp hi
    · exact (List.getElem?_eq_some_iff.mp hpiece).1
    · exact h i hneeded hlt
  · intro h i hneeded hlt
    by_contra hle
    exact hle (h i (m.mem_getMissingPieces.mpr ⟨hneeded, .inr ⟨not_lt.mp hle, hlt⟩⟩))

theorem nothingMissing_iff : m.NothingMissing ↔ m.getMissingPieces.1 = [] := by
  rw [List.eq_nil_iff_forall_not_mem]
  constructor
  · rintro ⟨hlisted, hstates⟩ i hi
    have hlt := m.allListed_iff.mp hlisted i hi
    obtain ⟨hneeded, ⟨piece, hpiece, hmissing⟩ | ⟨hle, -⟩⟩ := m.mem_getMissingPieces.mp hi
    · exact correct_state_eq_missing.mp hmissing (hstates i piece hneeded hpiece)
    · omega
  · intro h
    refine ⟨m.allListed_iff.mpr fun i hi => absurd hi (h i), fun i piece hneeded hpiece => ?_⟩
    by_contra hmissing
    exact h i (m.mem_getMissingPieces.mpr
      ⟨hneeded, .inl ⟨piece, hpiece, correct_state_eq_missing.mpr hmissing⟩⟩)

/-- The scores are computed when every missing piece is listed. -/
theorem isSome_selectRarestFirst : m.selectRarestFirst.1.isSome ↔ m.AllListed := by
  rw [allListed_iff, selectRarestFirst]
  constructor
  · intro h i hi
    by_contra hle
    have hscores : m.getMissingPieces.1.mapM m.getMissingPieces.2.pieceScore = none := by
      refine mapM_eq_none hi ?_
      rw [pieceScore_getMissingPieces, if_neg hle]
    simp [hscores] at h
  · intro h
    have hscores : m.getMissingPieces.1.mapM m.getMissingPieces.2.pieceScore =
        some (m.getMissingPieces.1.map m.score) := by
      refine mapM_eq_some fun i hi => ?_
      rw [pieceScore_getMissingPieces, if_pos (h i hi)]
    simp [hscores]

theorem piecesNeeded_eq_ok_iff : (∃ n, m.piecesNeeded = .ok n) ↔
    m.piece_length ≠ 0 ∧ m.piece_length < floatOverflow := by
  rw [piecesNeeded]
  split
  · next h => simp [h]
  · next h =>
    split
    · next hlarge => simp [not_lt.mpr hlarge]
    · next hsmall => simp [h, not_le.mp hsmall]

end AsyncPieceManager

variable (config : SelectorConfig) {held : List LockName} {s : Selecting}

theorem Call.alone_select (f : AsyncPieceManager → Option (List Nat) × AsyncPieceManager)
    (held : List LockName) (s : Selecting) : ∃ s', (Call.select f).alone () held s =
      some (if (f s.manager).1.isSome then .ok () else .error .IndexError, held, s') := by
  rcases hf : f s.manager with ⟨_ | pieces, m⟩
  · refine ⟨{ s with manager := m }, ?_⟩
    simp [Call.select, atomic, alone, hf]
  · refine ⟨s.request pieces m, ?_⟩
    simp [Call.select, atomic, alone, hf]

/-- A selector that calls no other comes to its end. -/
theorem Call.alone_withLock_select
    (f : AsyncPieceManager → Option (List Nat) × AsyncPieceManager) :
    ∃ s', (withLock .lock (Call.select f)).alone () [] s =
      some (if (f s.manager).1.isSome then .ok () else .error .IndexError, [], s') := by
  obtain ⟨s', hs'⟩ := Call.alone_select f [.lock] s
  refine ⟨s', ?_⟩
  rw [alone_withLock List.not_mem_nil, hs']
  rfl

theorem Call.alone_update_bind {α β : Type} (f : AsyncPieceManager → α × AsyncPieceManager)
    (g : α → Call β) : (Call.update f >>= g).alone () held s =
      (g (f s.manager).1).alone () held { s with manager := (f s.manager).2 } := rfl

theorem alone_prioritise (priority_pieces : List Nat) (next : Unit → Call Unit)
    (hnext : ∀ s, (next ()).alone () [.lock] s = none) :
    (prioritise priority_pieces >>= next).alone () [.lock] s = none := by
  cases priority_pieces with
  | nil => exact hnext s
  | cons piece_idx priority_pieces =>
    rw [prioritise, alone_bind, alone_bind, alone_withLock_of_mem List.mem_cons_self]
    rfl

theorem alone_selectSequentialWithFallback :
    (s.manager.NothingMissing → ∃ s', (selectSequentialWithFallback config).alone () [] s =
        some (.ok (), [], s')) ∧
      (¬s.manager.NothingMissing → (selectSequentialWithFallback config).alone () [] s = none) := by
  rw [AsyncPieceManager.nothingMissing_iff, selectSequentialWithFallback,
    alone_withLock List.not_mem_nil, Call.alone_update_bind]
  constructor
  · intro hnone
    rw [if_pos hnone]
    exact ⟨_, rfl⟩
  · intro hmissing
    rw [if_neg hmissing, Call.alone_update_bind]
    -- both continuations begin with the lock
    split
    · exact congrArg (Option.map _) (alone_withLock_of_mem List.mem_cons_self _)
    · exact congrArg (Option.map _) (alone_withLock_of_mem List.mem_cons_self _)

/-- Past the estimate of the window every way on takes the lock again. -/
theorem alone_selectSequentialStreaming :
    (config.streaming_mode = true ∧ ¬(∃ n, s.manager.piecesNeeded = .ok n) →
      ∃ e s', (selectSequentialStreaming config).alone () [] s = some (.error e, [], s')) ∧
      (¬(config.streaming_mode = true ∧ ¬∃ n, s.manager.piecesNeeded = .ok n) →
        (selectSequentialStreaming config).alone () [] s = none) := by
  rw [selectSequentialStreaming, alone_withLock List.not_mem_nil]
  by_cases hmode : config.streaming_mode = false
  · simp only [hmode, if_pos]
    refine ⟨fun h => absurd h.1 (by simp), fun _ => ?_⟩
    exact congrArg (Option.map _) (alone_withLock_of_mem List.mem_cons_self _)
  · rw [if_neg hmode]
    rw [Bool.not_eq_false] at hmode
    cases hneeded : s.manager.piecesNeeded with
    | error e =>
      refine ⟨fun _ => ⟨e, s, ?_⟩, fun h => (h ⟨hmode, by simp⟩).elim⟩
      rw [alone_bind]
      simp [Call.attempt, atomic, alone, hneeded]
    | ok n =>
      refine ⟨fun h => absurd ⟨n, rfl⟩ h.2, fun _ => ?_⟩
      rw [alone_bind]
      simp only [Call.attempt, atomic, alone, hneeded, Option.bind_some]
      rw [Call.alone_update_bind]
      rw [Option.map_eq_none_iff]
      split
      · rw [Call.alone_update_bind]
        exact alone_prioritise _ _ fun s => alone_withLock_of_mem List.mem_cons_self _
      · exact alone_withLock_of_mem List.mem_cons_self _

theorem alone_handleStreamingSeek (target_piece : Int) :
    (handleStreamingSeek config target_piece).alone () [] s = none := by
  rw [handleStreamingSeek, alone_withLock List.not_mem_nil, Call.alone_update_bind]
  exact congrArg (Option.map _) (alone_withLock_of_mem List.mem_cons_self _)

/-- The states from which a selector ends, with an exception or without. -/
def Selector.CanEnd (m : AsyncPieceManager) : Selector → Prop
  | _select_rarest_first | _select_sequential | _select_round_robin => True
  | _select_sequential_with_fallback => m.NothingMissing
  | _select_sequential_streaming =>
    config.streaming_mode = true ∧
      (m.piece_length = 0 ∨ AsyncPieceManager.floatOverflow ≤ m.piece_length)
  | handle_streaming_seek _ => False

/-- The states from which a selector ends without an exception. -/
def Selector.CanReturn (m : AsyncPieceManager) : Selector → Prop
  | _select_rarest_first => m.AllListed
  | _select_sequential | _select_round_robin => True
  | _select_sequential_with_fallback => m.NothingMissing
  | _select_sequential_streaming | handle_streaming_seek _ => False

/-- Started with the lock free, a selector never waits for the lock it holds and ends with the
lock free from these states only. -/
theorem selector_runsToEnd_iff (call : Selector) (s : Selecting) :
    (System.RunsToEnd () (call.code config) s ↔ call.CanEnd config s.manager) ∧
      (System.Returns () (call.code config) s ↔ call.CanReturn s.manager) := by
  cases call with
  | _select_rarest_first =>
    obtain ⟨s', hend⟩ := Call.alone_withLock_select (s := s) fun m => m.selectRarestFirst
    obtain ⟨hruns, hreturns⟩ := System.runsToEnd_and_returns_iff hend
    refine ⟨iff_of_true hruns trivial, hreturns.trans ?_⟩
    show _ ↔ s.manager.AllListed
    rw [← s.manager.isSome_selectRarestFirst]
    by_cases hsome : s.manager.selectRarestFirst.1.isSome = true
    · simp [hsome]
    · simp [hsome]
  | _select_sequential =>
    obtain ⟨s', hend⟩ := Call.alone_withLock_select (s := s) fun m =>
      (some (m.selectSequential config.toConfig).1, (m.selectSequential config.toConfig).2)
    obtain ⟨hruns, hreturns⟩ := System.runsToEnd_and_returns_iff hend
    exact ⟨iff_of_true hruns trivial, iff_of_true (hreturns.mpr rfl) trivial⟩
  | _select_round_robin =>
    obtain ⟨s', hend⟩ := Call.alone_withLock_select (s := s) fun m => (some m.selectRoundRobin, m)
    obtain ⟨hruns, hreturns⟩ := System.runsToEnd_and_returns_iff hend
    exact ⟨iff_of_true hruns trivial, iff_of_true (hreturns.mpr rfl) trivial⟩
  | _select_sequential_with_fallback =>
    obtain ⟨hnothing, hmissing⟩ := alone_selectSequentialWithFallback config (s := s)
    by_cases h : s.manager.NothingMissing
    · obtain ⟨s', hend⟩ := hnothing h
      obtain ⟨hruns, hreturns⟩ := System.runsToEnd_and_returns_iff hend
      exact ⟨iff_of_true hruns h, iff_of_true (hreturns.mpr rfl) h⟩
    · obtain ⟨hruns, hreturns⟩ := System.not_runsToEnd_and_not_returns (hmissing h)
      exact ⟨iff_of_false hruns h, iff_of_false hreturns h⟩
  | _select_sequential_streaming =>
    obtain ⟨hraises, hwaits⟩ := alone_selectSequentialStreaming config (s := s)
    have hcan : Selector._select_sequential_streaming.CanEnd config s.manager ↔
        config.streaming_mode = true ∧ ¬∃ n, s.manager.piecesNeeded = .ok n := by
      rw [AsyncPieceManager.piecesNeeded_eq_ok_iff, not_and_or, not_not, not_lt,
        Selector.CanEnd]
    rw [hcan]
    by_cases h : config.streaming_mode = true ∧ ¬∃ n, s.manager.piecesNeeded = .ok n
    · obtain ⟨e, s', hend⟩ := hraises h
      obtain ⟨hruns, hreturns⟩ := System.runsToEnd_and_returns_iff hend
      exact ⟨iff_of_true hruns h, iff_of_false (fun hr => nomatch hreturns.mp hr) id⟩
    · obtain ⟨hruns, hreturns⟩ := System.not_runsToEnd_and_not_returns (hwaits h)
      exact ⟨iff_of_false hruns h, iff_of_false hreturns id⟩
  | handle_streaming_seek target_piece =>
    obtain ⟨hruns, hreturns⟩ := System.not_runsToEnd_and_not_returns
      (alone_handleStreamingSeek config target_piece (s := s))
    exact ⟨iff_of_false hruns id, iff_of_false hreturns id⟩

/-- A new manager of one piece that has a peer manager. -/
def onePieceMissing : Selecting where
  manager := .new {} { num_pieces := 1, piece_length := 16384, piece_hashes := [] } none
  peer_manager := true

/-- The fallback takes the lock, looks at the one missing piece and calls a selector that waits
for the lock. -/
theorem selfWait_selectSequentialWithFallback :
    ((System.start [Selector._select_sequential_with_fallback.code {}]
        onePieceMissing).afterTurns () 3).SelfWait ∧
      ¬System.RunsToEnd () (Selector._select_sequential_with_fallback.code {}) onePieceMissing := by
  have hwait : ((System.start [Selector._select_sequential_with_fallback.code {}]
      onePieceMissing).afterTurns () 3).SelfWait := by decide +kernel
  exact ⟨hwait, fun h => h.not_selfWait 3 hwait⟩

end Waits

end Piece

end Ccbt
