import Ccbt.Piece.Manager
import Mathlib.Data.Prod.Lex

/-!
# Which pieces are requested next

The strategies of `_select_pieces` in `piece/async_piece_manager.py`: each one gives the
pieces for which it makes a task that runs `request_piece_from_peers`.
-/

namespace Ccbt

open Python

namespace Piece

namespace AsyncPieceManager

variable (config : Config) (m : AsyncPieceManager)

/-- The priority of a piece for the rarest-first order. -/
def effectivePriority (piece_index : Nat) (piece : PieceData) : Int :=
  match m.file_selection_manager with
  | some fm => max piece.priority (fm.getPiecePriority piece_index * 100 : Nat)
  | none => piece.priority

/-- `(score, piece_idx)`, and `none` where there is no such piece. -/
def pieceScore (piece_index : Nat) : Option (Int ×ₗ Nat) :=
  m.pieces[piece_index]?.map fun piece =>
    toLex ((1000 - m.piece_frequency.count piece_index) + m.effectivePriority piece_index piece,
      piece_index)

def sortDescending (scores : List (Int ×ₗ Nat)) : List (Int ×ₗ Nat) := (sortOn id scores).reverse

def isMissing (piece_index : Nat) : Bool :=
  (m.pieces[piece_index]?.map PieceData.state) = some .MISSING

/-- `_select_rarest_first` with a peer manager: the pieces it requests, and `none` where it
raises an `IndexError`. -/
def selectRarestFirst : Option (List Nat) × AsyncPieceManager :=
  let (missing_pieces, m) := m.getMissingPieces
  (match missing_pieces.mapM m.pieceScore with
    | none => none
    | some scores =>
      some ((((sortDescending scores).take 5).map fun e => (ofLex e).2).filter m.isMissing), m)

def getCurrentSequentialPiece : Nat :=
  if 0 < m.current_sequential_piece then m.current_sequential_piece
  else m.getMissingPieces.1.min?.getD 0

def sortByFilePriority (fm : FileSelectionManager) (piece_indices : List Nat) : List Nat :=
  let selected_files :=
    (fm.file_states.entries.filter fun e => e.2.selected).map Prod.fst
  let piece_priorities := piece_indices.filterMap fun piece_index =>
    (selected_files.findIdx? fun f => f ∈ fm.getFilesForPiece piece_index).map fun file_order =>
      toLex (file_order, piece_index)
  (sortOn id piece_priorities).map fun e => (ofLex e).2

def selectSequential : List Nat × AsyncPieceManager :=
  let (missing_pieces, m) := m.getMissingPieces
  let window_start := m.getCurrentSequentialPiece
  let window_end := min (window_start + config.sequential_window) m.pieces.length
  let window_pieces := missing_pieces.filter fun i => window_start ≤ i ∧ i < window_end
  let window_pieces :=
    match m.file_selection_manager with
    | some fm => sortByFilePriority fm window_pieces
    | none => window_pieces
  ((window_pieces.find? m.isMissing).toList, m)

def selectRoundRobin : List Nat := (missingIn m.pieces).head?.toList

/-- `_select_pieces` with `active_peers` active peers: the pieces it requests. -/
def selectPieces (active_peers : Nat) : List Nat × AsyncPieceManager :=
  if m.download_complete ∨ active_peers = 0 then ([], m)
  else
    let m :=
      if m.pieces ≠ [] ∧ m.num_pieces = 0 then { m with num_pieces := m.pieces.length }
      else m.initializePieces config
    let (missing, m) := m.getMissingPieces
    let m := { m with pieces := m.pieces.map PieceData.correct }
    let m :=
      if (missing.length : Rat) ≤ m.num_pieces * (1 - config.endgame_threshold) ∧
          m.endgame_mode = false then
        { m with endgame_mode := true }
      else m
    match config.piece_selection with
    | .RAREST_FIRST => (m.selectRarestFirst.1.getD [], m.selectRarestFirst.2)
    | .SEQUENTIAL => m.selectSequential config
    | .ROUND_ROBIN => (m.selectRoundRobin, m)

end AsyncPieceManager

end Piece

end Ccbt
