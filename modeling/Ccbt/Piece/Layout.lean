import Ccbt.Piece.Checkpoint
import Ccbt.Piece.Coherence

/-!
# What the tasks never change: the layout of the pieces

The number of pieces, their lengths and blocks, and the hashes they are compared with. Once there
are pieces, neither the calls and tasks of `System` nor a checkpoint change any of them.
-/

namespace Ccbt

open Python

namespace Piece

/-- A change that a map does not see. -/
theorem map_modify_eq_map {α β : Type} {f : α → α} {g : α → β} (h : ∀ a, g (f a) = g a)
    (l : List α) (i : Nat) : (l.modify i f).map g = l.map g := by
  apply List.ext_getElem?
  intro j
  rw [List.getElem?_map, List.getElem?_map, List.getElem?_modify]
  cases l[j]? with
  | none => rfl
  | some a =>
    show some (g (if i = j then f a else a)) = some (g a)
    split
    · rw [h a]
    · rfl

namespace PieceData

/-- A piece without what is received and asked for. -/
def layout (p : PieceData) : Nat × Nat × Int × List (Nat × Nat × Nat) :=
  (p.piece_index, p.length, p.priority, p.blocks.map fun b => (b.piece_index, b.begin, b.length))

@[simp] theorem layout_addBlock (p : PieceData) (begin : Nat) (data : Bytes) :
    (p.addBlock begin data).2.layout = p.layout := by
  rw [addBlock]
  cases hfill : fillBlock begin data p.blocks with
  | none => rfl
  | some blocks =>
    obtain ⟨front, block, back, hblocks, -, -, -, rfl⟩ := fillBlock_eq_some hfill
    simp [layout, hblocks]

@[simp] theorem layout_correct (p : PieceData) : p.correct.layout = p.layout := by
  rw [correct]
  split <;> rfl

@[simp] theorem layout_addRequestedFrom (p : PieceData) (n : Nat) (peer_key : String) :
    (p.addRequestedFrom n peer_key).layout = p.layout := by
  have hblocks := map_modify_eq_map (g := fun b : PieceBlock => (b.piece_index, b.begin, b.length))
    (f := fun b => { b with requested_from := insert peer_key b.requested_from })
    (fun _ => rfl) p.blocks n
  exact congrArg (fun blocks => (p.piece_index, p.length, p.priority, blocks)) hblocks

end PieceData

theorem Checkpoint.layout_restoreState (verified_pieces : List Int) (i : Int) (state : PieceState)
    (p : PieceData) : (restoreState verified_pieces i state p).layout = p.layout := by
  have hwith (q : PieceData) (state : PieceState) (b : Bool) :
      ({ q with state := state, hash_verified := b } : PieceData).layout = q.layout := rfl
  simp only [restoreState, apply_ite PieceData.layout, hwith, ite_self]

/-- One manager has the number of pieces, their layout and their hashes from another, and where
that has no pieces, also the selected files. -/
structure SameShape (m m' : AsyncPieceManager) : Prop where
  num_pieces : m'.num_pieces = m.num_pieces
  piece_length : m'.piece_length = m.piece_length
  piece_hashes : m'.piece_hashes = m.piece_hashes
  pieces : m'.pieces.map PieceData.layout = m.pieces.map PieceData.layout
  selection : m.pieces = [] → m'.file_selection_manager = m.file_selection_manager

namespace SameShape

variable {m m' m'' : AsyncPieceManager}

theorem refl (m : AsyncPieceManager) : SameShape m m := ⟨rfl, rfl, rfl, rfl, fun _ => rfl⟩

theorem pieces_eq_nil_iff (h : SameShape m m') : m'.pieces = [] ↔ m.pieces = [] := by
  rw [← List.map_eq_nil_iff (f := PieceData.layout), h.pieces, List.map_eq_nil_iff]

theorem trans (h : SameShape m m') (h' : SameShape m' m'') : SameShape m m'' where
  num_pieces := h'.num_pieces.trans h.num_pieces
  piece_length := h'.piece_length.trans h.piece_length
  piece_hashes := h'.piece_hashes.trans h.piece_hashes
  pieces := h'.pieces.trans h.pieces
  selection hempty :=
    (h'.selection (h.pieces_eq_nil_iff.mpr hempty)).trans (h.selection hempty)

/-- Changing one piece without touching its layout. -/
theorem modifyPiece (m : AsyncPieceManager) (i : Nat) {f : PieceData → PieceData}
    (hf : ∀ p, (f p).layout = p.layout) : SameShape m (m.modifyPiece i f) where
  num_pieces := rfl
  piece_length := rfl
  piece_hashes := rfl
  pieces := map_modify_eq_map hf _ _
  selection _ := rfl

theorem setState (m : AsyncPieceManager) (i : Nat) (state : PieceState) :
    SameShape m (m.setState i state) :=
  modifyPiece m i fun _ => rfl

theorem correct (m : AsyncPieceManager) :
    SameShape m { m with pieces := m.pieces.map PieceData.correct } where
  num_pieces := rfl
  piece_length := rfl
  piece_hashes := rfl
  pieces := by
    rw [List.map_map]
    exact List.map_congr_left fun p _ => p.layout_correct
  selection _ := rfl

theorem getMissingPieces (m : AsyncPieceManager) : SameShape m m.getMissingPieces.2 := correct m

end SameShape

namespace AsyncPieceManager

/-- The pieces are listed exactly when their number is known. -/
def Listed (m : AsyncPieceManager) : Prop := m.pieces = [] ↔ m.num_pieces = 0

theorem Listed.of_sameShape {m m' : AsyncPieceManager} (h : m.Listed) (hs : SameShape m m') :
    m'.Listed := by
  rw [Listed, hs.pieces_eq_nil_iff, hs.num_pieces]
  exact h

variable {m : AsyncPieceManager} {config : Config}

theorem initializePieces_of_listed (h : m.Listed) : m.initializePieces config = m := by
  rw [initializePieces, if_neg]
  rintro ⟨hpos, hempty⟩
  exact hpos.ne' (h.mp hempty)

theorem sameShape_selectPieces (h : m.Listed) (active_peers : Nat) :
    SameShape m (m.selectPieces config active_peers).2 := by
  have hinfer : ¬(m.pieces ≠ [] ∧ m.num_pieces = 0) := fun hn => hn.1 (h.mpr hn.2)
  rw [selectPieces]
  by_cases hstop : m.download_complete = true ∨ active_peers = 0
  · rw [if_pos hstop]
    exact .refl m
  · rw [if_neg hstop, if_neg hinfer, initializePieces_of_listed h]
    have hsame (b : Bool) : SameShape m { m.getMissingPieces.2 with
        pieces := m.getMissingPieces.2.pieces.map PieceData.correct, endgame_mode := b } :=
      (SameShape.getMissingPieces m).trans
        ((SameShape.correct _).trans ⟨rfl, rfl, rfl, rfl, fun _ => rfl⟩)
    dsimp only
    split_ifs
    · cases config.piece_selection with
      | RAREST_FIRST | SEQUENTIAL => exact (hsame true).trans (.getMissingPieces _)
      | ROUND_ROBIN => exact hsame true
    · cases config.piece_selection with
      | RAREST_FIRST | SEQUENTIAL => exact (hsame m.endgame_mode).trans (.getMissingPieces _)
      | ROUND_ROBIN => exact hsame m.endgame_mode

theorem sameShape_restoreStates (piece_states : List (Int × PieceState))
    (verified_pieces : List Int) : SameShape m (m.restoreStates piece_states verified_pieces) where
  num_pieces := rfl
  piece_length := rfl
  piece_hashes := rfl
  pieces := by
    show (piece_states.foldl _ m.pieces).map PieceData.layout = _
    generalize m.pieces = pieces
    induction piece_states generalizing pieces with
    | nil => rfl
    | cons e piece_states ih =>
      rw [List.foldl_cons, ih]
      dsimp only
      split
      · exact map_modify_eq_map (Checkpoint.layout_restoreState _ _ _) _ _
      · rfl
  selection _ := rfl

/-- A checkpoint changes no layout but by the pieces that it makes. -/
theorem sameShape_restoreFromCheckpoint (config : Config) (m : AsyncPieceManager) (c : Checkpoint) :
    SameShape (m.restorePieces config c) (m.restoreFromCheckpoint config c) := by
  have hrest (m : AsyncPieceManager) (b : Bool) (f : Counter Nat) :
      SameShape m { m with endgame_mode := b, piece_frequency := f } :=
    ⟨rfl, rfl, rfl, rfl, fun _ => rfl⟩
  exact (sameShape_restoreStates _ _).trans (hrest _ _ _)

theorem sameShape_acceptBlock {i : Nat} {piece : PieceData} (hpiece : m.pieces[i]? = some piece)
    (begin : Nat) (data : Bytes) :
    SameShape m (m.acceptBlock i (piece.addBlock begin data).2) where
  num_pieces := rfl
  piece_length := rfl
  piece_hashes := rfl
  pieces := by
    apply List.ext_getElem?
    intro j
    rw [List.getElem?_map, List.getElem?_map, getElem?_acceptBlock m hpiece]
    split
    · next hj => rw [hj, hpiece, Option.map_some, Option.map_some, PieceData.layout_addBlock]
    · rfl
  selection hempty := by
    rw [hempty] at hpiece
    cases hpiece

end AsyncPieceManager

namespace System

variable {config : Config} {s : System} {n i : Nat}

theorem sameShape_handlePieceBlock (begin : Nat) (data : Bytes) :
    SameShape s.manager (s.handlePieceBlock i begin data).manager := by
  rw [handlePieceBlock]
  obtain heq | ⟨piece, hpiece, -, heq⟩ := s.manager.handlePieceBlock_cases i begin data
  · rw [heq]
    exact .refl _
  · rw [heq]
    have haccept := AsyncPieceManager.sameShape_acceptBlock hpiece begin data
    dsimp only
    split
    · show SameShape s.manager (System.call _ true (.on_piece_completed i)).manager
      rw [manager_call]
      exact haccept
    · exact haccept

theorem sameShape_sendNext {m : AsyncPieceManager} (h : SameShape m s.manager)
    (peers : PeerManager) (available_peers : List String) (pairs : List (Nat × String))
    (missing_blocks : List Nat) :
    SameShape m (s.sendNext config peers n i available_peers pairs missing_blocks).manager := by
  rw [sendNext]
  split
  · exact h
  · exact h.trans (.setState _ _ _)

theorem sameShape_startRequest (h : s.manager.Listed) (peers : PeerManager) :
    SameShape s.manager (s.startRequest config peers n i).manager := by
  rw [startRequest, AsyncPieceManager.initializePieces_of_listed h]
  dsimp only
  split
  · exact .refl _
  · split
    · exact .refl _
    · have hrequested := SameShape.modifyPiece s.manager i (f := fun piece =>
        { piece with state := .REQUESTED, request_count := piece.request_count + 1 }) fun _ => rfl
      split
      · exact hrequested.trans (.setState _ _ _)
      · exact hrequested
      · split
        · exact sameShape_sendNext (s := s.setManager _) hrequested _ _ _ _
        · exact sameShape_sendNext (s := s.setManager _) hrequested _ _ _ _

theorem sameShape_pieceVerified : SameShape s.manager (s.pieceVerified i).manager := by
  rw [manager_pieceVerified]
  exact (SameShape.setState s.manager i .VERIFIED).trans ⟨rfl, rfl, rfl, rfl, fun _ => rfl⟩

theorem sameShape_resume (h : s.manager.Listed) (peers : PeerManager) (raises : Bool) :
    SameShape s.manager (s.resume config n peers raises).manager := by
  rw [resume]
  split
  · exact sameShape_startRequest h peers
  · split
    · exact .refl _
    · next t _ _ =>
      have hsent := SameShape.modifyPiece s.manager t.piece_index
        fun p => p.layout_addRequestedFrom t.current.1 t.current.2
      exact sameShape_sendNext (s := s.setManager _) hsent _ _ _ _
  · rw [startVerify]
    split <;> exact .refl _
  · rw [hashed]
    split
    · exact .refl _
    · split
      · exact sameShape_pieceVerified (s := s.setTask n .finished)
      · split <;> exact .refl _
  all_goals exact .refl _

/-- No call and no task changes the layout of the pieces. -/
theorem sameShape_step (config : Config) (h : s.manager.Listed) (e : Event) :
    SameShape s.manager (s.step config e).manager := by
  -- an event that only concerns the peers leaves all of it alone
  have hpeers {m : AsyncPieceManager} (hnum : m.num_pieces = s.manager.num_pieces)
      (hlength : m.piece_length = s.manager.piece_length)
      (hhashes : m.piece_hashes = s.manager.piece_hashes) (hpieces : m.pieces = s.manager.pieces)
      (hfm : m.file_selection_manager = s.manager.file_selection_manager) :
      SameShape s.manager m := ⟨hnum, hlength, hhashes, by rw [hpieces], fun _ => hfm⟩
  cases e with
  | handle_piece_block i begin data => exact sameShape_handlePieceBlock begin data
  | request_piece_from_peers i => exact .refl _
  | _verify_piece_hash i =>
    rw [step]
    split <;> exact .refl _
  | get_missing_pieces => exact .getMissingPieces _
  | _select_pieces active_peers => exact AsyncPieceManager.sameShape_selectPieces h active_peers
  | _add_peer peer_key =>
    rw [step, AsyncPieceManager.addPeer]
    split <;> exact hpeers rfl rfl rfl rfl rfl
  | update_peer_availability peer_key bitfield => exact hpeers rfl rfl rfl rfl rfl
  | update_peer_have peer_key i => exact hpeers rfl rfl rfl rfl rfl
  | _remove_peer peer_key =>
    rw [step, AsyncPieceManager.removePeer]
    split <;> exact hpeers rfl rfl rfl rfl rfl
  | resume n peers raises => exact sameShape_resume h peers raises
  | hash n =>
    rw [step, hash]
    split <;> exact .refl _

end System

end Piece

end Ccbt
