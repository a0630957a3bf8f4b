import Ccbt.Piece.Tasks

/-!
# Saving and resuming: the checkpoints of `piece/async_piece_manager.py`

`get_checkpoint_state`, and what `restore_from_checkpoint` makes of its result in a manager that
has just been built. Such a manager holds no data, and a piece is restored as complete or as
verified only if it has all its blocks. So what was verified is lost, except where a piece has
no blocks at all; a piece that was being downloaded keeps its state.
-/

namespace Ccbt

open Python

namespace Piece

namespace AsyncPieceManager

def pieceStates (pieces : List PieceData) : Dict Int PieceState where
  entries := pieces.zipIdx.map fun e => ((e.2 : Int), e.1.state)
  nodup_keys := by
    have hkeys : (pieces.zipIdx.map fun e => ((e.2 : Int), e.1.state)).map Prod.fst =
        (pieces.zipIdx.map Prod.snd).map (Nat.cast : Nat → Int) := by
      rw [List.map_map, List.map_map]
      rfl
    rw [hkeys, List.zipIdx_map_snd, ← List.range_eq_range']
    exact List.nodup_range.map Nat.cast_injective

/-- The checkpoint of a manager, as far as `restore_from_checkpoint` reads it. -/
def checkpoint (m : AsyncPieceManager) (bytes_downloaded : Nat) : Checkpoint where
  total_pieces := m.num_pieces
  piece_length := m.piece_length
  verified_pieces := m.verified_pieces.sort.map Nat.cast
  piece_states := pieceStates m.pieces
  bytes_downloaded := bytes_downloaded
  endgame_mode := m.endgame_mode
  piece_frequency := some (m.piece_frequency.mostCommon 20)

/-- `get_checkpoint_state`, with `none` where `TorrentCheckpoint` refuses a piece length of zero. -/
def getCheckpointState (m : AsyncPieceManager) (bytes_downloaded : Nat) : Option Checkpoint :=
  if m.piece_length = 0 then none else some (m.checkpoint bytes_downloaded)

/-- The verified pieces are the same, and every other piece is missing. -/
structure KeepsProgress (m restored : AsyncPieceManager) : Prop where
  verified_pieces : restored.verified_pieces = m.verified_pieces
  missing : ∀ (i : Nat) (piece : PieceData), restored.pieces[i]? = some piece →
    i ∉ restored.verified_pieces → piece.state = .MISSING

def stateOf (m : AsyncPieceManager) (i : Nat) : Option PieceState :=
  m.pieces[i]?.map PieceData.state

/-- A piece of the new manager that has no blocks. -/
def Blockless (t : TorrentData) (i : Nat) : Prop := i < t.num_pieces ∧ initialLength t i = 0

instance (t : TorrentData) (i : Nat) : Decidable (Blockless t i) :=
  inferInstanceAs (Decidable (_ ∧ _))

/-- The number of pieces of the resumed manager. -/
def listedPieces (m : AsyncPieceManager) (t : TorrentData) : Nat :=
  if t.num_pieces = 0 then m.num_pieces else t.num_pieces

/-- Every piece is complete or verified, but none is among the verified ones, and nothing has
been downloaded. -/
structure LooksCorrupted (m : AsyncPieceManager) (bytes_downloaded : Nat) : Prop where
  listed : m.pieces ≠ []
  complete : ∀ piece ∈ m.pieces, piece.state = .COMPLETE ∨ piece.state = .VERIFIED
  verified : m.verified_pieces = ∅
  downloaded : bytes_downloaded = 0

structure Resumable (m : AsyncPieceManager) (bytes_downloaded : Nat) (t : TorrentData) : Prop where
  verified : ∀ i ∈ m.verified_pieces, Blockless t i ∧ m.stateOf i = some .VERIFIED
  under_way : ∀ i < m.listedPieces t,
    m.stateOf i ≠ some .REQUESTED ∧ m.stateOf i ≠ some .DOWNLOADING
  blockless : ∀ i, Blockless t i → i ∉ m.verified_pieces →
    m.LooksCorrupted bytes_downloaded ∨
      (m.stateOf i ≠ some .COMPLETE ∧ m.stateOf i ≠ some .VERIFIED)

section Pieces

variable {config : Config}

theorem blocks_new_eq_nil_iff {i length : Nat} :
    (PieceData.new config.block_size i length).blocks = [] ↔ length = 0 := by
  have hpos := config.block_size_pos
  rw [PieceData.new, initialBlocks, List.map_eq_nil_iff, List.range_eq_nil,
    Nat.div_eq_zero_iff]
  omega

/-- A piece as it is built: it is missing, and none of its blocks has been received. -/
structure Untouched (piece : PieceData) : Prop where
  missing : piece.state = .MISSING
  isComplete_iff : piece.isComplete = true ↔ piece.blocks = []

theorem untouched_newPiece (config : Config) (m : AsyncPieceManager) (i length : Nat) :
    Untouched (m.newPiece config i length) ∧
      ((m.newPiece config i length).blocks = [] ↔ length = 0) := by
  refine ⟨⟨rfl, ?_⟩, blocks_new_eq_nil_iff⟩
  rw [PieceData.isComplete_iff, List.eq_nil_iff_forall_not_mem]
  have hopen : ∀ block ∈ (m.newPiece config i length).blocks, block.received = false := by
    intro block hblock
    obtain ⟨n, -, rfl⟩ := List.mem_map.mp hblock
    rfl
  refine forall_congr' fun block => ⟨fun h hblock => ?_, fun h hblock => absurd hblock h⟩
  exact Bool.false_ne_true ((hopen block hblock).symm.trans (h hblock))

theorem isComplete_with (piece : PieceData) (state : PieceState) (hash_verified : Bool) :
    ({ piece with state := state, hash_verified := hash_verified } : PieceData).isComplete =
      piece.isComplete := rfl

/-- A checkpoint makes a piece complete or verified only if all its blocks are there. -/
theorem state_restoreState (piece : PieceData) (verified_pieces : List Int) (i : Int)
    (state : PieceState) : (Checkpoint.restoreState verified_pieces i state piece).state =
      if state = .COMPLETE ∨ state = .VERIFIED then
        if piece.isComplete then
          if state = .VERIFIED ∧ i ∈ verified_pieces then .VERIFIED else .COMPLETE
        else .MISSING
      else state := by
  unfold Checkpoint.restoreState
  -- only the two states of a finished piece are checked against its blocks
  cases state with
  | VERIFIED =>
    by_cases hi : i ∈ verified_pieces
    · cases hcomplete : piece.isComplete <;> simp [isComplete_with, hcomplete, hi]
    · cases hcomplete : piece.isComplete <;> simp [isComplete_with, hcomplete, hi]
  | COMPLETE => cases hcomplete : piece.isComplete <;> simp [isComplete_with, hcomplete]
  | MISSING | REQUESTED | DOWNLOADING => simp

end Pieces

section Restoring

variable {config : Config} {m : AsyncPieceManager} {bytes_downloaded : Nat} {c : Checkpoint}

theorem getCheckpointState_eq_some_iff : m.getCheckpointState bytes_downloaded = some c ↔
    m.piece_length ≠ 0 ∧ m.checkpoint bytes_downloaded = c := by
  rw [getCheckpointState]
  split
  · next h => simp [h]
  · next h => simp [h]

theorem lookup_pieceStates (pieces : List PieceData) (i : Nat) :
    (pieceStates pieces).entries.lookup (i : Int) = pieces[i]?.map PieceData.state := by
  ext state
  rw [lookup_eq_some_iff (pieceStates pieces).nodup_keys, Option.map_eq_some_iff, pieceStates,
    List.mem_map]
  constructor
  · rintro ⟨⟨piece, j⟩, hmem, heq⟩
    obtain ⟨hi, hstate⟩ := Prod.mk.inj heq
    cases Int.ofNat.inj hi
    exact ⟨piece, List.mem_zipIdx_iff_getElem?.mp hmem, hstate⟩
  · rintro ⟨piece, hpiece, hstate⟩
    exact ⟨(piece, i), List.mem_zipIdx_iff_getElem?.mpr hpiece, by rw [hstate]⟩

/-- The loop over the states changes each piece once at most. -/
theorem getElem?_restoreStates {piece_states : List (Int × PieceState)}
    (hkeys : (piece_states.map Prod.fst).Nodup) (m : AsyncPieceManager)
    (verified_pieces : List Int) (i : Nat) :
    (m.restoreStates piece_states verified_pieces).pieces[i]? = m.pieces[i]?.map fun piece =>
      match piece_states.lookup (i : Int) with
      | some state => Checkpoint.restoreState verified_pieces i state piece
      | none => piece := by
  show (piece_states.foldl _ m.pieces)[i]? = _
  generalize m.pieces = pieces
  induction piece_states generalizing pieces with
  | nil => simp
  | cons e piece_states ih =>
    obtain ⟨key, state⟩ := e
    obtain ⟨hkey, hkeys⟩ := List.nodup_cons.mp hkeys
    rw [List.foldl_cons, ih hkeys]
    by_cases hi : (i : Int) = key
    · -- the key does not come again
      subst hi
      have hnone : piece_states.lookup (i : Int) = none := lookup_eq_none_iff.mpr hkey
      rw [hnone, List.lookup_cons_self]
      dsimp only
      rw [if_pos (Int.natCast_nonneg i), Int.toNat_natCast, List.getElem?_modify_eq]
      cases pieces[i]? <;> rfl
    · rw [List.lookup_cons, beq_false_of_ne hi]
      dsimp only
      congr 1
      split
      · exact List.getElem?_modify_ne _ _ (by omega)
      · rfl

/-- A manager whose pieces are as they were built, where these have no blocks. -/
structure Fresh (m : AsyncPieceManager) (n : Nat) (B : Nat → Prop) : Prop where
  num_pieces : m.num_pieces = n
  length : m.pieces.length = n
  pieces : ∀ i piece, m.pieces[i]? = some piece → Untouched piece ∧ (piece.blocks = [] ↔ B i)

theorem fresh_of_newPieces {m m' : AsyncPieceManager} {n : Nat} {length : Nat → Nat}
    {B : Nat → Prop} (hnum : m.num_pieces = n)
    (hpieces : m.pieces = (List.range n).map fun i => m'.newPiece config i (length i))
    (hB : ∀ i < n, length i = 0 ↔ B i) : Fresh m n B where
  num_pieces := hnum
  length := by rw [hpieces, List.length_map, List.length_range]
  pieces i piece hpiece := by
    rw [hpieces, List.getElem?_map, Option.map_eq_some_iff] at hpiece
    obtain ⟨j, hj, rfl⟩ := hpiece
    obtain ⟨hi, rfl⟩ := List.getElem?_eq_some_iff.mp hj
    rw [List.length_range] at hi
    obtain ⟨huntouched, hblocks⟩ := untouched_newPiece config m' i (length i)
    rw [List.getElem_range]
    exact ⟨huntouched, hblocks.trans (hB i hi)⟩

theorem restorePieces_of_listed (h : ¬(0 < c.total_pieces ∧ m.pieces = [])) :
    m.restorePieces config c = m := if_neg h

/-- A manager without pieces takes their number from the checkpoint. -/
theorem restorePieces_of_empty (config : Config) (htotal : 0 < c.total_pieces)
    (hpieces : m.pieces = []) (hnum : m.num_pieces = 0) :
    (m.restorePieces config c).num_pieces = c.total_pieces ∧
      ∃ m' : AsyncPieceManager, (m.restorePieces config c).pieces =
        (List.range c.total_pieces).map fun i =>
          m'.newPiece config i (if m.piece_length = 0 then c.piece_length else m.piece_length) := by
  rw [restorePieces, if_pos ⟨htotal, hpieces⟩]
  dsimp only
  rw [if_pos hnum]
  exact ⟨rfl, _, rfl⟩

/-- The pieces that are there when the states are restored. -/
theorem fresh_restorePieces (config : Config) (t : TorrentData) (fm : Option FileSelectionManager)
    (hc : m.getCheckpointState bytes_downloaded = some c) :
    Fresh ((new config t fm).restorePieces config c) (m.listedPieces t) (Blockless t) := by
  obtain ⟨hpos, rfl⟩ := getCheckpointState_eq_some_iff.mp hc
  have hnew : (new config t fm).pieces.length = t.num_pieces := by
    rw [new, List.length_map, List.length_range]
  rw [listedPieces]
  by_cases ht : t.num_pieces = 0
  · rw [if_pos ht]
    have hempty : (new config t fm).pieces = [] := List.eq_nil_of_length_eq_zero (hnew.trans ht)
    have hnone (i : Nat) : ¬Blockless t i := fun h => absurd h.1 (by omega)
    by_cases hm : 0 < m.num_pieces
    · -- the number of pieces comes from the checkpoint, and so does a length that is missing
      obtain ⟨hnum, m', hpieces⟩ := restorePieces_of_empty config
        (c := m.checkpoint bytes_downloaded) hm hempty ht
      refine fresh_of_newPieces hnum hpieces fun i _ => iff_of_false ?_ (hnone i)
      split
      · exact hpos
      · assumption
    · rw [restorePieces_of_listed fun h => hm h.1]
      have hzero : m.num_pieces = 0 := Nat.eq_zero_of_not_pos hm
      refine ⟨ht.trans hzero.symm, ?_, fun i piece hpiece => ?_⟩
      · rw [hempty, hzero]
        rfl
      · rw [hempty] at hpiece
        cases hpiece
  · rw [if_neg ht, restorePieces_of_listed]
    · exact fresh_of_newPieces rfl rfl fun i hi => ⟨fun h => ⟨hi, h⟩, fun h => h.2⟩
    · rintro ⟨-, hempty⟩
      rw [hempty] at hnew
      exact ht hnew.symm

theorem isCorrupted_iff :
    (m.checkpoint bytes_downloaded).isCorrupted = true ↔ m.LooksCorrupted bytes_downloaded := by
  have hverified : m.verified_pieces.sort.map (Nat.cast : Nat → Int) = [] ↔
      m.verified_pieces = ∅ := by
    rw [List.map_eq_nil_iff, ← List.length_eq_zero_iff, Finset.length_sort, Finset.card_eq_zero]
  have hentries : (pieceStates m.pieces).entries ≠ [] ↔ m.pieces ≠ [] := by
    rw [pieceStates, Ne, List.map_eq_nil_iff, List.zipIdx_eq_nil_iff]
  have hcomplete : (pieceStates m.pieces).entries.all
      (fun e => e.2 = .COMPLETE ∨ e.2 = .VERIFIED) = true ↔
      ∀ piece ∈ m.pieces, piece.state = .COMPLETE ∨ piece.state = .VERIFIED := by
    rw [pieceStates, List.all_eq_true]
    conv_rhs => rw [← List.zipIdx_map_fst 0 m.pieces]
    simp only [List.forall_mem_map, decide_eq_true_eq]
  rw [Checkpoint.isCorrupted, Bool.and_eq_true, decide_eq_true_eq, checkpoint, hcomplete,
    hverified, hentries]
  constructor
  · rintro ⟨hall, hnone, hbytes, hlisted⟩
    exact ⟨hlisted, hall, hnone, hbytes⟩
  · rintro ⟨hlisted, hall, hnone, hbytes⟩
    exact ⟨hall, hnone, hbytes, hlisted⟩

/-- The state that a piece of the resumed manager has. -/
def restoredState (m : AsyncPieceManager) (t : TorrentData) (i : Nat) : PieceState :=
  match m.stateOf i with
  | none => .MISSING
  | some state =>
    if state = .COMPLETE ∨ state = .VERIFIED then
      if Blockless t i then
        if state = .VERIFIED ∧ i ∈ m.verified_pieces then .VERIFIED else .COMPLETE
      else .MISSING
    else state

theorem restoredState_eq_verified_iff (m : AsyncPieceManager) (t : TorrentData) (i : Nat) :
    m.restoredState t i = .VERIFIED ↔
      m.stateOf i = some .VERIFIED ∧ i ∈ m.verified_pieces ∧ Blockless t i := by
  rw [restoredState]
  cases m.stateOf i with
  | none => simp
  | some state =>
    by_cases hb : Blockless t i
    · cases state <;> simp [hb]
    · cases state <;> simp [hb]

theorem restoredState_eq_missing_iff (m : AsyncPieceManager) (t : TorrentData) (i : Nat) :
    m.restoredState t i = .MISSING ↔
      m.stateOf i ≠ some .REQUESTED ∧ m.stateOf i ≠ some .DOWNLOADING ∧
        (Blockless t i → m.stateOf i ≠ some .COMPLETE ∧ m.stateOf i ≠ some .VERIFIED) := by
  rw [restoredState]
  cases m.stateOf i with
  | none => simp
  | some state =>
    by_cases hb : Blockless t i
    · by_cases hv : i ∈ m.verified_pieces <;> cases state <;> simp [hb, hv]
    · cases state <;> simp [hb]

theorem mem_verified_restoreStates {piece_states : List (Int × PieceState)}
    {verified_pieces : List Int} {i : Nat} :
    i ∈ (m.restoreStates piece_states verified_pieces).verified_pieces ↔
      (m.restoreStates piece_states verified_pieces).pieces[i]?.map PieceData.state =
        some .VERIFIED ∧ (i : Int) ∈ verified_pieces := by
  rw [restoreStates]
  simp only [Finset.mem_filter, Finset.mem_range]
  refine and_congr_left fun _ => and_iff_right_of_imp fun h => ?_
  obtain ⟨piece, hpiece, -⟩ := Option.map_eq_some_iff.mp h
  exact (List.getElem?_eq_some_iff.mp hpiece).1

/-- What a corrupted checkpoint leaves: nothing is verified and everything is missing. -/
theorem restored_of_corrupted (config : Config) (t : TorrentData)
    (fm : Option FileSelectionManager) (hc : m.getCheckpointState bytes_downloaded = some c)
    (hcorrupted : c.isCorrupted = true) :
    ((new config t fm).restoreFromCheckpoint config c).verified_pieces = ∅ ∧
      ∀ (i : Nat) (piece : PieceData),
        ((new config t fm).restoreFromCheckpoint config c).pieces[i]? = some piece →
        piece.state = .MISSING := by
  have hfresh := fresh_restorePieces config t fm hc
  rw [restoreFromCheckpoint, if_pos hcorrupted]
  dsimp only
  refine ⟨?_, fun i piece hpiece => (hfresh.pieces i piece hpiece).1.missing⟩
  rw [if_neg (by simp)]
  ext i
  rw [mem_verified_restoreStates]
  simp

/-- What the states of the manager make of pieces that are as they were built. -/
theorem restoreStates_fresh {base : AsyncPieceManager} {t : TorrentData}
    (hfresh : Fresh base (m.listedPieces t) (Blockless t)) {verified_pieces : List Int} {i : Nat}
    (hmem : i < m.listedPieces t → ((i : Int) ∈ verified_pieces ↔ i ∈ m.verified_pieces)) :
    ((base.restoreStates (pieceStates m.pieces).entries verified_pieces).pieces[i]?.map
        PieceData.state =
        if i < m.listedPieces t then some (m.restoredState t i) else none) ∧
      (i ∈ (base.restoreStates (pieceStates m.pieces).entries verified_pieces).verified_pieces ↔
        i < m.listedPieces t ∧ m.restoredState t i = .VERIFIED) := by
  have hstate : (base.restoreStates (pieceStates m.pieces).entries verified_pieces).pieces[i]?.map
      PieceData.state = if i < m.listedPieces t then some (m.restoredState t i) else none := by
    rw [getElem?_restoreStates (pieceStates m.pieces).nodup_keys, lookup_pieceStates,
      Option.map_map]
    by_cases hi : i < m.listedPieces t
    · rw [if_pos hi]
      have hlt : i < base.pieces.length := by rwa [hfresh.length]
      obtain ⟨huntouched, hblocks⟩ := hfresh.pieces i _ (List.getElem?_eq_getElem hlt)
      have hcomplete : base.pieces[i].isComplete = true ↔ Blockless t i :=
        huntouched.isComplete_iff.trans hblocks
      rw [List.getElem?_eq_getElem hlt, Option.map_some, Function.comp_apply, restoredState,
        stateOf]
      cases m.pieces[i]?.map PieceData.state with
      | none => rw [huntouched.missing]
      | some state =>
        dsimp only
        rw [state_restoreState]
        simp only [hcomplete, hmem hi]
    · have hnone : base.pieces[i]? = none := by
        rw [List.getElem?_eq_none_iff, hfresh.length]
        omega
      rw [if_neg hi, hnone]
      rfl
  refine ⟨hstate, ?_⟩
  rw [mem_verified_restoreStates, hstate]
  by_cases hi : i < m.listedPieces t
  · rw [if_pos hi, hmem hi, Option.some_inj, and_iff_right hi]
    exact and_iff_left_of_imp fun h => ((restoredState_eq_verified_iff m t i).mp h).2.1
  · simp [hi]

/-- Truncating the verified pieces loses none that is listed. -/
theorem mem_truncate {verified_pieces : List Int} {n i : Nat} (hi : i < n) :
    ((i : Int) ∈ if n < verified_pieces.length then
        verified_pieces.filter fun i : Int => 0 ≤ i ∧ i < n
      else verified_pieces) ↔ (i : Int) ∈ verified_pieces := by
  split
  · rw [List.mem_filter, decide_eq_true_eq]
    exact and_iff_left ⟨Int.natCast_nonneg i, by omega⟩
  · rfl

/-- The pieces have the states that are restored for them, and those are verified that have that
state. -/
def RestoresStates (m restored : AsyncPieceManager) (t : TorrentData) : Prop :=
  ∀ i, (restored.pieces[i]?.map PieceData.state =
      if i < m.listedPieces t then some (m.restoredState t i) else none) ∧
    (i ∈ restored.verified_pieces ↔ i < m.listedPieces t ∧ m.restoredState t i = .VERIFIED)

/-- What a checkpoint that is not corrupted leaves of the pieces. -/
theorem restored_pieces (config : Config) (t : TorrentData)
    (fm : Option FileSelectionManager) (hc : m.getCheckpointState bytes_downloaded = some c)
    (hcorrupted : ¬c.isCorrupted = true) :
    m.RestoresStates ((new config t fm).restoreFromCheckpoint config c) t := by
  intro i
  have hfresh := fresh_restorePieces config t fm hc
  obtain ⟨-, rfl⟩ := getCheckpointState_eq_some_iff.mp hc
  rw [restoreFromCheckpoint, if_neg hcorrupted]
  refine restoreStates_fresh hfresh fun hi => ?_
  rw [← hfresh.num_pieces] at hi
  refine (mem_truncate hi).trans ?_
  rw [checkpoint, List.mem_map_of_injective Nat.cast_injective, Finset.mem_sort]

theorem LooksCorrupted.resumable (h : m.LooksCorrupted bytes_downloaded) (t : TorrentData) :
    Resumable m bytes_downloaded t where
  verified i hi := by
    rw [h.verified] at hi
    exact absurd hi (Finset.notMem_empty i)
  under_way i _ := by
    rw [stateOf]
    cases hpiece : m.pieces[i]? with
    | none => simp
    | some piece =>
      have hstate := h.complete piece (List.mem_of_getElem? hpiece)
      rcases hstate with hstate | hstate <;> simp [hstate]
  blockless _ _ _ := .inl h

theorem Blockless.lt_listedPieces {t : TorrentData} {i : Nat} (h : Blockless t i)
    (m : AsyncPieceManager) : i < m.listedPieces t := by
  have hlt := h.1
  rw [listedPieces, if_neg (by omega)]
  exact hlt

section Restored

variable {t : TorrentData} {restored : AsyncPieceManager}

theorem RestoresStates.resumable (h : m.RestoresStates restored t)
    (hkeeps : KeepsProgress m restored) : Resumable m bytes_downloaded t := by
  obtain ⟨hverified, hmissing⟩ := hkeeps
  have hdone (i : Nat) (hi : i < m.listedPieces t) :
      m.restoredState t i = .VERIFIED ∨ m.restoredState t i = .MISSING := by
    obtain ⟨hstate, hmem⟩ := h i
    rw [if_pos hi] at hstate
    obtain ⟨piece, hpiece, hpiece_state⟩ := Option.map_eq_some_iff.mp hstate
    rw [← hpiece_state]
    by_cases hin : i ∈ restored.verified_pieces
    · exact .inl (hpiece_state.trans (hmem.mp hin).2)
    · exact .inr (hmissing i piece hpiece hin)
  refine ⟨fun i hi => ?_, fun i hi => ?_, fun i hb hnot => .inr ?_⟩
  · rw [← hverified, (h i).2, restoredState_eq_verified_iff] at hi
    exact ⟨hi.2.2.2, hi.2.1⟩
  · rcases hdone i hi with hstate | hstate
    · rw [((restoredState_eq_verified_iff m t i).mp hstate).1]
      simp
    · obtain ⟨hrequested, hdownloading, -⟩ := (restoredState_eq_missing_iff m t i).mp hstate
      exact ⟨hrequested, hdownloading⟩
  · rcases hdone i (hb.lt_listedPieces m) with hstate | hstate
    · exact absurd ((restoredState_eq_verified_iff m t i).mp hstate).2.1 hnot
    · exact ((restoredState_eq_missing_iff m t i).mp hstate).2.2 hb

theorem RestoresStates.keepsProgress (h : m.RestoresStates restored t)
    (hlooks : ¬m.LooksCorrupted bytes_downloaded)
    (hresumable : Resumable m bytes_downloaded t) : KeepsProgress m restored := by
  obtain ⟨hverified, hunder_way, hblockless⟩ := hresumable
  constructor
  · ext i
    rw [(h i).2, restoredState_eq_verified_iff]
    constructor
    · exact fun h => h.2.2.1
    · intro hi
      obtain ⟨hb, hstate⟩ := hverified i hi
      exact ⟨hb.lt_listedPieces m, hstate, hi, hb⟩
  · intro i piece hpiece hnot
    obtain ⟨hstate, hmem⟩ := h i
    rw [hpiece, Option.map_some] at hstate
    by_cases hi : i < m.listedPieces t
    · rw [if_pos hi, Option.some_inj] at hstate
      rw [hstate, restoredState_eq_missing_iff]
      refine ⟨(hunder_way i hi).1, (hunder_way i hi).2, fun hb => ?_⟩
      -- a verified piece without blocks would have been restored as verified
      refine (hblockless i hb fun hin => hnot (hmem.mpr ⟨hi, ?_⟩)).resolve_left hlooks
      exact (restoredState_eq_verified_iff m t i).mpr ⟨(hverified i hin).2, hin, hb⟩
    · rw [if_neg hi] at hstate
      cases hstate

end Restored

/-- A checkpoint brings all progress to a new manager of the same torrent exactly when no piece
is under way and no verified piece has blocks. -/
theorem restored_keepsProgress_iff (config : Config) (m : AsyncPieceManager)
    (bytes_downloaded : Nat) (t : TorrentData) (fm : Option FileSelectionManager) {c : Checkpoint}
    (hc : m.getCheckpointState bytes_downloaded = some c) :
    KeepsProgress m ((new config t fm).restoreFromCheckpoint config c) ↔
      Resumable m bytes_downloaded t := by
  have hcorrupted_iff : c.isCorrupted = true ↔ m.LooksCorrupted bytes_downloaded := by
    obtain ⟨-, rfl⟩ := getCheckpointState_eq_some_iff.mp hc
    exact isCorrupted_iff
  by_cases hcorrupted : c.isCorrupted = true
  · obtain ⟨hverified, hmissing⟩ := restored_of_corrupted config t fm hc hcorrupted
    have hlooks := hcorrupted_iff.mp hcorrupted
    exact iff_of_true ⟨hverified.trans hlooks.verified.symm, fun i piece hpiece _ =>
      hmissing i piece hpiece⟩ (hlooks.resumable t)
  · have hrestored := restored_pieces config t fm hc hcorrupted
    have hlooks : ¬m.LooksCorrupted bytes_downloaded := fun h =>
      hcorrupted (hcorrupted_iff.mpr h)
    exact ⟨hrestored.resumable, hrestored.keepsProgress hlooks⟩

/-- For a torrent whose pieces have a length, this means that nothing is verified or under way. -/
theorem resumable_iff_of_pos {t : TorrentData} (ht : 0 < t.piece_length) :
    Resumable m bytes_downloaded t ↔ m.verified_pieces = ∅ ∧ ∀ i < m.listedPieces t,
      m.stateOf i ≠ some .REQUESTED ∧ m.stateOf i ≠ some .DOWNLOADING := by
  have hnone (i : Nat) : ¬Blockless t i := by
    rintro ⟨-, hlength⟩
    have hlast (n : Nat) : (if n = 0 then t.piece_length else n) ≠ 0 := by
      split
      · exact ht.ne'
      · assumption
    rw [initialLength] at hlength
    split at hlength
    · exact hlast _ hlength
    · exact ht.ne' hlength
  constructor
  · rintro ⟨hverified, hunder_way, -⟩
    exact ⟨Finset.eq_empty_of_forall_notMem fun i hi => hnone i (hverified i hi).1, hunder_way⟩
  · rintro ⟨hverified, hunder_way⟩
    refine ⟨fun i hi => ?_, hunder_way, fun i hb => absurd hb (hnone i)⟩
    rw [hverified] at hi
    exact absurd hi (Finset.notMem_empty i)

end Restoring

section Runs

def onePieceTorrent : TorrentData where
  num_pieces := 1
  piece_length := 4
  piece_hashes := [sha1 [1, 2, 3, 4]]

/-- The piece is received and its hash is compared. -/
def receivedAndVerified : System :=
  Transition.run (System.step {}) (System.new {} onePieceTorrent none true true true)
    [.handle_piece_block 0 0 [1, 2, 3, 4], .resume 0 ⟨[], fun _ => true⟩ false, .hash 0,
      .resume 0 ⟨[], fun _ => true⟩ false]

/-- The run of the theorem for the verified piece, whose four bytes have been downloaded. -/
theorem keepsProgress_receivedAndVerified_iff :
    KeepsProgress receivedAndVerified.manager ((new {} onePieceTorrent none).restoreFromCheckpoint
        {} (receivedAndVerified.manager.checkpoint 4)) ↔
      Resumable receivedAndVerified.manager 4 onePieceTorrent :=
  restored_keepsProgress_iff {} receivedAndVerified.manager 4 onePieceTorrent none
    (getCheckpointState_eq_some_iff.mpr ⟨by decide +kernel, rfl⟩)

/-- The verified piece is no longer verified after the checkpoint is restored. -/
theorem not_keepsProgress_receivedAndVerified :
    receivedAndVerified.manager.getCheckpointState 4 =
        some (receivedAndVerified.manager.checkpoint 4) ∧
      ¬KeepsProgress receivedAndVerified.manager
        ((new {} onePieceTorrent none).restoreFromCheckpoint {}
          (receivedAndVerified.manager.checkpoint 4)) := by
  have hverified : receivedAndVerified.manager.verified_pieces = {0} := by decide +kernel
  have hlost : ((new {} onePieceTorrent none).restoreFromCheckpoint {}
      (receivedAndVerified.manager.checkpoint 4)).verified_pieces = ∅ := by decide +kernel
  refine ⟨getCheckpointState_eq_some_iff.mpr ⟨by decide +kernel, rfl⟩, fun hkeeps => ?_⟩
  rw [KeepsProgress.verified_pieces hkeeps, hverified] at hlost
  exact absurd hlost (by decide)

end Runs

end AsyncPieceManager

end Piece

end Ccbt
