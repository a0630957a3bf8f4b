import Ccbt.Piece.Manager
import Ccbt.Transition.Run

/-!
# Which peers have which pieces

The bookkeeping of `AsyncPieceManager` in `piece/async_piece_manager.py` about its peers, and
`restore_from_checkpoint`. The counter of a piece is kept by differences, except that a
checkpoint brings its own.
-/

namespace Ccbt

open Python Transition

namespace Piece

/-- What `restore_from_checkpoint` reads of a checkpoint. -/
structure Checkpoint where
  total_pieces : Nat
  piece_length : Nat := 16384
  verified_pieces : List Int := []
  piece_states : Dict Int PieceState := .empty
  bytes_downloaded : Nat := 0
  endgame_mode : Bool := false
  /-- `peer_info["piece_frequency"]`, if there is one. -/
  piece_frequency : Option (Counter Nat) := none

namespace Checkpoint

/-- All pieces are said to be complete, and nothing is verified or downloaded. -/
def isCorrupted (c : Checkpoint) : Bool :=
  c.piece_states.entries.all (fun e => e.2 = .COMPLETE ∨ e.2 = .VERIFIED) &&
    decide (c.verified_pieces = [] ∧ c.bytes_downloaded = 0 ∧ c.piece_states.entries ≠ [])

/-- A piece with the state that the checkpoint gives it. -/
def restoreState (verified_pieces : List Int) (piece_idx : Int) (piece_state : PieceState)
    (piece : PieceData) : PieceData :=
  let restored :=
    if piece_state = .VERIFIED then
      if piece_idx ∉ verified_pieces then { piece with state := .COMPLETE, hash_verified := false }
      else { piece with state := .VERIFIED, hash_verified := true }
    else { piece with state := piece_state, hash_verified := false }
  if (piece_state = .COMPLETE ∨ piece_state = .VERIFIED) ∧ restored.isComplete = false then
    { restored with state := .MISSING, hash_verified := false }
  else restored

end Checkpoint

namespace AsyncPieceManager

section Operations

variable (config : Config) (m : AsyncPieceManager)

/-- The pieces whose bits are set. -/
def parseBitfield (num_pieces : Nat) (bitfield : Bytes) : Finset Nat :=
  (Finset.range (8 * bitfield.length)).filter fun piece_idx => piece_idx < num_pieces ∧
    (bitfield[piece_idx / 8]?.map fun byte_val => byte_val.toNat.testBit (7 - piece_idx % 8)) =
      some true

def piecesOf (peer_key : String) : Finset Nat :=
  ((m.peer_availability.get? peer_key).map PeerAvailability.pieces).getD ∅

/-- `peer_availability[peer_key].pieces = pieces`, with a new entry for a new peer. -/
def setPieces (peer_key : String) (pieces : Finset Nat) : AsyncPieceManager :=
  let availability := (m.peer_availability.get? peer_key).getD {}
  { m with
    peer_availability := m.peer_availability.set peer_key { availability with pieces := pieces } }

def addPeer (peer_key : String) : AsyncPieceManager :=
  if m.peer_availability.contains peer_key then m else m.setPieces peer_key ∅

def updatePeerAvailability (peer_key : String) (bitfield : Bytes) : AsyncPieceManager :=
  let pieces := parseBitfield m.num_pieces bitfield
  let old_pieces := m.piecesOf peer_key
  { m.setPieces peer_key pieces with
    piece_frequency :=
      (pieces \ old_pieces).sort.foldl (Counter.add 1)
        ((old_pieces \ pieces).sort.foldl (Counter.add (-1)) m.piece_frequency) }

def updatePeerHave (peer_key : String) (piece_index : Nat) : AsyncPieceManager :=
  let old_pieces := m.piecesOf peer_key
  { m.setPieces peer_key (insert piece_index old_pieces) with
    piece_frequency :=
      if piece_index ∈ old_pieces then m.piece_frequency
      else Counter.add 1 m.piece_frequency piece_index }

def release (piece_frequency : Counter Nat) (piece_index : Nat) : Counter Nat :=
  let piece_frequency := Counter.add (-1) piece_frequency piece_index
  if piece_frequency.count piece_index ≤ 0 then piece_frequency.erase piece_index
  else piece_frequency

def removePeer (peer_key : String) : AsyncPieceManager :=
  match m.peer_availability.get? peer_key with
  | none => m
  | some availability =>
    { m with
      piece_frequency := availability.pieces.sort.foldl release m.piece_frequency
      peer_availability := m.peer_availability.erase peer_key }

/-- The pieces that `restore_from_checkpoint` makes when there are none. -/
def restorePieces (c : Checkpoint) : AsyncPieceManager :=
  if 0 < c.total_pieces ∧ m.pieces = [] then
    let m := { m with
      num_pieces := if m.num_pieces = 0 then c.total_pieces else m.num_pieces
      piece_length := if m.piece_length = 0 then c.piece_length else m.piece_length }
    { m with pieces := (List.range m.num_pieces).map fun i => m.newPiece config i m.piece_length }
  else m

/-- The states of the pieces as in the checkpoint, and the sets that follow from them. -/
def restoreStates (piece_states : List (Int × PieceState)) (verified_pieces : List Int) :
    AsyncPieceManager :=
  let pieces := piece_states.foldl (fun pieces (piece_idx, piece_state) =>
    if 0 ≤ piece_idx then
      pieces.modify piece_idx.toNat (Checkpoint.restoreState verified_pieces piece_idx piece_state)
    else pieces) m.pieces
  let within (state : PieceState) := (Finset.range pieces.length).filter fun i =>
    (pieces[i]?.map PieceData.state) = some state
  { m with
    pieces := pieces
    verified_pieces := (within .VERIFIED).filter fun i => (i : Int) ∈ verified_pieces
    completed_pieces := within .COMPLETE }

def restoreFromCheckpoint (c : Checkpoint) : AsyncPieceManager :=
  let (piece_states, verified_pieces) :=
    if c.isCorrupted then ([], []) else (c.piece_states.entries, c.verified_pieces)
  let m := m.restorePieces config c
  let verified_pieces :=
    if m.num_pieces < verified_pieces.length then
      verified_pieces.filter fun i : Int => 0 ≤ i ∧ i < m.num_pieces
    else verified_pieces
  let m := m.restoreStates piece_states verified_pieces
  { m with
    endgame_mode := c.endgame_mode
    piece_frequency := c.piece_frequency.getD m.piece_frequency }

end Operations

end AsyncPieceManager

/-- The calls that touch the availability of pieces. -/
inductive AvailabilityCall
  | _add_peer (peer_key : String)
  | update_peer_availability (peer_key : String) (bitfield : Bytes)
  | update_peer_have (peer_key : String) (piece_index : Nat)
  | _remove_peer (peer_key : String)
  | restore_from_checkpoint (checkpoint : Checkpoint)

namespace AvailabilityCall

def step (config : Config) (m : AsyncPieceManager) : AvailabilityCall → AsyncPieceManager
  | _add_peer peer_key => m.addPeer peer_key
  | update_peer_availability peer_key bitfield => m.updatePeerAvailability peer_key bitfield
  | update_peer_have peer_key piece_index => m.updatePeerHave peer_key piece_index
  | _remove_peer peer_key => m.removePeer peer_key
  | restore_from_checkpoint checkpoint => m.restoreFromCheckpoint config checkpoint

end AvailabilityCall

namespace AsyncPieceManager

section Counting

variable (m : AsyncPieceManager) {config : Config}

def holders (piece_index : Nat) : Nat :=
  (m.peer_availability.values.filter fun a => piece_index ∈ a.pieces).length

def Within (num_pieces : Nat) : Prop :=
  ∀ a ∈ m.peer_availability.values, ∀ i ∈ a.pieces, i < num_pieces

structure ExactAvailability : Prop where
  counted : ∀ i, m.piece_frequency.count i = m.holders i
  within : 0 < m.num_pieces → m.Within m.num_pieces

/-- The calls that leave the counters exact: a `have` message names a piece of the torrent, the
counters of a checkpoint are those of the connected peers, and a checkpoint from which the
number of pieces is taken has all their pieces. -/
def Faithful (m : AsyncPieceManager) : AvailabilityCall → Prop
  | .update_peer_have _ piece_index => 0 < m.num_pieces → piece_index < m.num_pieces
  | .restore_from_checkpoint c =>
    (∀ piece_frequency, c.piece_frequency = some piece_frequency →
      ∀ i, piece_frequency.count i = m.holders i) ∧
    (m.num_pieces = 0 → m.pieces = [] → 0 < c.total_pieces → m.Within c.total_pieces)
  | _ => True

/-- Counting as a sum of ones. -/
theorem holders_eq_sum (i : Nat) : m.holders i =
    (m.peer_availability.values.map fun a => if i ∈ a.pieces then 1 else 0).sum := by
  rw [holders]
  induction m.peer_availability.values with
  | nil => rfl
  | cons a l ih =>
    rw [List.map_cons, List.sum_cons, ← ih, List.filter_cons]
    by_cases hi : i ∈ a.pieces
    · simp [hi, Nat.add_comm]
    · simp [hi]

/-- Giving a peer other pieces changes the number of holders by that peer. -/
theorem holders_setPieces (peer_key : String) (pieces : Finset Nat) (i : Nat) :
    (m.setPieces peer_key pieces).holders i + (if i ∈ m.piecesOf peer_key then 1 else 0) =
      m.holders i + if i ∈ pieces then 1 else 0 := by
  have h := Dict.sum_values_set (fun a : PeerAvailability => if i ∈ a.pieces then 1 else 0)
    m.peer_availability peer_key
    { (m.peer_availability.get? peer_key).getD {} with pieces := pieces }
  have hold : (if i ∈ m.piecesOf peer_key then 1 else 0) =
      ((m.peer_availability.get? peer_key).map
        fun a : PeerAvailability => if i ∈ a.pieces then 1 else 0).getD 0 := by
    unfold piecesOf
    cases m.peer_availability.get? peer_key <;> simp
  rw [holders_eq_sum, holders_eq_sum, hold]
  exact h

theorem holders_removePeer (peer_key : String) (i : Nat) :
    (m.removePeer peer_key).holders i + (if i ∈ m.piecesOf peer_key then 1 else 0) =
      m.holders i := by
  have h := Dict.sum_values_erase (fun a : PeerAvailability => if i ∈ a.pieces then 1 else 0)
    m.peer_availability peer_key
  rw [holders_eq_sum, holders_eq_sum, piecesOf, removePeer]
  cases hget : m.peer_availability.get? peer_key with
  | none => simp
  | some availability =>
    rw [hget] at h
    exact h

variable {m}

theorem mem_values_setPieces {peer_key : String} {pieces : Finset Nat} {a : PeerAvailability}
    (h : a ∈ (m.setPieces peer_key pieces).peer_availability.values) :
    a.pieces = pieces ∨ a ∈ m.peer_availability.values := by
  obtain ⟨e, he, rfl⟩ := List.mem_map.mp h
  obtain rfl | he := mem_setEntry he
  · exact .inl rfl
  · exact .inr (List.mem_map_of_mem he)

theorem piecesOf_subset {peer_key : String} {n : Nat} (h : m.Within n) {i : Nat}
    (hi : i ∈ m.piecesOf peer_key) : i < n := by
  unfold piecesOf at hi
  cases hget : m.peer_availability.get? peer_key with
  | none =>
    rw [hget] at hi
    exact absurd hi (Finset.notMem_empty i)
  | some availability =>
    rw [hget] at hi
    have hmem := (Dict.get?_eq_some_iff _).mp hget
    exact h availability (List.mem_map.mpr ⟨_, hmem, rfl⟩) i hi

theorem within_setPieces {peer_key : String} {pieces : Finset Nat} {n : Nat} (h : m.Within n)
    (hpieces : ∀ i ∈ pieces, i < n) : (m.setPieces peer_key pieces).Within n := by
  intro a ha i hi
  obtain rfl | ha := mem_values_setPieces ha
  · exact hpieces i hi
  · exact h a ha i hi

theorem exact_addPeer (h : m.ExactAvailability) (peer_key : String) :
    (m.addPeer peer_key).ExactAvailability := by
  unfold addPeer
  split
  · exact h
  · next hnew =>
    have hnone : m.piecesOf peer_key = ∅ := by
      rw [piecesOf, Option.not_isSome_iff_eq_none.mp hnew]
      rfl
    refine ⟨fun i => ?_, fun hpos => within_setPieces (h.within hpos) (by simp)⟩
    have hholders := m.holders_setPieces peer_key ∅ i
    rw [hnone] at hholders
    simp only [Finset.notMem_empty, if_false, add_zero] at hholders
    rw [hholders]
    exact h.counted i

theorem exact_updatePeerAvailability (h : m.ExactAvailability) (peer_key : String)
    (bitfield : Bytes) : (m.updatePeerAvailability peer_key bitfield).ExactAvailability := by
  constructor
  · intro i
    have hholders := m.holders_setPieces peer_key (parseBitfield m.num_pieces bitfield) i
    have hcounted := h.counted i
    change Counter.count (List.foldl _ (List.foldl _ m.piece_frequency _) _) i =
      (m.setPieces peer_key (parseBitfield m.num_pieces bitfield)).holders i
    rw [Counter.count_foldl_add _ (Finset.sort_nodup _ _), Counter.count_foldl_add _
      (Finset.sort_nodup _ _)]
    simp only [Finset.mem_sort, Finset.mem_sdiff]
    by_cases hold : i ∈ m.piecesOf peer_key
    · by_cases hnew : i ∈ parseBitfield m.num_pieces bitfield
      · simp only [hold, hnew, if_true] at hholders
        simp [hold, hnew]
        omega
      · simp only [hold, hnew, if_true, if_false] at hholders
        simp [hold, hnew]
        omega
    · by_cases hnew : i ∈ parseBitfield m.num_pieces bitfield
      · simp only [hold, hnew, if_true, if_false] at hholders
        simp [hold, hnew]
        omega
      · simp only [hold, hnew, if_false] at hholders
        simp [hold, hnew]
        omega
  · intro hpos
    refine within_setPieces (h.within hpos) fun i hi => ?_
    exact (Finset.mem_filter.mp hi).2.1

@[simp] theorem piecesOf_setPieces (peer_key : String) (pieces : Finset Nat) :
    (m.setPieces peer_key pieces).piecesOf peer_key = pieces := by
  rw [piecesOf, setPieces, Dict.get?_set_self]
  rfl

/-- A message that a peer has a piece is counted right, but may name a piece there is not. -/
theorem exact_updatePeerHave (h : m.ExactAvailability) (peer_key : String) (piece_index : Nat) :
    (m.updatePeerHave peer_key piece_index).ExactAvailability ↔
      (0 < m.num_pieces → piece_index < m.num_pieces) := by
  constructor
  · intro h' hpos
    have hmem : piece_index ∈ (m.updatePeerHave peer_key piece_index).piecesOf peer_key := by
      change piece_index ∈ (m.setPieces peer_key _).piecesOf peer_key
      rw [piecesOf_setPieces]
      exact Finset.mem_insert_self _ _
    exact piecesOf_subset (h'.within hpos) hmem
  · intro hrange
    constructor
    · intro i
      have hholders := m.holders_setPieces peer_key (insert piece_index (m.piecesOf peer_key)) i
      have hcounted := h.counted i
      change Counter.count (if piece_index ∈ m.piecesOf peer_key then m.piece_frequency
        else Counter.add 1 m.piece_frequency piece_index) i =
          (m.setPieces peer_key (insert piece_index (m.piecesOf peer_key))).holders i
      simp only [Finset.mem_insert] at hholders
      by_cases hi : i = piece_index
      · subst hi
        by_cases hold : i ∈ m.piecesOf peer_key
        · simp only [hold, or_true, if_true] at hholders
          rw [if_pos hold]
          omega
        · simp only [hold, true_or, if_true, if_false] at hholders
          rw [if_neg hold, Counter.count_add, if_pos rfl]
          omega
      · simp only [hi, false_or] at hholders
        split
        · omega
        · rw [Counter.count_add, if_neg hi]
          omega
    · intro hpos
      refine within_setPieces (h.within hpos) fun i hi => ?_
      obtain rfl | hi := Finset.mem_insert.mp hi
      · exact hrange hpos
      · exact piecesOf_subset (h.within hpos) hi

theorem count_foldl_release {l : List Nat} (hl : l.Nodup) (c : Counter Nat)
    (hpos : ∀ i ∈ l, 1 ≤ c.count i) (i : Nat) :
    Counter.count (l.foldl release c) i = c.count i - if i ∈ l then 1 else 0 := by
  induction l generalizing c with
  | nil => simp
  | cons k l ih =>
    obtain ⟨hk, hl⟩ := List.nodup_cons.mp hl
    have hcount : ∀ j, Counter.count (release c k) j = c.count j - if j = k then 1 else 0 := by
      intro j
      have hkpos := hpos k List.mem_cons_self
      unfold release
      dsimp only
      split
      · next hzero =>
        rw [Counter.count_add, if_pos rfl] at hzero
        rw [Counter.count_erase, Counter.count_add]
        by_cases hj : j = k
        · rw [if_pos hj, if_pos hj, hj]
          omega
        · rw [if_neg hj, if_neg hj]
          omega
      · rw [Counter.count_add]
        split <;> omega
    have hrest : ∀ j ∈ l, 1 ≤ Counter.count (release c k) j := by
      intro j hj
      have hne : j ≠ k := fun h => hk (h ▸ hj)
      rw [hcount, if_neg hne, Int.sub_zero]
      exact hpos j (List.mem_cons_of_mem k hj)
    rw [List.foldl_cons, ih hl _ hrest, hcount]
    by_cases hi : i = k
    · rw [if_pos hi, if_neg (hi ▸ hk), if_pos (List.mem_cons.mpr (.inl hi)), Int.sub_zero]
    · rw [if_neg hi, Int.sub_zero]
      simp only [List.mem_cons, hi, false_or]

theorem exact_removePeer (h : m.ExactAvailability) (peer_key : String) :
    (m.removePeer peer_key).ExactAvailability := by
  have hholders := m.holders_removePeer peer_key
  unfold removePeer at hholders ⊢
  split
  · exact h
  · next availability hget =>
    rw [hget] at hholders
    dsimp only at hholders
    have hpieces : m.piecesOf peer_key = availability.pieces := by
      rw [piecesOf, hget]
      rfl
    rw [hpieces] at hholders
    constructor
    · intro i
      have hpos : ∀ j ∈ availability.pieces.sort, 1 ≤ m.piece_frequency.count j := by
        intro j hj
        have hj' := hholders j
        rw [if_pos ((Finset.mem_sort _).mp hj)] at hj'
        rw [h.counted j]
        omega
      have hi := hholders i
      rw [count_foldl_release (Finset.sort_nodup _ _) _ hpos i, h.counted i]
      simp only [Finset.mem_sort]
      split_ifs at hi ⊢ <;> omega
    · intro hpos a ha
      obtain ⟨e, he, rfl⟩ := List.mem_map.mp ha
      exact h.within hpos e.2 (List.mem_map_of_mem (List.mem_filter.mp he).1)

/-- The number of pieces after a checkpoint. -/
theorem num_pieces_restoreFromCheckpoint (config : Config) (c : Checkpoint) :
    (m.restoreFromCheckpoint config c).num_pieces =
      if (0 < c.total_pieces ∧ m.pieces = []) ∧ m.num_pieces = 0 then c.total_pieces
      else m.num_pieces := by
  change (m.restorePieces config c).num_pieces = _
  unfold restorePieces
  by_cases hinit : 0 < c.total_pieces ∧ m.pieces = []
  · rw [if_pos hinit]
    simp only [hinit, true_and]
  · rw [if_neg hinit, if_neg fun h => hinit h.1]

theorem peer_availability_restoreFromCheckpoint (config : Config) (c : Checkpoint) :
    (m.restoreFromCheckpoint config c).peer_availability = m.peer_availability := by
  change (m.restorePieces config c).peer_availability = _
  unfold restorePieces
  split <;> rfl

theorem piece_frequency_restoreFromCheckpoint (c : Checkpoint) :
    (m.restoreFromCheckpoint config c).piece_frequency =
      c.piece_frequency.getD m.piece_frequency := by
  change c.piece_frequency.getD (m.restorePieces config c).piece_frequency = _
  unfold restorePieces
  split <;> rfl

/-- A checkpoint keeps the counters exact if its own are, and if the pieces of the peers are
among those it makes known. -/
theorem exact_restoreFromCheckpoint (h : m.ExactAvailability) (c : Checkpoint) :
    (m.restoreFromCheckpoint config c).ExactAvailability ↔
      m.Faithful (.restore_from_checkpoint c) := by
  have hpeers := m.peer_availability_restoreFromCheckpoint config c
  have hholders : ∀ i, (m.restoreFromCheckpoint config c).holders i = m.holders i := by
    intro i
    rw [holders, hpeers, holders]
  have hwithin : ∀ n, (m.restoreFromCheckpoint config c).Within n ↔ m.Within n := by
    intro n
    rw [Within, hpeers, Within]
  constructor
  · intro h'
    constructor
    · intro piece_frequency hfrequency i
      rw [← hholders, ← h'.counted, piece_frequency_restoreFromCheckpoint, hfrequency,
        Option.getD_some]
    · intro hzero hnone htotal
      have hnum := m.num_pieces_restoreFromCheckpoint config c
      rw [if_pos ⟨⟨htotal, hnone⟩, hzero⟩] at hnum
      rw [← hwithin, ← hnum]
      exact h'.within (by omega)
  · rintro ⟨hcounters, htaken⟩
    constructor
    · intro i
      rw [hholders, piece_frequency_restoreFromCheckpoint]
      cases hfrequency : c.piece_frequency with
      | none => exact h.counted i
      | some piece_frequency => exact hcounters piece_frequency hfrequency i
    · intro hpos
      rw [hwithin]
      rw [num_pieces_restoreFromCheckpoint] at hpos ⊢
      split at hpos
      · next htake =>
        rw [if_pos htake]
        exact htaken htake.2 htake.1.2 htake.1.1
      · next htake =>
        rw [if_neg htake]
        exact h.within hpos

theorem exact_step (h : m.ExactAvailability) (e : AvailabilityCall) :
    (e.step config m).ExactAvailability ↔ m.Faithful e := by
  cases e with
  | _add_peer peer_key => exact iff_of_true (exact_addPeer h peer_key) trivial
  | update_peer_availability peer_key bitfield =>
    exact iff_of_true (exact_updatePeerAvailability h peer_key bitfield) trivial
  | update_peer_have peer_key piece_index => exact exact_updatePeerHave h peer_key piece_index
  | _remove_peer peer_key => exact iff_of_true (exact_removePeer h peer_key) trivial
  | restore_from_checkpoint c => exact exact_restoreFromCheckpoint h c

theorem exact_new (t : TorrentData) (fm : Option FileSelectionManager) :
    (new config t fm).ExactAvailability where
  counted _ := rfl
  within _ _ ha := absurd ha List.not_mem_nil

/-- The counters of a new manager stay exact in exactly the runs of faithful calls. -/
theorem always_exact_iff (config : Config) (t : TorrentData) (fm : Option FileSelectionManager)
    (es : List AvailabilityCall) :
    Always (fun m e => AvailabilityCall.step config m e) ExactAvailability (new config t fm) es ↔
      StepsMeet (fun m e => AvailabilityCall.step config m e) Faithful (new config t fm) es :=
  always_iff_stepsMeet (fun _ e h => exact_step h e) (exact_new t fm)

/-- A peer says that it has piece 7 of a torrent of two. -/
theorem not_always_exact : ¬Always (fun m e => AvailabilityCall.step {} m e) ExactAvailability
    (new {} ⟨2, 4, [], none, none, none, 1⟩ none) [.update_peer_have "10.0.0.1:6881" 7] := by
  rintro ⟨-, hexact⟩
  have hrange := (exact_step (exact_new _ none) (.update_peer_have "10.0.0.1:6881" 7)).mp hexact
  exact absurd (hrange (by decide)) (by decide)

end Counting

end AsyncPieceManager

end Piece

end Ccbt
