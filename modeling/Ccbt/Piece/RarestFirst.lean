import Ccbt.Piece.Selection

/-!
# Who gets the five places of `_select_rarest_first`

The first section is about the first items of a descending list. Pieces that no peer has
compete for the places like any others, so whether an obtainable piece gets one of them
depends on how many unobtainable ones come before it.
-/

namespace Ccbt

open Python

namespace Piece

section Ranking

variable {α : Type*} [LinearOrder α] {l : List α} {n : Nat}

/-- Whether some item with a property is among the first `n` of a descending list is decided
by how many items without the property come before it. -/
theorem exists_mem_take_iff (h : l.Pairwise (fun a b => b < a)) (P : α → Bool) :
    (∃ x ∈ l.take n, P x = true) ↔
      ∃ x ∈ l, P x = true ∧ l.countP (fun y => decide (x < y) && !P y) < n := by
  induction l generalizing n with
  | nil => simp
  | cons a l ih =>
    obtain ⟨ha, hl⟩ := List.pairwise_cons.mp h
    cases n with
    | zero => simp
    | succ n =>
      rw [List.take_succ_cons]
      cases hP : P a with
      | true =>
        -- the first item will do, as nothing comes before it
        have hnone : (a :: l).countP (fun y => decide (a < y) && !P y) = 0 := by
          rw [List.countP_eq_zero]
          intro y hy
          obtain rfl | hy := List.mem_cons.mp hy
          · simp
          · simp [(ha y hy).le]
        constructor
        · exact fun _ => ⟨a, List.mem_cons_self, hP, by omega⟩
        · exact fun _ => ⟨a, List.mem_cons_self, hP⟩
      | false =>
        have hcount : ∀ x ∈ l, (a :: l).countP (fun y => decide (x < y) && !P y) =
            l.countP (fun y => decide (x < y) && !P y) + 1 := by
          intro x hx
          rw [List.countP_cons, if_pos (by simp [ha x hx, hP])]
        constructor
        · rintro ⟨x, hx, hPx⟩
          obtain rfl | hx := List.mem_cons.mp hx
          · rw [hP] at hPx
            cases hPx
          · obtain ⟨y, hy, hPy, hlt⟩ := (ih (n := n) hl).mp ⟨x, hx, hPx⟩
            refine ⟨y, List.mem_cons_of_mem a hy, hPy, ?_⟩
            rw [hcount y hy]
            omega
        · rintro ⟨x, hx, hPx, hlt⟩
          obtain rfl | hx := List.mem_cons.mp hx
          · rw [hP] at hPx
            cases hPx
          · rw [hcount x hx] at hlt
            obtain ⟨y, hy, hPy⟩ := (ih (n := n) hl).mpr ⟨x, hx, hPx, by omega⟩
            exact ⟨y, List.mem_cons_of_mem a hy, hPy⟩

theorem mapM_eq_some {β γ : Type*} {f : β → Option γ} {g : β → γ} {l : List β}
    (h : ∀ b ∈ l, f b = some (g b)) : l.mapM f = some (l.map g) := by
  induction l with
  | nil => rfl
  | cons b l ih =>
    obtain ⟨hb, hl⟩ := List.forall_mem_cons.mp h
    rw [List.mapM_cons, hb, ih hl]
    rfl

theorem mapM_eq_none {β γ : Type*} {f : β → Option γ} {l : List β} {b : β} (hb : b ∈ l)
    (h : f b = none) : l.mapM f = none := by
  induction l with
  | nil => cases hb
  | cons a l ih =>
    rw [List.mapM_cons]
    obtain rfl | hb := List.mem_cons.mp hb
    · rw [h]
      rfl
    · rw [ih hb]
      cases f a <;> rfl

end Ranking

namespace AsyncPieceManager

variable (m : AsyncPieceManager)

/-- Some peer has the piece. -/
def Obtainable (piece_index : Nat) : Prop := 0 < m.piece_frequency.count piece_index

instance (piece_index : Nat) : Decidable (m.Obtainable piece_index) :=
  inferInstanceAs (Decidable (_ < _))

/-- What puts a piece before others: a high priority and few peers that have it. -/
def urgency (piece_index : Nat) : Int :=
  match m.pieces[piece_index]? with
  | some piece => m.effectivePriority piece_index piece - m.piece_frequency.count piece_index
  | none => 0

/-- The piece `q` comes before the piece `p`. -/
def Before (q p : Nat) : Prop := m.urgency p < m.urgency q ∨ m.urgency p = m.urgency q ∧ p < q

instance (q p : Nat) : Decidable (m.Before q p) := inferInstanceAs (Decidable (_ ∨ _))

/-- Every missing piece is there, and one that a peer has is preceded by fewer than five of
the missing pieces that no peer has. -/
def PlaceLeft : Prop :=
  (∀ i ∈ m.getMissingPieces.1, i < m.pieces.length) ∧
    ∃ p ∈ m.getMissingPieces.1, m.Obtainable p ∧
      (m.getMissingPieces.1.filter fun q => m.Before q p ∧ ¬m.Obtainable q).length < 5

/-- What `_select_rarest_first` requests. -/
def requested : List Nat := m.selectRarestFirst.1.getD []

def score (piece_index : Nat) : Int ×ₗ Nat := toLex (1000 + m.urgency piece_index, piece_index)

variable {m} in
theorem score_lt_score {p q : Nat} : m.score p < m.score q ↔ m.Before q p := by
  rw [score, score, Prod.Lex.toLex_lt_toLex, Before]
  dsimp only
  omega

/-- The correction of the states does not touch the scores. -/
theorem pieceScore_getMissingPieces (i : Nat) : m.getMissingPieces.2.pieceScore i =
    if i < m.pieces.length then some (m.score i) else none := by
  simp only [pieceScore, getMissingPieces, List.getElem?_map]
  split
  · next hi =>
    have hpriority : (m.pieces[i].correct).priority = m.pieces[i].priority := by
      unfold PieceData.correct
      split <;> rfl
    rw [List.getElem?_eq_getElem hi, Option.map_some, Option.map_some, score, urgency,
      List.getElem?_eq_getElem hi]
    simp only [effectivePriority, hpriority]
    refine congrArg some (congrArg toLex (Prod.ext ?_ rfl))
    dsimp only
    omega
  · next hi =>
    rw [List.getElem?_eq_none (not_lt.mp hi)]
    rfl

/-- Without a piece that is not there, the five places go to the best scores. -/
theorem requested_eq (h : ∀ i ∈ m.getMissingPieces.1, i < m.pieces.length) :
    m.requested =
      ((sortDescending (m.getMissingPieces.1.map m.score)).take 5).map fun e => (ofLex e).2 := by
  have hscores : m.getMissingPieces.1.mapM m.getMissingPieces.2.pieceScore =
      some (m.getMissingPieces.1.map m.score) := by
    refine mapM_eq_some fun i hi => ?_
    rw [pieceScore_getMissingPieces, if_pos (h i hi)]
  have hmissing : ∀ e ∈ (sortDescending (m.getMissingPieces.1.map m.score)).take 5,
      m.getMissingPieces.2.isMissing (ofLex e).2 = true := by
    intro e he
    have hmem := (sortOn_perm id _).mem_iff.mp (List.mem_reverse.mp (List.mem_of_mem_take he))
    obtain ⟨i, hi, rfl⟩ := List.mem_map.mp hmem
    obtain ⟨-, ⟨piece, hpiece, hstate⟩ | ⟨hle, -⟩⟩ := m.mem_getMissingPieces.mp hi
    · simp [isMissing, getMissingPieces, score, hpiece, hstate]
    · exact absurd (h i hi) (not_lt.mpr hle)
  rw [requested, selectRarestFirst]
  simp only [hscores, Option.getD_some]
  rw [List.filter_eq_self]
  intro i hi
  obtain ⟨e, he, rfl⟩ := List.mem_map.mp hi
  exact hmissing e he

theorem requested_eq_nil {i : Nat} (hi : i ∈ m.getMissingPieces.1) (hle : m.pieces.length ≤ i) :
    m.requested = [] := by
  have hscores : m.getMissingPieces.1.mapM m.getMissingPieces.2.pieceScore = none := by
    refine mapM_eq_none hi ?_
    rw [pieceScore_getMissingPieces, if_neg (not_lt.mpr hle)]
  rw [requested, selectRarestFirst]
  simp only [hscores, Option.getD_none]

theorem pairwise_sortDescending {scores : List (Int ×ₗ Nat)} (h : scores.Nodup) :
    (sortDescending scores).Pairwise fun a b => b < a := by
  rw [sortDescending, List.pairwise_reverse]
  exact sortOn_pairwise_lt id (by rwa [List.map_id])

/-- An obtainable piece is requested exactly if there is a place left for one. -/
theorem requested_obtainable_iff :
    (∃ p ∈ m.requested, p ∈ m.getMissingPieces.1 ∧ m.Obtainable p) ↔ m.PlaceLeft := by
  by_cases h : ∀ i ∈ m.getMissingPieces.1, i < m.pieces.length
  · have hinj : Function.Injective m.score := fun p q hpq =>
      congrArg (fun e : Int ×ₗ Nat => (ofLex e).2) hpq
    have hnodup : (m.getMissingPieces.1.map m.score).Nodup := m.nodup_getMissingPieces.map hinj
    have htake := exists_mem_take_iff (n := 5) (pairwise_sortDescending hnodup)
      fun e => decide (m.Obtainable (ofLex e).2)
    have hperm : (sortDescending (m.getMissingPieces.1.map m.score)).Perm
        (m.getMissingPieces.1.map m.score) := (List.reverse_perm _).trans (sortOn_perm id _)
    have hbefore : ∀ p, (sortDescending (m.getMissingPieces.1.map m.score)).countP
        (fun e => decide (m.score p < e) && !decide (m.Obtainable (ofLex e).2)) =
          (m.getMissingPieces.1.filter fun q => m.Before q p ∧ ¬m.Obtainable q).length := by
      intro p
      rw [hperm.countP_eq, List.countP_map, List.countP_eq_length_filter]
      congr 1
      refine List.filter_congr fun q _ => ?_
      have hindex : (ofLex (m.score q)).2 = q := rfl
      simp only [Function.comp_apply, hindex, score_lt_score, Bool.decide_and, decide_not]
    rw [requested_eq m h, PlaceLeft, and_iff_right h]
    constructor
    · rintro ⟨p, hp, -, hobtainable⟩
      obtain ⟨e, he, rfl⟩ := List.mem_map.mp hp
      obtain ⟨x, hx, hPx, hcount⟩ := htake.mp ⟨e, he, decide_eq_true hobtainable⟩
      obtain ⟨q, hq, rfl⟩ := List.mem_map.mp (hperm.mem_iff.mp hx)
      rw [hbefore] at hcount
      exact ⟨q, hq, of_decide_eq_true hPx, hcount⟩
    · rintro ⟨p, hp, hobtainable, hcount⟩
      rw [← hbefore] at hcount
      have hmem : m.score p ∈ sortDescending (m.getMissingPieces.1.map m.score) :=
        hperm.mem_iff.mpr (List.mem_map_of_mem hp)
      obtain ⟨x, hx, hPx⟩ := htake.mpr ⟨m.score p, hmem, decide_eq_true hobtainable, hcount⟩
      obtain ⟨q, hq, rfl⟩ := List.mem_map.mp (hperm.mem_iff.mp (List.mem_of_mem_take hx))
      exact ⟨q, List.mem_map.mpr ⟨m.score q, hx, rfl⟩, hq, of_decide_eq_true hPx⟩
  · push Not at h
    obtain ⟨i, hi, hle⟩ := h
    rw [requested_eq_nil m hi hle]
    constructor
    · rintro ⟨p, hp, -⟩
      cases hp
    · rintro ⟨hall, -⟩
      exact absurd (hall i hi) (not_lt.mpr hle)

/-- Six missing pieces, of which a peer has only the first. -/
def crowdedOut : AsyncPieceManager :=
  { AsyncPieceManager.new {} ⟨6, 4, [], none, none, none, 1⟩ none with
    piece_frequency := Counter.add 1 .empty 0 }

theorem requested_crowdedOut : (∃ p ∈ crowdedOut.getMissingPieces.1, crowdedOut.Obtainable p) ∧
    ¬∃ p ∈ crowdedOut.requested, p ∈ crowdedOut.getMissingPieces.1 ∧ crowdedOut.Obtainable p := by
  decide +kernel

example : crowdedOut.requested = [5, 4, 3, 2, 1] := by decide +kernel

end AsyncPieceManager

end Piece

end Ccbt
