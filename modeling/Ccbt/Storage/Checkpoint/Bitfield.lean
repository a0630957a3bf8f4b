import Ccbt.Storage.Checkpoint.Formats

/-!
# The bitfield of a binary checkpoint

Which bits are set, and that the pieces of a bitfield are those of a list that is sorted.
-/

namespace Ccbt

open Python

namespace Checkpoint

def hasPiece (bitfield : Bytes) (i : Nat) : Bool :=
  (bitfield.getD (i / 8) 0).toNat.testBit (7 - i % 8)

/-- The index is taken for one of the octets; from the end if it is negative. -/
def InBitfield (length : Nat) (i : Int) : Prop := -length ≤ i / 8 ∧ i / 8 < length

instance (length : Nat) (i : Int) : Decidable (InBitfield length i) :=
  inferInstanceAs (Decidable (_ ∧ _))

variable {bitfield bitfield' : Bytes} {c : TorrentCheckpoint}

theorem octetIndex_iff {length : Nat} {i : Int} :
    (0 ≤ octetIndex length (i / 8) ∧ octetIndex length (i / 8) < length) ↔ InBitfield length i := by
  rw [octetIndex, InBitfield]
  split <;> omega

theorem markPiece_isSome_iff {i : Int} :
    (markPiece bitfield i).isSome = true ↔ InBitfield bitfield.length i := by
  rw [markPiece, ← octetIndex_iff]
  split
  · next hin => exact iff_of_true rfl hin
  · next hout => exact iff_of_false Bool.false_ne_true hout

theorem length_markPiece {i : Int} (h : markPiece bitfield i = some bitfield') :
    bitfield'.length = bitfield.length := by
  rw [markPiece] at h
  split at h
  · obtain rfl := Option.some.inj h
    exact List.length_modify ..
  · cases h

theorem testBit_or_two_pow (b : UInt8) {m j : Nat} (hm : m < 8) :
    (b ||| UInt8.ofNat (2 ^ m)).toNat.testBit j = (b.toNat.testBit j || decide (m = j)) := by
  have hpow : 2 ^ m < 2 ^ 8 := Nat.pow_lt_pow_right (by decide) hm
  rw [UInt8.toNat_or, UInt8.toNat_ofNat', Nat.mod_eq_of_lt hpow, Nat.testBit_or,
    Nat.testBit_two_pow]

/-- The bit of the piece is set, and the others stay. -/
theorem hasPiece_markPiece {i : Nat} (h : markPiece bitfield i = some bitfield') (n : Nat) :
    hasPiece bitfield' n = (hasPiece bitfield n || decide (n = i)) := by
  have hoctet : octetIndex bitfield.length ((i : Int) / 8) = ((i / 8 : Nat) : Int) := by
    rw [octetIndex, if_neg (by omega)]
    omega
  have hbit : ((i : Int) % 8).toNat = i % 8 := by omega
  rw [markPiece, hoctet, hbit, Int.toNat_natCast] at h
  split at h
  · next hin =>
    obtain rfl := Option.some.inj h
    rw [hasPiece, hasPiece, List.getD_eq_getElem?_getD, List.getElem?_modify,
      List.getD_eq_getElem?_getD]
    by_cases hsame : i / 8 = n / 8
    · have hlt : n / 8 < bitfield.length := by omega
      rw [List.getElem?_eq_getElem hlt]
      show (if i / 8 = n / 8 then _ else _ : UInt8).toNat.testBit _ = _
      rw [if_pos hsame, testBit_or_two_pow _ (by omega)]
      congr 1
      rw [decide_eq_decide]
      omega
    · rw [decide_eq_false (by rintro rfl; exact hsame rfl), Bool.or_false]
      cases bitfield[n / 8]? with
      | none => rfl
      | some b =>
        show (if i / 8 = n / 8 then _ else _ : UInt8).toNat.testBit _ = _
        rw [if_neg hsame]
        rfl
  · cases h

section Fold

theorem foldlM_markPiece_isSome_iff {pieces : List Int} :
    (pieces.foldlM markPiece bitfield).isSome = true ↔
      ∀ i ∈ pieces, InBitfield bitfield.length i := by
  induction pieces generalizing bitfield with
  | nil => exact iff_of_true rfl fun _ h => absurd h List.not_mem_nil
  | cons i pieces ih =>
    rw [List.foldlM_cons, List.forall_mem_cons, ← markPiece_isSome_iff]
    cases hmark : markPiece bitfield i with
    | none => exact iff_of_false Bool.false_ne_true fun h => Bool.false_ne_true h.1
    | some bitfield' =>
      rw [← length_markPiece hmark]
      exact ih.trans (and_iff_right rfl).symm

theorem length_foldlM_markPiece {pieces : List Int}
    (h : pieces.foldlM markPiece bitfield = some bitfield') :
    bitfield'.length = bitfield.length := by
  induction pieces generalizing bitfield with
  | nil => exact congrArg List.length (Option.some.inj h).symm
  | cons i pieces ih =>
    rw [List.foldlM_cons] at h
    obtain ⟨next, hnext, h⟩ := Option.bind_eq_some_iff.mp h
    rw [ih h, length_markPiece hnext]

theorem hasPiece_foldlM {pieces : List Int} (hpieces : ∀ i ∈ pieces, 0 ≤ i)
    (h : pieces.foldlM markPiece bitfield = some bitfield') (n : Nat) :
    hasPiece bitfield' n = (hasPiece bitfield n || decide ((n : Int) ∈ pieces)) := by
  induction pieces generalizing bitfield with
  | nil =>
    obtain rfl := Option.some.inj h
    rw [decide_eq_false List.not_mem_nil, Bool.or_false]
  | cons i pieces ih =>
    rw [List.foldlM_cons] at h
    obtain ⟨k, rfl⟩ := Int.eq_ofNat_of_zero_le (hpieces i List.mem_cons_self)
    obtain ⟨next, hnext, hrest⟩ := Option.bind_eq_some_iff.mp h
    rw [ih (fun j hj => hpieces j (List.mem_cons_of_mem _ hj)) hrest, hasPiece_markPiece hnext,
      Bool.or_assoc, ← Bool.decide_or]
    congr 2
    rw [List.mem_cons, Nat.cast_inj]

end Fold

/-- The pieces that are read are sorted, and there are that many. -/
theorem piecesOfBitfield_pairwise (total_pieces : Nat) (bitfield : Bytes) :
    (piecesOfBitfield total_pieces bitfield).Pairwise (· < ·) :=
  List.Pairwise.filter _ List.pairwise_lt_range

theorem mem_piecesOfBitfield {total_pieces n : Nat} : n ∈ piecesOfBitfield total_pieces bitfield ↔
    n < 8 * bitfield.length ∧ n < total_pieces ∧ hasPiece bitfield n = true := by
  rw [piecesOfBitfield, List.mem_filter, List.mem_range, Bool.and_eq_true, decide_eq_true_eq]
  rfl

/-- The verified pieces come back if and only if they are sorted and there are no others. -/
theorem piecesOfBitfield_eq_iff (h : pieceBitfield c = some bitfield) :
    ((piecesOfBitfield c.total_pieces bitfield).map fun i : Nat => (i : Int)) = c.verified_pieces ↔
      c.verified_pieces.Pairwise (· < ·) ∧ ∀ i ∈ c.verified_pieces, 0 ≤ i ∧ i < c.total_pieces := by
  have hsorted := piecesOfBitfield_pairwise c.total_pieces bitfield
  have hcast : ((piecesOfBitfield c.total_pieces bitfield).map fun i : Nat => (i : Int)).Pairwise
      (· < ·) := List.pairwise_map.mpr (hsorted.imp fun hlt => Int.ofNat_lt.mpr hlt)
  constructor
  · intro heq
    rw [← heq]
    refine ⟨hcast, fun i hi => ?_⟩
    obtain ⟨n, hn, rfl⟩ := List.mem_map.mp hi
    have hlt := (mem_piecesOfBitfield.mp hn).2.1
    omega
  · rintro ⟨hpairwise, hin⟩
    refine List.Pairwise.eq_of_mem_iff hcast hpairwise fun i => ?_
    have hlength : bitfield.length = (c.total_pieces + 7) / 8 := by
      rw [length_foldlM_markPiece h, List.length_replicate]
    have hempty : ∀ n, hasPiece (List.replicate ((c.total_pieces + 7) / 8) 0) n = false := by
      intro n
      rw [hasPiece, List.getD_eq_getElem?_getD, List.getElem?_replicate]
      split
      · exact Nat.zero_testBit _
      · exact Nat.zero_testBit _
    rw [List.mem_map]
    constructor
    · rintro ⟨n, hn, rfl⟩
      have hset := (mem_piecesOfBitfield.mp hn).2.2
      rw [hasPiece_foldlM (fun i hi => (hin i hi).1) h, hempty, Bool.false_or,
        decide_eq_true_eq] at hset
      exact hset
    · intro hi
      obtain ⟨hlow, hhigh⟩ := hin i hi
      obtain ⟨n, rfl⟩ := Int.eq_ofNat_of_zero_le hlow
      refine ⟨n, mem_piecesOfBitfield.mpr ⟨by omega, by omega, ?_⟩, rfl⟩
      rw [hasPiece_foldlM (fun i hi => (hin i hi).1) h, hempty, Bool.false_or]
      exact decide_eq_true hi

end Checkpoint

end Ccbt
