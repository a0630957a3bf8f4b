import Ccbt.Core.Bencode.Refinement

/-!
# When decoding terminates

The decoder makes progress unless the input leads it to a dictionary key with a
negative length that takes the cursor back to where the key begins. The leading
character of a key is not looked at, and so `d1:ai0e-6:` makes it run in circles.
-/

namespace Ccbt

open Python

namespace Bencode

/-- A run from `start` raises or returns with the cursor further on and within
the data, and in no run has a call returned at or before its beginning. -/
def MakesProgress (data : Bytes) (start : Nat) : Prop :=
  (∃ n, match decode data n ⟨start, false⟩ with
    | (.ok _, c) => start < c.pos ∧ c.pos ≤ data.length
    | (.error (.raised _), _) => True
    | (.error .outOfFuel, _) => False) ∧
  ∀ n, (decode data n ⟨start, false⟩).2.movedBack = false

def Outcome.isPointsBack {α : Type} : Outcome α → Bool
  | .pointsBack => true
  | _ => false

/-- Reading the text from the left comes to a dictionary key whose length points
at or before the first octet of the key. -/
def MeetsBackwardKey (s : Bytes) : Prop := (readItem (fuelFor s) s).isPointsBack = true

instance (s : Bytes) : Decidable (MeetsBackwardKey s) :=
  inferInstanceAs (Decidable (_ = true))

theorem meetsBackwardKey_iff {s : Bytes} :
    MeetsBackwardKey s ↔ readItem (fuelFor s) s = .pointsBack := by
  unfold MeetsBackwardKey
  cases readItem (fuelFor s) s <;> simp [Outcome.isPointsBack]

private theorem decode_at_end {data : Bytes} {start : Nat} (h : data.length ≤ start) (n : Nat) :
    decode data (n + 1) ⟨start, false⟩ =
      (.error (.raised (.bencode "Unexpected end of data")), ⟨start, false⟩) := by
  have hpos : ((start : Int) ≥ data.length) := by omega
  rw [decode, tracked, getPos_bind, if_pos hpos]
  rfl

private theorem makesProgress_at_end {data : Bytes} {start : Nat} (h : data.length ≤ start) :
    MakesProgress data start := by
  refine ⟨⟨1, by rw [decode_at_end h]; trivial⟩, ?_⟩
  intro n
  cases n with
  | zero => rfl
  | succ n => rw [decode_at_end h]

private theorem not_meetsBackwardKey_nil : ¬MeetsBackwardKey [] := by decide

end Bencode

end Ccbt
