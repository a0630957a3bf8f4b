import Mathlib.Algebra.Order.Ring.Nat
import Mathlib.Data.Nat.Log

/-!
# Aligned blocks

A block of `2 ^ k` numbers is aligned if it starts at a multiple of its size. An interval is cut
into aligned blocks from the left, each as large as the alignment of its start and the end of the
interval allow.
-/

namespace Interval

/-- The number of zeros at the end of the binary form, up to a bound. -/
def trailingZeros : Nat → Nat → Nat
  | _, 0 => 0
  | n, bits + 1 => if n % 2 = 0 then trailingZeros (n / 2) bits + 1 else 0

variable {n k bits first last : Nat}

theorem trailingZeros_le (n bits : Nat) : trailingZeros n bits ≤ bits := by
  induction bits generalizing n with
  | zero => exact Nat.le_refl 0
  | succ bits ih =>
    rw [trailingZeros]
    split_ifs
    · exact Nat.succ_le_succ (ih (n / 2))
    · exact Nat.zero_le _

theorem two_pow_trailingZeros_dvd (n bits : Nat) : 2 ^ trailingZeros n bits ∣ n := by
  induction bits generalizing n with
  | zero => exact Nat.one_dvd n
  | succ bits ih =>
    rw [trailingZeros]
    split_ifs with heven
    · obtain ⟨m, rfl⟩ := Nat.dvd_of_mod_eq_zero heven
      have hhalf := ih m
      rw [Nat.mul_div_cancel_left m Nat.two_pos, Nat.pow_succ, Nat.mul_comm]
      exact Nat.mul_dvd_mul_left 2 hhalf
    · exact Nat.one_dvd n

theorem le_trailingZeros (h : 2 ^ k ∣ n) (hk : k ≤ bits) : k ≤ trailingZeros n bits := by
  induction bits generalizing n k with
  | zero => exact hk
  | succ bits ih =>
    cases k with
    | zero => exact Nat.zero_le _
    | succ k =>
      obtain ⟨m, rfl⟩ := h
      have heven : 2 ^ (k + 1) * m = 2 * (2 ^ k * m) := by
        rw [Nat.pow_succ']
        exact Nat.mul_assoc 2 _ m
      rw [heven, trailingZeros, if_pos (Nat.mul_mod_right 2 _),
        Nat.mul_div_cancel_left _ Nat.two_pos]
      exact Nat.succ_le_succ (ih (Nat.dvd_mul_right _ m) (Nat.le_of_succ_le_succ hk))

/-- The exponent of the largest aligned block at the start of an interval. -/
def blockExponent (bits first last : Nat) : Nat :=
  min (trailingZeros first bits) (Nat.log2 (last - first + 1))

theorem blockExponent_le (bits first last : Nat) : blockExponent bits first last ≤ bits :=
  (Nat.min_le_left _ _).trans (trailingZeros_le first bits)

theorem two_pow_blockExponent_dvd (bits first last : Nat) :
    2 ^ blockExponent bits first last ∣ first :=
  (Nat.pow_dvd_pow 2 (Nat.min_le_left _ _)).trans (two_pow_trailingZeros_dvd first bits)

theorem two_pow_blockExponent_le (bits : Nat) (h : first ≤ last) :
    first + 2 ^ blockExponent bits first last ≤ last + 1 := by
  have hlog : 2 ^ Nat.log2 (last - first + 1) ≤ last - first + 1 := Nat.log2_self_le (by omega)
  have hle := Nat.pow_le_pow_right Nat.two_pos
    (Nat.min_le_right (trailingZeros first bits) (Nat.log2 (last - first + 1)))
  rw [blockExponent]
  omega

/-- The first block is the whole interval just when the interval is an aligned block. -/
theorem first_block_eq_iff : first + 2 ^ blockExponent bits first last = last + 1 ↔
    ∃ k ≤ bits, 2 ^ k ∣ first ∧ first + 2 ^ k = last + 1 := by
  constructor
  · intro h
    exact ⟨_, blockExponent_le bits first last, two_pow_blockExponent_dvd bits first last, h⟩
  · rintro ⟨k, hk, hdvd, hlast⟩
    have hsize : last - first + 1 = 2 ^ k := by
      have := Nat.two_pow_pos k
      omega
    rw [blockExponent, hsize, Nat.log2_two_pow, Nat.min_eq_right (le_trailingZeros hdvd hk)]
    exact hlast

end Interval
