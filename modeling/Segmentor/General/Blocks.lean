import Mathlib.Tactic

/-!
# Blocks of numbers

The numbers of a given width that start with the same bits, and the test for
one by a mask.
-/

namespace Segmentor.General

/-- The numbers that share their first `length` bits with `base`. -/
structure Block where
  base : ℕ
  length : ℕ
  deriving DecidableEq, Repr

def Block.Contains (width : ℕ) (block : Block) (n : ℕ) : Prop :=
  n / 2 ^ (width - block.length) = block.base / 2 ^ (width - block.length)

instance (width : ℕ) (block : Block) (n : ℕ) :
    Decidable (block.Contains width n) :=
  inferInstanceAs (Decidable (_ = _))

/-- Masking clears the last bits. -/
theorem and_mask {width last n : ℕ} (hlast : last ≤ width)
    (hn : n < 2 ^ width) :
    n &&& (2 ^ width - 2 ^ last) = n / 2 ^ last * 2 ^ last := by
  have hmask : 2 ^ width - 2 ^ last = (2 ^ (width - last) - 1) <<< last := by
    rw [Nat.shiftLeft_eq, Nat.sub_mul, ← Nat.pow_add, Nat.one_mul,
      Nat.sub_add_cancel hlast]
  rw [hmask, ← Nat.shiftRight_eq_div_pow, ← Nat.shiftLeft_eq]
  apply Nat.eq_of_testBit_eq
  intro i
  rw [Nat.testBit_and, Nat.testBit_shiftLeft, Nat.testBit_shiftLeft,
    Nat.testBit_shiftRight, Nat.testBit_two_pow_sub_one]
  by_cases hi : last ≤ i
  · rw [Nat.add_sub_cancel' hi]
    by_cases hinside : i < width
    · simp [hi, show i - last < width - last by omega]
    · have hzero : n.testBit i = false := by
        apply Nat.testBit_lt_two_pow
        exact hn.trans_le (Nat.pow_le_pow_right (by omega) (by omega))
      simp [hzero]
  · simp [hi]

theorem and_mask_eq_iff {width last n quotient : ℕ} (hlast : last ≤ width)
    (hn : n < 2 ^ width) :
    n &&& (2 ^ width - 2 ^ last) = quotient * 2 ^ last ↔
      n / 2 ^ last = quotient := by
  rw [and_mask hlast hn]
  exact Nat.mul_left_inj (by positivity)

end Segmentor.General
