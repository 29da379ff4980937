import Mathlib.Algebra.Order.BigOperators.Group.List
import Mathlib.Algebra.Order.Floor.Semifield
import Mathlib.Data.Rat.Floor
import Mathlib.Data.List.Forall2
import Mathlib.Tactic.Linarith
import Mathlib.Tactic.Positivity
import Mathlib.Tactic.Ring

/-!
# Rounding down between clocks

A clock of rate `r` counts `r` ticks a second.  An instant read on one clock
is rescaled to another and rounded down, so every conversion may lose up to
one tick.
-/

namespace Segmentor.General

/-- `value` ticks of the clock `fromRate` on the clock `toRate`, rounded
down. -/
def rescaled (value fromRate toRate : ℕ) : ℕ :=
  value * toRate / fromRate

section Rescaled

variable {r s t : ℕ}

theorem rescaled_mul_le (a : ℕ) : rescaled a r s * r ≤ a * s :=
  Nat.div_mul_le_self _ _

theorem lt_rescaled_mul (hr : 0 < r) (a : ℕ) :
    a * s < (rescaled a r s + 1) * r := by
  have := Nat.lt_div_mul_add (a := a * s) hr
  unfold rescaled
  rwa [Nat.add_mul, Nat.one_mul]

theorem le_rescaled_iff (hr : 0 < r) {a b : ℕ} :
    b ≤ rescaled a r s ↔ b * r ≤ a * s :=
  Nat.le_div_iff_mul_le hr

/-- Ticks on the clock's own rate stay what they are. -/
theorem rescaled_mul_add (hr : 0 < r) (a b : ℕ) :
    (a * s + b * r) / r = rescaled a r s + b :=
  Nat.add_mul_div_right _ _ hr

theorem rescaled_rescaled_le (hr : 0 < r) (hs : 0 < s) (a : ℕ) :
    rescaled (rescaled a r s) s t ≤ rescaled a r t := by
  rw [le_rescaled_iff hr]
  refine Nat.le_of_mul_le_mul_right ?_ hs
  calc
    rescaled (rescaled a r s) s t * r * s
        = rescaled (rescaled a r s) s t * s * r := by ring
    _ ≤ rescaled a r s * t * r :=
        Nat.mul_le_mul_right r (rescaled_mul_le _)
    _ = rescaled a r s * r * t := by ring
    _ ≤ a * s * t := Nat.mul_le_mul_right t (rescaled_mul_le a)
    _ = a * t * s := by ring

/-- Rescaling a sum rescales its parts, with one tick more where the parts
rounded off make up a whole one. -/
theorem rescaled_add (hr : 0 < r) (a b : ℕ) :
    rescaled (a + b) r s =
      rescaled a r s + rescaled b r s +
        if r ≤ a * s % r + b * s % r then 1 else 0 := by
  unfold rescaled
  rw [Nat.add_mul, Nat.add_div hr]

/-- A stretch of `b` ticks appended to an instant of a finer clock ends, on
the coarser clock, where the instant and the stretch do, or one tick before. -/
theorem rescaled_append (hs : 0 < s) (hle : s ≤ r) (a b : ℕ) :
    rescaled (a + rescaled b s r) r s ≤ rescaled a r s + b ∧
      rescaled a r s + b ≤ rescaled (a + rescaled b s r) r s + 1 := by
  have hr : 0 < r := Nat.lt_of_lt_of_le hs hle
  constructor
  · rw [← rescaled_mul_add hr]
    apply Nat.div_le_div_right
    rw [Nat.add_mul]
    exact Nat.add_le_add_left (rescaled_mul_le b) _
  · have hlost := lt_rescaled_mul (s := r) hs b
    calc
      rescaled a r s + b = (a * s + b * r) / r := (rescaled_mul_add hr a b).symm
      _ ≤ ((a + rescaled b s r) * s + 1 * r) / r := by
          apply Nat.div_le_div_right
          rw [Nat.add_mul] at hlost ⊢
          omega
      _ = rescaled (a + rescaled b s r) r s + 1 := rescaled_mul_add hr _ 1

/-- An instant `a` of the clock `q`, read on the clock `r` and moved `b` ticks
later there, is on the clock `s` no later than when both are rescaled apart,
unless the two readings of the instant agree and the parts rounded off carry. -/
theorem rescaled_detour_add_le_iff {q : ℕ} (hq : 0 < q) (hr : 0 < r)
    (a b : ℕ) :
    rescaled (rescaled a q r + b) r s ≤ rescaled a q s + rescaled b r s ↔
      ¬(rescaled (rescaled a q r) r s = rescaled a q s ∧
        r ≤ rescaled a q r * s % r + b * s % r) := by
  have hdetour := rescaled_rescaled_le (t := s) hq hr a
  rw [rescaled_add hr]
  split
  · rename_i hcarry
    omega
  · rename_i hcarry
    omega

theorem rescaled_detour_add_le_succ {q : ℕ} (hq : 0 < q) (hr : 0 < r)
    (a b : ℕ) :
    rescaled (rescaled a q r + b) r s ≤
      rescaled a q s + rescaled b r s + 1 := by
  have hdetour := rescaled_rescaled_le (t := s) hq hr a
  rw [rescaled_add hr]
  split
  · omega
  · omega

end Rescaled

/-! ## Sums of rounded numbers -/

theorem rescaled_eq_floor (value fromRate toRate : ℕ) :
    rescaled value fromRate toRate =
      ⌊((value * toRate : ℕ) : ℚ) / fromRate⌋₊ :=
  (Nat.floor_div_eq_div _ _).symm

theorem rescaled_le_exact (value fromRate toRate : ℕ) :
    (rescaled value fromRate toRate : ℚ) ≤ (value : ℚ) * toRate / fromRate := by
  rw [rescaled_eq_floor]
  push_cast
  exact Nat.floor_le (by positivity)

theorem exact_lt_rescaled_add_one (value fromRate toRate : ℕ) :
    (value : ℚ) * toRate / fromRate < rescaled value fromRate toRate + 1 := by
  rw [rescaled_eq_floor]
  push_cast
  exact Nat.lt_floor_add_one _

/-- Rounding each part down loses less than one for each of them. -/
theorem sum_floor_bounds {values : List ℚ} (h : ∀ value ∈ values, 0 ≤ value) :
    (((values.map fun value => ⌊value⌋₊).sum : ℕ) : ℚ) ≤ values.sum ∧
      values.sum - values.length ≤
        ((values.map fun value => ⌊value⌋₊).sum : ℕ) := by
  induction values with
  | nil => simp
  | cons value values ih =>
      obtain ⟨hvalue, hvalues⟩ := List.forall_mem_cons.mp h
      obtain ⟨hle, hge⟩ := ih hvalues
      have hfloor := Nat.floor_le hvalue
      have hlt := Nat.lt_floor_add_one value
      rw [List.map_cons, List.sum_cons, List.sum_cons, List.length_cons,
        Nat.cast_add, Nat.cast_succ]
      constructor
      · linarith
      · linarith

/-! ## Rounding to the nearest -/

/-- The nearest whole number, halves up. -/
def halfUp (value : ℚ) : ℕ :=
  ⌊value + 1 / 2⌋₊

/-- The nearest whole number is found by adding half of the divisor. -/
theorem add_half_div {n d : ℕ} (hd : 0 < d) :
    (n + d / 2) / d = halfUp ((n : ℚ) / d) := by
  have hd' : (d : ℚ) ≠ 0 := by exact_mod_cast hd.ne'
  have hvalue : (n : ℚ) / d + 1 / 2 = ((2 * n + d : ℕ) : ℚ) / (2 * d : ℕ) := by
    push_cast
    field_simp
  have hhalf : n + d / 2 = (2 * n + d) / 2 := by omega
  unfold halfUp
  rw [hvalue, Nat.floor_div_eq_div, hhalf, Nat.div_div_eq_div_mul]

theorem halfUp_natCast_add (n : ℕ) {value : ℚ} (hvalue : 0 ≤ value) :
    halfUp (n + value) = n + halfUp value := by
  unfold halfUp
  rw [add_assoc, add_comm (n : ℚ), Nat.floor_add_natCast (by positivity),
    Nat.add_comm]

@[simp] theorem halfUp_zero : halfUp 0 = 0 := by
  unfold halfUp
  norm_num

end Segmentor.General
