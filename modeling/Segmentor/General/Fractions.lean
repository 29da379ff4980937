import Mathlib.Algebra.Order.Field.Basic
import Mathlib.Data.Rat.Cast.Order
import Mathlib.Tactic.FieldSimp
import Mathlib.Tactic.Linarith
import Mathlib.Tactic.Positivity
import Mathlib.Tactic.Ring

/-!
# Fractions, the largest of them, and rounding

Fractions are compared by cross multiplication, without dividing.  A running
largest keeps the first of those that are equal.  A fraction rounds to the
nearest whole number, halves up.
-/

namespace Segmentor.General

/-- A fraction's value: its numerator over its denominator. -/
def ratio (fraction : ℤ × ℤ) : ℚ :=
  (fraction.1 : ℚ) / fraction.2

theorem ratio_lt_ratio_iff {a b : ℤ × ℤ} (ha : 0 < a.2) (hb : 0 < b.2) :
    ratio a < ratio b ↔ a.1 * b.2 < b.1 * a.2 := by
  have ha' : (0 : ℚ) < a.2 := by exact_mod_cast ha
  have hb' : (0 : ℚ) < b.2 := by exact_mod_cast hb
  unfold ratio
  rw [div_lt_div_iff₀ ha' hb']
  exact_mod_cast Iff.rfl

theorem ratio_le_ratio_iff {a b : ℤ × ℤ} (ha : 0 < a.2) (hb : 0 < b.2) :
    ratio a ≤ ratio b ↔ a.1 * b.2 ≤ b.1 * a.2 := by
  rw [← not_lt, ratio_lt_ratio_iff hb ha, not_lt]

/-! ## The first of the largest -/

section Leader

variable {α β : Type} [LinearOrder β] (value : α → β)

/-- The first of the largest of `best` and what follows it. -/
def leader : α → List α → α
  | best, [] => best
  | best, a :: rest => leader (if value best < value a then a else best) rest

/-- `found` is `start`, where nothing in the list is larger, or the first of
the largest in the list. -/
def IsLeader (start : α) (l : List α) (found : α) : Prop :=
  (found = start ∧ ∀ a ∈ l, value a ≤ value start) ∨
  ∃ before after, l = before ++ found :: after ∧
    value start < value found ∧
    (∀ a ∈ before, value a < value found) ∧
    ∀ a ∈ after, value a ≤ value found

theorem leader_isLeader (start : α) (l : List α) :
    IsLeader value start l (leader value start l) := by
  induction l generalizing start with
  | nil => exact Or.inl ⟨rfl, by simp⟩
  | cons a rest ih =>
      unfold leader
      by_cases hlt : value start < value a
      · rw [if_pos hlt]
        rcases ih a with ⟨hfound, hrest⟩ |
          ⟨before, after, hrest, hgt, hbefore, hafter⟩
        · exact Or.inr ⟨[], rest, by rw [hfound, List.nil_append],
            by rw [hfound]; exact hlt, by simp, by rw [hfound]; exact hrest⟩
        · refine Or.inr ⟨a :: before, after, congrArg _ hrest,
            hlt.trans hgt, ?_, hafter⟩
          intro b hb
          rcases List.mem_cons.mp hb with rfl | hmem
          · exact hgt
          · exact hbefore b hmem
      · rw [if_neg hlt]
        rw [not_lt] at hlt
        rcases ih start with ⟨hfound, hrest⟩ |
          ⟨before, after, hrest, hgt, hbefore, hafter⟩
        · exact Or.inl ⟨hfound, List.forall_mem_cons.mpr ⟨hlt, hrest⟩⟩
        · refine Or.inr ⟨a :: before, after, congrArg _ hrest, hgt, ?_, hafter⟩
          intro b hb
          rcases List.mem_cons.mp hb with rfl | hmem
          · exact hlt.trans_lt hgt
          · exact hbefore b hmem

variable {value} {start found other : α} {l : List α}

theorem IsLeader.start_le (h : IsLeader value start l found) :
    value start ≤ value found := by
  rcases h with ⟨rfl, -⟩ | ⟨before, after, -, hgt, -, -⟩
  · exact le_rfl
  · exact hgt.le

theorem IsLeader.le (h : IsLeader value start l found) :
    ∀ a ∈ l, value a ≤ value found := by
  rcases h with ⟨rfl, hall⟩ | ⟨before, after, rfl, hgt, hbefore, hafter⟩
  · exact hall
  · intro a ha
    rcases List.mem_append.mp ha with hmem | hmem
    · exact (hbefore a hmem).le
    · rcases List.mem_cons.mp hmem with rfl | hmem
      · exact le_rfl
      · exact hafter a hmem

theorem IsLeader.mem (h : IsLeader value start l found) :
    found = start ∨ found ∈ l := by
  rcases h with ⟨rfl, -⟩ | ⟨before, after, rfl, -, -, -⟩
  · exact Or.inl rfl
  · exact Or.inr (by simp)

theorem IsLeader.unique (h : IsLeader value start l found)
    (hother : IsLeader value start l other) : found = other := by
  have hfirst := h.le
  have hsecond := hother.le
  have hstart := h.start_le
  have hstart' := hother.start_le
  rcases h with ⟨rfl, hall⟩ | ⟨before, after, hl, hgt, hbefore, hafter⟩
  · rcases hother with ⟨rfl, -⟩ | ⟨before', after', hl', hgt', -, -⟩
    · rfl
    · exact absurd (hall other (by simp [hl'])) (not_le.mpr hgt')
  · rcases hother with ⟨rfl, hall⟩ |
      ⟨before', after', hl', hgt', hbefore', hafter'⟩
    · exact absurd (hall found (by simp [hl])) (not_le.mpr hgt)
    · have hsame : value found = value other :=
        le_antisymm (hsecond found (by simp [hl]))
          (hfirst other (by simp [hl']))
      rcases List.append_eq_append_iff.mp (hl.symm.trans hl') with
        ⟨middle, hmiddle, hrest⟩ | ⟨middle, hmiddle, hrest⟩
      · cases middle with
        | nil => exact (List.cons.inj hrest).1
        | cons a middle =>
            obtain ⟨rfl, -⟩ := List.cons.inj hrest
            have := hbefore' found (by simp [hmiddle])
            exact absurd hsame this.ne
      · cases middle with
        | nil => exact (List.cons.inj hrest).1.symm
        | cons a middle =>
            obtain ⟨rfl, -⟩ := List.cons.inj hrest
            have := hbefore other (by simp [hmiddle])
            exact absurd hsame.symm this.ne

end Leader

/-! ## Rounding -/

/-- The whole number nearest to `num / den`, halves up. -/
def roundHalfUp (num den : ℤ) : ℤ :=
  (2 * num + den) / (2 * den)

section Rounding

variable {num den : ℤ}

theorem roundHalfUp_mul_le (hden : 0 < den) :
    roundHalfUp num den * (2 * den) ≤ 2 * num + den :=
  Int.ediv_mul_le _ (by omega)

theorem lt_roundHalfUp_mul (hden : 0 < den) :
    2 * num + den < (roundHalfUp num den + 1) * (2 * den) := by
  have := Int.lt_ediv_add_one_mul_self (2 * num + den)
    (show 0 < 2 * den by omega)
  exact this

/-- Rounding moves a fraction up by at most a half, and down by less. -/
theorem roundHalfUp_bounds (hden : 0 < den) :
    (num : ℚ) / den - 1 / 2 < roundHalfUp num den ∧
      (roundHalfUp num den : ℚ) ≤ (num : ℚ) / den + 1 / 2 := by
  have hden' : (0 : ℚ) < den := by exact_mod_cast hden
  have hle : ((roundHalfUp num den : ℤ) : ℚ) * (2 * den) ≤ 2 * num + den := by
    exact_mod_cast roundHalfUp_mul_le hden
  have hlt : (2 * num + den : ℚ) <
      ((roundHalfUp num den : ℤ) + 1) * (2 * den) := by
    exact_mod_cast lt_roundHalfUp_mul hden
  have hnum : (num : ℚ) = num / den * den := by
    rw [div_mul_cancel₀ _ hden'.ne']
  rw [hnum] at hle hlt
  constructor
  · by_contra hge
    rw [not_lt] at hge
    nlinarith
  · by_contra hgt
    rw [not_le] at hgt
    nlinarith

theorem le_roundHalfUp {m : ℤ} (hden : 0 < den) (h : m * den ≤ num) :
    m ≤ roundHalfUp num den := by
  unfold roundHalfUp
  rw [Int.le_ediv_iff_mul_le (by omega)]
  have : m * (2 * den) = 2 * (m * den) := by ring
  omega

theorem roundHalfUp_lt_iff {m : ℤ} (hden : 0 < den) :
    roundHalfUp num den < m ↔ (num : ℚ) / den + 1 / 2 < m := by
  have hden' : (0 : ℚ) < den := by exact_mod_cast hden
  unfold roundHalfUp
  rw [Int.ediv_lt_iff_lt_mul (by omega), div_add_div _ _ hden'.ne' two_ne_zero,
    div_lt_iff₀ (by positivity), mul_comm (num : ℚ) 2, mul_one,
    mul_comm (den : ℚ) 2]
  exact_mod_cast Iff.rfl

theorem roundHalfUp_eq {m : ℤ} (hden : 0 < den) (h : num = m * den) :
    roundHalfUp num den = m := by
  apply le_antisymm _ (le_roundHalfUp hden h.ge)
  have hle := @roundHalfUp_mul_le num den hden
  by_contra hgt
  have hstep : (m + 1) * (2 * den) ≤ roundHalfUp num den * (2 * den) :=
    mul_le_mul_of_nonneg_right (by omega) (by omega)
  have : (m + 1) * (2 * den) = 2 * (m * den) + 2 * den := by ring
  omega

end Rounding

end Segmentor.General
