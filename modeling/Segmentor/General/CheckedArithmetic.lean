import Segmentor.General.Fallible

/-!
# Checked machine arithmetic

Arithmetic of words of a fixed width on natural numbers.  A word of a type is
a number below that type's `bound`; the checked operations fail where the
result is none, and the saturating ones stop at the largest word.
-/

namespace Segmentor.General

def checkedAdd (bound a b : ℕ) : Option ℕ :=
  if a + b < bound then some (a + b) else none

def checkedMul (bound a b : ℕ) : Option ℕ :=
  if a * b < bound then some (a * b) else none

def checkedSub (a b : ℕ) : Option ℕ :=
  if b ≤ a then some (a - b) else none

def checkedDiv (a b : ℕ) : Option ℕ :=
  if b = 0 then none else some (a / b)

theorem word_pos : 0 < 2 ^ 64 := by decide

def saturatingAdd (bound a b : ℕ) : ℕ :=
  min (a + b) (bound - 1)

def saturatingMul (bound a b : ℕ) : ℕ :=
  min (a * b) (bound - 1)

@[simp] theorem checkedAdd_eq_some_iff {bound a b c : ℕ} :
    checkedAdd bound a b = some c ↔ a + b < bound ∧ a + b = c := by
  unfold checkedAdd
  split <;> simp_all

@[simp] theorem checkedAdd_eq_none_iff {bound a b : ℕ} :
    checkedAdd bound a b = none ↔ bound ≤ a + b := by
  unfold checkedAdd
  split <;> simp_all

@[simp] theorem checkedMul_eq_some_iff {bound a b c : ℕ} :
    checkedMul bound a b = some c ↔ a * b < bound ∧ a * b = c := by
  unfold checkedMul
  split <;> simp_all

@[simp] theorem checkedSub_eq_some_iff {a b c : ℕ} :
    checkedSub a b = some c ↔ b ≤ a ∧ a - b = c := by
  unfold checkedSub
  split <;> simp_all

@[simp] theorem checkedDiv_eq_some_iff {a b c : ℕ} :
    checkedDiv a b = some c ↔ b ≠ 0 ∧ a / b = c := by
  unfold checkedDiv
  split <;> simp_all

theorem le_saturatingAdd {bound a b : ℕ} (ha : a < bound) :
    a ≤ saturatingAdd bound a b := by
  unfold saturatingAdd
  omega

theorem saturatingAdd_saturatingAdd (bound a b c : ℕ) :
    saturatingAdd bound (saturatingAdd bound a b) c =
      saturatingAdd bound a (b + c) := by
  unfold saturatingAdd
  omega

theorem le_foldl_saturatingAdd {bound a : ℕ} (l : List ℕ) (ha : a < bound) :
    a ≤ l.foldl (saturatingAdd bound) a := by
  induction l generalizing a with
  | nil => exact le_rfl
  | cons b rest ih =>
      refine (le_saturatingAdd ha).trans (ih ?_)
      unfold saturatingAdd
      omega

theorem foldl_saturatingAdd (bound a : ℕ) {l : List ℕ} (hl : l ≠ []) :
    l.foldl (saturatingAdd bound) a = saturatingAdd bound a l.sum := by
  induction l generalizing a with
  | nil => exact absurd rfl hl
  | cons b rest ih =>
      rw [List.foldl_cons, List.sum_cons]
      by_cases hrest : rest = []
      · simp [hrest]
      · rw [ih _ hrest, saturatingAdd_saturatingAdd]

theorem foldlM_checkedAdd_eq_ok {α ε : Type} {f : α → ℕ} {bound : ℕ}
    {error : ε} {l : List α} {start total : ℕ}
    (h : l.foldlM (fun total a => okOr (checkedAdd bound total (f a)) error)
      start = .ok total) :
    start + (l.map f).sum = total := by
  have hfold := foldlM_invariant
    (I := fun rest total => total + (rest.map f).sum =
      start + (l.map f).sum)
    (fun a rest total next hI hnext => by
      obtain ⟨-, rfl⟩ := checkedAdd_eq_some_iff.mp (okOr_eq_ok_iff.mp hnext)
      rwa [List.map_cons, List.sum_cons, ← Nat.add_assoc] at hI) rfl h
  simpa using hfold.symm

end Segmentor.General
