import Mathlib.Data.List.Induction

/-!
# What a run of items carries forward

Items add to a running amount, and some of them first drop what came before.
The amount left after a list is nothing exactly where no item that adds to it
is followed only by items that keep it.
-/

namespace Segmentor.General

variable {α : Type*} {keeps : α → Bool} {adds : α → ℕ}

/-- What one item makes of the amount before it. -/
def carry (keeps : α → Bool) (adds : α → ℕ) (amount : ℕ) (x : α) : ℕ :=
  (if keeps x then amount else 0) + adds x

/-- What is left after a list of items. -/
def carried (keeps : α → Bool) (adds : α → ℕ) (xs : List α) : ℕ :=
  xs.foldl (carry keeps adds) 0

@[simp] theorem carried_nil : carried keeps adds [] = 0 := rfl

theorem carried_append_singleton (xs : List α) (x : α) :
    carried keeps adds (xs ++ [x]) =
      (if keeps x then carried keeps adds xs else 0) + adds x := by
  unfold carried
  rw [List.foldl_append]
  rfl

/-- What holds of every place in a list holds of its head and of every place
in its tail. -/
theorem forall_place_cons_iff {P : List α → α → List α → Prop} {x : α}
    {xs : List α} :
    (∀ before y after, x :: xs = before ++ y :: after → P before y after) ↔
      P [] x xs ∧
      ∀ before y after, xs = before ++ y :: after →
        P (x :: before) y after := by
  constructor
  · intro h
    refine ⟨h [] x xs rfl, ?_⟩
    rintro before y after rfl
    exact h (x :: before) y after rfl
  · rintro ⟨hhead, htail⟩ before y after hplace
    cases before with
    | nil =>
        obtain ⟨rfl, rfl⟩ := List.cons.inj hplace
        exact hhead
    | cons first before =>
        obtain ⟨rfl, rfl⟩ := List.cons.inj hplace
        exact htail before y after rfl

theorem carried_eq_zero_iff {xs : List α} :
    carried keeps adds xs = 0 ↔
      ∀ before x after, xs = before ++ x :: after →
        (∀ y ∈ after, keeps y = true) → adds x = 0 := by
  induction xs using List.reverseRecOn with
  | nil => simp
  | append_singleton xs last ih =>
      rw [carried_append_singleton, Nat.add_eq_zero_iff]
      constructor
      · rintro ⟨hkept, hlast⟩ before x after hsplit hafter
        cases after using List.reverseRecOn with
        | nil =>
            obtain ⟨-, hx⟩ := List.append_inj' hsplit rfl
            cases hx
            exact hlast
        | append_singleton after final =>
            rw [← List.cons_append, ← List.append_assoc] at hsplit
            obtain ⟨hxs, hfinal⟩ := List.append_inj' hsplit rfl
            cases hfinal
            rw [if_pos (hafter last (by simp))] at hkept
            apply ih.mp hkept before x after hxs
            intro y hy
            exact hafter y (by simp [hy])
      · intro hnone
        have hlast : adds last = 0 := hnone xs last [] rfl (by simp)
        refine ⟨?_, hlast⟩
        by_cases hkeeps : keeps last = true
        · rw [if_pos hkeeps, ih]
          intro before x after hxs hafter
          apply hnone before x (after ++ [last])
          · rw [hxs]
            simp
          · intro y hy
            rcases List.mem_append.mp hy with hy | hy
            · exact hafter y hy
            · rw [List.mem_singleton.mp hy]
              exact hkeeps
        · rw [if_neg hkeeps]

end Segmentor.General
