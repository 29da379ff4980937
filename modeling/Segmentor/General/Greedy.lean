import Segmentor.General.Tiling

/-!
# Greedy choices

Indices are chosen one after the other, each the first one after the choice
before it that may follow that choice.  There is one such list, however it is
found.
-/

namespace Segmentor.General

/-- The first index after `current` that may follow it. -/
structure IsNext (eligible : ℕ → ℕ → Prop) (current next : ℕ) : Prop where
  after : current < next
  allowed : eligible current next
  first : ∀ i, current < i → i < next → ¬ eligible current i

/-- The choices after `current`, made until none may follow. -/
inductive GreedyFrom (eligible : ℕ → ℕ → Prop) : ℕ → List ℕ → Prop
  | done {current : ℕ} (h : ∀ i, current < i → ¬ eligible current i) :
      GreedyFrom eligible current []
  | choose {current next : ℕ} {rest : List ℕ}
      (h : IsNext eligible current next)
      (hrest : GreedyFrom eligible next rest) :
      GreedyFrom eligible current (next :: rest)

variable {eligible : ℕ → ℕ → Prop} {current : ℕ}

theorem IsNext.unique {i j : ℕ} (hi : IsNext eligible current i)
    (hj : IsNext eligible current j) : i = j := by
  rcases Nat.lt_trichotomy i j with hlt | heq | hlt
  · exact absurd hi.allowed (hj.first i hi.after hlt)
  · exact heq
  · exact absurd hj.allowed (hi.first j hj.after hlt)

/-- Two lists of greedy choices from one index are the same list. -/
theorem GreedyFrom.unique {cuts others : List ℕ}
    (h : GreedyFrom eligible current cuts)
    (hothers : GreedyFrom eligible current others) : cuts = others := by
  induction h generalizing others with
  | done hnone =>
      cases hothers with
      | done => rfl
      | choose hnext => exact absurd hnext.allowed (hnone _ hnext.after)
  | choose hnext hrest ih =>
      cases hothers with
      | done hnone => exact absurd hnext.allowed (hnone _ hnext.after)
      | choose hother hrest' =>
          obtain rfl := hnext.unique hother
          rw [ih hrest']

/-- Each choice is the next one after the choice before it. -/
theorem GreedyFrom.isNext {cuts : List ℕ}
    (h : GreedyFrom eligible current cuts) :
    ∀ pair ∈ pairs (current :: cuts), IsNext eligible pair.1 pair.2 := by
  induction h with
  | done => simp
  | choose hnext hrest ih =>
      rw [pairs_cons_cons]
      intro pair hpair
      rcases List.mem_cons.mp hpair with rfl | hmem
      · exact hnext
      · exact ih pair hmem

end Segmentor.General
