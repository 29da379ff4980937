import Mathlib.Logic.Relation
import Segmentor.General.Fallible

/-!
# Loops

A round of a loop goes on with another state, ends the loop, or fails.  A loop
whose rounds keep an invariant and lower a measure ends from every state that
meets the invariant, and a function that unfolds like the loop is how it ends.
-/

namespace Segmentor.General

namespace Loop

universe u v

variable {ε : Type u} {σ ρ : Type v}

/-- What a round that does not fail leads to. -/
inductive Round (σ ρ : Type v) : Type v
  | again (next : σ)
  | done (result : ρ)

/-- The rest of the loop after a round, when `rest` is how it goes on. -/
def Round.resume (rest : σ → Except ε ρ) : Round σ ρ → Except ε ρ
  | .again next => rest next
  | .done result => .ok result

def Round.map {τ : Type v} (f : σ → τ) : Round σ ρ → Round τ ρ
  | .again next => .again (f next)
  | .done result => .done result

variable (round : σ → Except ε (Round σ ρ))

/-- One round leads from `state` to `next`. -/
def Next (state next : σ) : Prop :=
  round state = .ok (.again next)

/-- Some rounds, or none, lead from one state to another. -/
abbrev Reaches : σ → σ → Prop :=
  Relation.ReflTransGen (Next round)

/-- How the loop ends from a state. -/
inductive Ends : σ → Except ε ρ → Prop
  | failed {state : σ} {error : ε} (h : round state = .error error) :
      Ends state (.error error)
  | done {state : σ} {result : ρ} (h : round state = .ok (.done result)) :
      Ends state (.ok result)
  | again {state next : σ} {result : Except ε ρ} (h : Next round state next)
      (hrest : Ends next result) : Ends state result

/-- How the loop ends, if it does within `fuel` rounds. -/
def runFuel : ℕ → σ → Option (Except ε ρ)
  | 0, _ => none
  | fuel + 1, state =>
      match round state with
      | .error error => some (.error error)
      | .ok (.done result) => some (.ok result)
      | .ok (.again next) => runFuel fuel next

/-- Rounds keep `P` and lower the measure. -/
structure Descends (P : σ → Prop) (measure : σ → ℕ) : Prop where
  keeps : ∀ {state next}, P state → Next round state next → P next
  lowers : ∀ {state next}, P state → Next round state next →
    measure next < measure state

variable {round} {P : σ → Prop} {measure : σ → ℕ} {state final : σ}
  {result other : Except ε ρ}

theorem ends_of_runFuel {fuel : ℕ}
    (h : runFuel round fuel state = some result) : Ends round state result := by
  induction fuel generalizing state with
  | zero => cases h
  | succ fuel ih =>
      unfold runFuel at h
      split at h
      · rename_i hround
        obtain rfl := Option.some.inj h
        exact .failed hround
      · rename_i hround
        obtain rfl := Option.some.inj h
        exact .done hround
      · rename_i hround
        exact .again hround (ih h)

namespace Descends

/-- What rounds keep holds wherever the loop gets. -/
theorem reaches (h : Descends round P measure) (hstate : P state)
    (hfinal : Reaches round state final) : P final := by
  induction hfinal with
  | refl => exact hstate
  | tail _ hnext ih => exact h.keeps ih hnext

variable {f : σ → Except ε ρ}

theorem runFuel_eq (h : Descends round P measure)
    (hf : ∀ state, P state → f state = round state >>= Round.resume f)
    (hstate : P state) {fuel : ℕ} (hfuel : measure state < fuel) :
    runFuel round fuel state = some (f state) := by
  induction fuel generalizing state with
  | zero => omega
  | succ fuel ih =>
      rw [hf state hstate]
      unfold runFuel
      cases hround : round state with
      | error error => rfl
      | ok outcome =>
          cases outcome with
          | done result => rfl
          | again next =>
              have hlower := h.lowers hstate hround
              exact ih (h.keeps hstate hround) (by omega)

theorem ends (h : Descends round P measure)
    (hf : ∀ state, P state → f state = round state >>= Round.resume f)
    (hstate : P state) : Ends round state (f state) :=
  ends_of_runFuel (h.runFuel_eq hf hstate (Nat.lt_succ_self _))

end Descends

end Loop

end Segmentor.General
