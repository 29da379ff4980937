import Mathlib.Tactic.TypeStar

/-!
# Runs of a step function

A step function that may refuse an action.  What holds throughout a run, and
what each of its steps meets.
-/

namespace Segmentor.General

variable {State Action : Type*} (step : State → Action → Option State)

/-- `P` holds in every state the actions reach, one after the other. -/
def Throughout (P : State → Prop) : State → List Action → Prop
  | state, [] => P state
  | state, action :: actions =>
      P state ∧ ∀ next, step state action = some next →
        Throughout P next actions

/-- `Q` holds of every action that is taken and the state it is taken in. -/
def EachStep (Q : State → Action → Prop) : State → List Action → Prop
  | _, [] => True
  | state, action :: actions =>
      ∀ next, step state action = some next →
        Q state action ∧ EachStep Q next actions

instance EachStep.decidable (Q : State → Action → Prop)
    [∀ state action, Decidable (Q state action)] :
    ∀ (state : State) (actions : List Action),
      Decidable (EachStep step Q state actions)
  | _, [] => .isTrue trivial
  | state, action :: actions =>
      match hstep : step state action with
      | none => .isTrue fun next hnext => by simp [hstep] at hnext
      | some next =>
          haveI := EachStep.decidable Q next actions
          decidable_of_iff (Q state action ∧ EachStep step Q next actions) (by
            simp [EachStep, hstep])

/-- The state after all of the actions, if none is refused. -/
def finalState : State → List Action → Option State
  | state, [] => some state
  | state, action :: actions =>
      (step state action).bind fun next => finalState next actions

variable {step} {P : State → Prop} {Q : State → Action → Prop}

theorem Throughout.start {state : State} {actions : List Action}
    (h : Throughout step P state actions) : P state := by
  cases actions with
  | nil => exact h
  | cons action actions => exact h.1

/-- What holds throughout a run holds where it ends. -/
theorem Throughout.final {state final : State} {actions : List Action}
    (h : Throughout step P state actions)
    (hfinal : finalState step state actions = some final) : P final := by
  induction actions generalizing state with
  | nil =>
      obtain rfl := Option.some.inj hfinal
      exact h
  | cons action actions ih =>
      obtain ⟨next, hnext, hrest⟩ := Option.bind_eq_some_iff.mp hfinal
      exact ih (h.2 next hnext) hrest

/-- An invariant holds throughout a run whose steps keep it. -/
theorem throughout_of_invariant {state : State} {actions : List Action}
    (hstart : P state)
    (hkeep : ∀ state action next, P state → Q state action →
      step state action = some next → P next)
    (hsteps : EachStep step Q state actions) :
    Throughout step P state actions := by
  induction actions generalizing state with
  | nil => exact hstart
  | cons action actions ih =>
      refine ⟨hstart, ?_⟩
      intro next hnext
      obtain ⟨hmeet, hrest⟩ := hsteps next hnext
      exact ih (hkeep state action next hstart hmeet hnext) hrest

/-- A step taken after the others meets what each of them does. -/
theorem EachStep.last {state reached next : State} {actions : List Action}
    {action : Action}
    (h : EachStep step Q state (actions ++ [action]))
    (hreached : finalState step state actions = some reached)
    (hnext : step reached action = some next) : Q reached action := by
  induction actions generalizing state with
  | nil =>
      obtain rfl := Option.some.inj hreached
      exact (h next hnext).1
  | cons first actions ih =>
      obtain ⟨second, hsecond, hrest⟩ := Option.bind_eq_some_iff.mp hreached
      exact ih (h second hsecond).2 hrest

theorem eachStep_true (state : State) (actions : List Action) :
    EachStep step (fun _ _ => True) state actions := by
  induction actions generalizing state with
  | nil => trivial
  | cons action actions ih => exact fun next _ => ⟨trivial, ih next⟩

/-- Steps out of states that are all alike meet what such a step does. -/
theorem Throughout.eachStep {state : State} {actions : List Action}
    (h : Throughout step P state actions)
    (hmeet : ∀ state action, P state → Q state action) :
    EachStep step Q state actions := by
  induction actions generalizing state with
  | nil => trivial
  | cons action actions ih =>
      exact fun next hnext =>
        ⟨hmeet state action h.1, ih (h.2 next hnext)⟩

theorem EachStep.mono {Q' : State → Action → Prop} {state : State}
    {actions : List Action} (himp : ∀ state action, Q state action →
      Q' state action)
    (h : EachStep step Q state actions) : EachStep step Q' state actions := by
  induction actions generalizing state with
  | nil => trivial
  | cons action actions ih =>
      intro next hnext
      obtain ⟨hmeet, hrest⟩ := h next hnext
      exact ⟨himp state action hmeet, ih hrest⟩

theorem Throughout.mono {P' : State → Prop} {state : State}
    {actions : List Action} (himp : ∀ state, P state → P' state)
    (h : Throughout step P state actions) :
    Throughout step P' state actions := by
  induction actions generalizing state with
  | nil => exact himp state h
  | cons action actions ih =>
      exact ⟨himp state h.1, fun next hnext => ih (h.2 next hnext)⟩

/-- In states where `P` makes them the same, two conditions on steps are met
by the same runs. -/
theorem eachStep_congr {Q' : State → Action → Prop} {state : State}
    {actions : List Action} (h : Throughout step P state actions)
    (hsame : ∀ state action, P state → (Q state action ↔ Q' state action)) :
    EachStep step Q state actions ↔ EachStep step Q' state actions := by
  induction actions generalizing state with
  | nil => exact Iff.rfl
  | cons action actions ih =>
      apply forall₂_congr
      intro next hnext
      rw [hsame state action h.1, ih (h.2 next hnext)]

/-- Where a step keeps `P` exactly if it meets `Q`, a run keeps `P` exactly
if each of its steps meets `Q`. -/
theorem throughout_iff_eachStep {Inv : State → Prop} {state : State}
    {actions : List Action} (hinv : Inv state) (hstart : P state)
    (hkeep : ∀ state action next, Inv state →
      step state action = some next → Inv next)
    (hstep : ∀ state action next, Inv state → P state →
      step state action = some next → (P next ↔ Q state action)) :
    Throughout step P state actions ↔ EachStep step Q state actions := by
  induction actions generalizing state with
  | nil => exact iff_of_true hstart trivial
  | cons action actions ih =>
      constructor
      · intro h next hnext
        have hrest := h.2 next hnext
        have hmeet := (hstep state action next hinv hstart hnext).mp hrest.start
        have hinv' := hkeep state action next hinv hnext
        exact ⟨hmeet, (ih hinv' hrest.start).mp hrest⟩
      · intro h
        refine ⟨hstart, ?_⟩
        intro next hnext
        obtain ⟨hmeet, hrest⟩ := h next hnext
        have hinv' := hkeep state action next hinv hnext
        have hnext' := (hstep state action next hinv hstart hnext).mpr hmeet
        exact (ih hinv' hnext').mpr hrest

end Segmentor.General
