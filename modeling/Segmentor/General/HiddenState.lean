import Segmentor.General.Loops

/-!
# Hidden states

A program may keep a state that outlives its errors and that its results do
not depend on, such as what it has read ahead.  From every state that meets an
invariant it then acts like a program that keeps none, and so does a loop whose
rounds are such programs.
-/

namespace Segmentor.General

/-- A program that keeps a state, also where it fails. -/
def Hiding (σ φ α : Type) : Type :=
  σ → Except φ α × σ

namespace Hiding

variable {σ φ ε α β ρ : Type}

/-- What the program comes to from a state, and the state it leaves. -/
def run (m : Hiding σ φ α) (state : σ) : Except φ α × σ :=
  m state

instance : Monad (Hiding σ φ) where
  pure a := fun state => (.ok a, state)
  bind m f := fun state =>
    match m state with
    | (.ok a, next) => f a next
    | (.error failure, next) => (.error failure, next)

def get : Hiding σ φ σ :=
  fun state => (.ok state, state)

def set (next : σ) : Hiding σ φ Unit :=
  fun _ => (.ok (), next)

def ofExcept (x : Except φ α) : Hiding σ φ α :=
  fun state => (x, state)

@[simp] theorem run_get (state : σ) :
    (get : Hiding σ φ σ).run state = (.ok state, state) := rfl

@[simp] theorem run_ofExcept (x : Except φ α) (state : σ) :
    (ofExcept x : Hiding σ φ α).run state = (x, state) := rfl

/-- The outcome of the program as a value, for the program to go on with. -/
def attempt (m : Hiding σ φ α) : Hiding σ φ (Except φ α) :=
  fun state => (.ok (m state).1, (m state).2)

theorem run_bind_ok {m : Hiding σ φ α} {f : α → Hiding σ φ β}
    {state next : σ} {a : α} (h : m.run state = (.ok a, next)) :
    (m >>= f).run state = (f a).run next := by
  have hrun : (m >>= f).run state =
      match m.run state with
      | (.ok a, next) => (f a).run next
      | (.error failure, next) => (.error failure, next) := rfl
  rw [hrun, h]

/-- From every state that meets `P` the program comes to `x`, with its errors
as failures, and leaves a state that meets `P`. -/
def ActsLike (P : σ → Prop) (lift : ε → φ) (m : Hiding σ φ α)
    (x : Except ε α) : Prop :=
  ∀ state, P state → (m.run state).1 = x.mapError lift ∧ P (m.run state).2

section

variable {P : σ → Prop} {lift : ε → φ} {m : Hiding σ φ α} {x : Except ε α}
  {f : α → Hiding σ φ β} {g : α → Except ε β}

theorem actsLike_pure (a : α) :
    (pure a : Hiding σ φ α).ActsLike P lift (.ok a) :=
  fun _ hstate => ⟨rfl, hstate⟩

theorem actsLike_ofExcept (x : Except ε α) :
    (ofExcept (x.mapError lift) : Hiding σ φ α).ActsLike P lift x :=
  fun _ hstate => ⟨rfl, hstate⟩

/-- Programs act alike one after the other; the second is compared on the
values the first returns. -/
theorem ActsLike.bind (hm : m.ActsLike P lift x)
    (hf : ∀ a, x = .ok a → (f a).ActsLike P lift (g a)) :
    (m >>= f).ActsLike P lift (x >>= g) := by
  intro state hstate
  obtain ⟨houtcome, hkept⟩ := hm state hstate
  have hrun : (m >>= f).run state =
      match m.run state with
      | (.ok a, next) => (f a).run next
      | (.error failure, next) => (.error failure, next) := rfl
  rw [hrun]
  generalize m.run state = result at houtcome hkept
  obtain ⟨outcome, next⟩ := result
  cases x with
  | error error =>
      obtain rfl : outcome = .error (lift error) := houtcome
      exact ⟨rfl, hkept⟩
  | ok a =>
      obtain rfl : outcome = .ok a := houtcome
      exact hf a rfl next hkept

theorem ActsLike.bind_ok {a : α} {y : Except ε β}
    (hm : m.ActsLike P lift (.ok a)) (hf : (f a).ActsLike P lift y) :
    (m >>= f).ActsLike P lift y :=
  hm.bind (g := fun _ => y) fun b hb => by
    obtain rfl := Except.ok.inj hb
    exact hf

theorem ActsLike.ite {c : Prop} [Decidable c] {m' : Hiding σ φ α}
    {x' : Except ε α} (hm : c → m.ActsLike P lift x)
    (hm' : ¬c → m'.ActsLike P lift x') :
    (if c then m else m').ActsLike P lift (if c then x else x') := by
  split
  · exact hm ‹_›
  · exact hm' ‹_›

theorem ActsLike.attempt (hm : m.ActsLike P lift x) :
    m.attempt.ActsLike P lift (.ok (x.mapError lift)) :=
  fun state hstate =>
    ⟨congrArg Except.ok (hm state hstate).1, (hm state hstate).2⟩

end

/-! ## Loops -/

/-- The loop whose rounds are programs that keep a state. -/
def loop (m : α → Hiding σ φ (Loop.Round α ρ)) (state : α × σ) :
    Except φ (Loop.Round (α × σ) ρ) :=
  ((m state.1).run state.2).1.map
    (Loop.Round.map fun next => (next, ((m state.1).run state.2).2))

section

variable {P : σ → Prop} {Q : α → Prop} {lift : ε → φ}
  {m : α → Hiding σ φ (Loop.Round α ρ)} {x : α → Except ε (Loop.Round α ρ)}
  {f : α → Except ε ρ} {measure : α → ℕ} {state next : α × σ}

theorem next_of_loop (hm : (m state.1).ActsLike P lift (x state.1))
    (hstate : P state.2) (h : Loop.Next (loop m) state next) :
    Loop.Next x state.1 next.1 ∧ P next.2 := by
  obtain ⟨houtcome, hkept⟩ := hm state.2 hstate
  unfold Loop.Next loop at h
  rw [houtcome] at h
  cases hx : x state.1 with
  | error error =>
      rw [hx] at h
      cases h
  | ok outcome =>
      rw [hx] at h
      cases outcome with
      | done result => cases h
      | again after =>
          obtain rfl := Loop.Round.again.inj (Except.ok.inj h)
          exact ⟨hx, hkept⟩

/-- A loop descends like the one its rounds act like. -/
theorem descends_loop (hx : Loop.Descends x Q measure)
    (hm : ∀ a, Q a → (m a).ActsLike P lift (x a)) :
    Loop.Descends (loop m) (fun state => Q state.1 ∧ P state.2)
      (fun state => measure state.1) where
  keeps := by
    rintro state next ⟨ha, hstate⟩ hnext
    obtain ⟨hstep, hkept⟩ := next_of_loop (hm _ ha) hstate hnext
    exact ⟨hx.keeps ha hstep, hkept⟩
  lowers := by
    rintro state next ⟨ha, hstate⟩ hnext
    exact hx.lowers ha (next_of_loop (hm _ ha) hstate hnext).1

theorem loop_unfolds (hm : (m state.1).ActsLike P lift (x state.1))
    (hstate : P state.2)
    (hf : f state.1 = x state.1 >>= Loop.Round.resume f) :
    (f state.1).mapError lift = loop m state >>=
      Loop.Round.resume fun state => (f state.1).mapError lift := by
  unfold loop
  rw [(hm state.2 hstate).1, hf]
  cases x state.1 with
  | error error => rfl
  | ok outcome => cases outcome <;> rfl

variable (hx : Loop.Descends x Q measure)
  (hm : ∀ a, Q a → (m a).ActsLike P lift (x a))
  (hf : ∀ a, Q a → f a = x a >>= Loop.Round.resume f)

include hx hm hf

/-- The loop ends the way the one does that its rounds act like. -/
theorem ends_loop {a : α} {kept : σ} (ha : Q a) (hkept : P kept) :
    Loop.Ends (loop m) (a, kept) ((f a).mapError lift) :=
  @Loop.Descends.ends _ _ _ _ _ _ (a, kept) _ (descends_loop hx hm)
    (fun _ hstate => loop_unfolds (hm _ hstate.1) hstate.2 (hf _ hstate.1))
    ⟨ha, hkept⟩

theorem runFuel_loop {a : α} {kept : σ} (ha : Q a) (hkept : P kept)
    {fuel : ℕ} (hfuel : measure a < fuel) :
    Loop.runFuel (loop m) fuel (a, kept) = some ((f a).mapError lift) :=
  @Loop.Descends.runFuel_eq _ _ _ _ _ _ (a, kept) _ (descends_loop hx hm)
    (fun _ hstate => loop_unfolds (hm _ hstate.1) hstate.2 (hf _ hstate.1))
    ⟨ha, hkept⟩ _ hfuel

end

end Hiding

end Segmentor.General
