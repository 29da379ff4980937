import Mathlib.Tactic

/-!
# Fallible computations

Rules for programs that return `Except`: taking a successful run apart, the
invariant of a fold that may stop early, and the agreement of two runs.  Two
computations agree along a relation when both stop with the same error, or
both finish with related results; agreement is preserved by sequencing and by
folding, so two loops over the same list are compared one step at a time.
-/

namespace Segmentor.General

universe u v

variable {ε : Type u} {α β σ τ : Type v}

/-- The value of an option, or `error` where there is none. -/
def okOr (o : Option α) (error : ε) : Except ε α :=
  match o with
  | some a => .ok a
  | none => .error error

@[simp] theorem okOr_some (a : α) (error : ε) :
    okOr (some a) error = .ok a := rfl

@[simp] theorem okOr_none (error : ε) :
    okOr (none : Option α) error = .error error := rfl

theorem okOr_eq_ok_iff {o : Option α} {error : ε} {a : α} :
    okOr o error = .ok a ↔ o = some a := by
  cases o <;> simp

@[simp] theorem ok_bind (a : α) (f : α → Except ε β) :
    ((.ok a : Except ε α) >>= f) = f a := rfl

@[simp] theorem error_bind (error : ε) (f : α → Except ε β) :
    ((.error error : Except ε α) >>= f) = .error error := rfl

theorem bind_eq_ok_iff {x : Except ε α} {f : α → Except ε β} {b : β} :
    (x >>= f) = .ok b ↔ ∃ a, x = .ok a ∧ f a = .ok b := by
  cases x <;> simp

theorem bind_eq_error_iff {x : Except ε α} {f : α → Except ε β} {e : ε} :
    (x >>= f) = .error e ↔
      x = .error e ∨ ∃ a, x = .ok a ∧ f a = .error e := by
  cases x <;> simp

/-! Rules for ruling out one error. -/

theorem okOr_ne_error {o : Option α} {error e : ε} (herror : error ≠ e) :
    okOr o error ≠ .error e := by
  cases o with
  | none => simpa using herror
  | some a => simp

theorem bind_ne_error {x : Except ε α} {f : α → Except ε β} {e : ε}
    (hx : x ≠ .error e) (hf : ∀ a, x = .ok a → f a ≠ .error e) :
    (x >>= f) ≠ .error e := by
  intro h
  rcases bind_eq_error_iff.mp h with h | ⟨a, ha, h⟩
  · exact hx h
  · exact hf a ha h

theorem exists_ok_of_isOk {x : Except ε α} (h : x.isOk = true) :
    ∃ a, x = .ok a := by
  cases x with
  | error e => simp [Except.isOk, Except.toBool] at h
  | ok a => exact ⟨a, rfl⟩

/-! ## Folds that may stop -/

/-- A property every successful step preserves holds after the whole fold.
It may mention what is left of the list. -/
theorem foldlM_invariant {f : σ → α → Except ε σ} {I : List α → σ → Prop}
    (hstep : ∀ a rest s s', I (a :: rest) s → f s a = .ok s' → I rest s')
    {l : List α} {s s' : σ} (hs : I l s) (hrun : l.foldlM f s = .ok s') :
    I [] s' := by
  induction l generalizing s with
  | nil =>
      obtain rfl : s = s' := by simpa [pure, Except.pure] using hrun
      exact hs
  | cons a rest ih =>
      rw [List.foldlM_cons, bind_eq_ok_iff] at hrun
      obtain ⟨s₁, hfirst, hrest⟩ := hrun
      exact ih (hstep a rest s s₁ hs hfirst) hrest

theorem foldlM_ne_error {f : σ → α → Except ε σ} {e : ε}
    (hstep : ∀ s a, f s a ≠ .error e) (l : List α) (s : σ) :
    l.foldlM f s ≠ .error e := by
  induction l generalizing s with
  | nil => simp [pure, Except.pure]
  | cons a l ih =>
      rw [List.foldlM_cons]
      exact bind_ne_error (hstep s a) fun next _ => ih next

theorem forM_eq_ok_iff {f : α → Except ε PUnit} {l : List α} :
    l.forM f = .ok ⟨⟩ ↔ ∀ a ∈ l, f a = .ok ⟨⟩ := by
  induction l with
  | nil => simp [pure, Except.pure]
  | cons a l ih =>
      rw [List.forM_eq_forM] at ih ⊢
      rw [List.forM_cons, bind_eq_ok_iff, List.forall_mem_cons]
      constructor
      · rintro ⟨_, ha, hrest⟩
        exact ⟨ha, ih.mp hrest⟩
      · rintro ⟨ha, hrest⟩
        exact ⟨_, ha, ih.mpr hrest⟩

/-- A successful map computes each result from its own element. -/
theorem mapM_forall₂ {f : α → Except ε β} {l : List α} {r : List β}
    (hrun : l.mapM f = .ok r) : List.Forall₂ (fun a b => f a = .ok b) l r := by
  induction l generalizing r with
  | nil =>
      obtain rfl : [] = r := by simpa [pure, Except.pure] using hrun
      exact .nil
  | cons a l ih =>
      rw [List.mapM_cons, bind_eq_ok_iff] at hrun
      obtain ⟨b, hb, hrest⟩ := hrun
      rw [bind_eq_ok_iff] at hrest
      obtain ⟨bs, hbs, hr⟩ := hrest
      obtain rfl : b :: bs = r := by simpa [pure, Except.pure] using hr
      exact .cons hb (ih hbs)

theorem mapM_of_forall₂ {f : α → Except ε β} {l : List α} {r : List β}
    (h : List.Forall₂ (fun a b => f a = .ok b) l r) : l.mapM f = .ok r := by
  induction h with
  | nil => rfl
  | cons hhead _ ih =>
      rw [List.mapM_cons, hhead, ih]
      rfl

theorem exists_mem_of_forall₂ {R : α → β → Prop} {l : List α} {r : List β}
    (h : List.Forall₂ R l r) {a : α} (ha : a ∈ l) : ∃ b ∈ r, R a b := by
  induction h with
  | nil => simp at ha
  | cons hhead _ ih =>
      rcases List.mem_cons.mp ha with rfl | hmem
      · exact ⟨_, List.mem_cons_self, hhead⟩
      · obtain ⟨b, hb, hrel⟩ := ih hmem
        exact ⟨b, List.mem_cons_of_mem _ hb, hrel⟩

theorem forall₂_comp {γ : Type*} {R : α → β → Prop} {S : β → γ → Prop}
    {T : α → γ → Prop} {l : List α} {r : List β} {q : List γ}
    (h : List.Forall₂ R l r) (hrest : List.Forall₂ S r q)
    (hcomp : ∀ a b c, R a b → S b c → T a c) : List.Forall₂ T l q := by
  induction h generalizing q with
  | nil =>
      cases hrest
      exact .nil
  | cons hhead _ ih =>
      cases hrest with
      | cons hnext hrest => exact .cons (hcomp _ _ _ hhead hnext) (ih hrest)

/-- Where related elements decide a relation by the first of them alone. -/
theorem forall₂_iff_forall_mem {R T : α → β → Prop} {P : α → Prop} {l : List α}
    {r : List β} (h : List.Forall₂ R l r)
    (hiff : ∀ a b, R a b → (T a b ↔ P a)) :
    List.Forall₂ T l r ↔ ∀ a ∈ l, P a := by
  induction h with
  | nil => simp
  | cons hhead _ ih =>
      rw [List.forall₂_cons, List.forall_mem_cons, hiff _ _ hhead, ih]

theorem exists_forall₂_iff {R : α → β → Prop} {l : List α} :
    (∃ r, List.Forall₂ R l r) ↔ ∀ a ∈ l, ∃ b, R a b := by
  constructor
  · rintro ⟨r, h⟩ a ha
    obtain ⟨b, -, hb⟩ := exists_mem_of_forall₂ h ha
    exact ⟨b, hb⟩
  · intro h
    induction l with
    | nil => exact ⟨[], .nil⟩
    | cons a l ih =>
        obtain ⟨⟨b, hb⟩, hrest⟩ := List.forall_mem_cons.mp h
        obtain ⟨r, hr⟩ := ih hrest
        exact ⟨b :: r, .cons hb hr⟩

theorem exists_forall₂_both {γ : Type*} {Q : α → γ → Prop}
    {S : β → γ → Prop} {l : List α} {r : List β}
    (h : List.Forall₂ (fun a b => ∃ c, Q a c ∧ S b c) l r) :
    ∃ cs, List.Forall₂ Q l cs ∧ List.Forall₂ S r cs := by
  induction h with
  | nil => exact ⟨[], .nil, .nil⟩
  | cons hfirst _ ih =>
      obtain ⟨c, hq, hs⟩ := hfirst
      obtain ⟨cs, hqs, hss⟩ := ih
      exact ⟨c :: cs, .cons hq hqs, .cons hs hss⟩

theorem forall₂_zip_left {γ : Type*} {R : α → β → Prop} {l : List α}
    {r : List β} {others : List γ} (h : List.Forall₂ R l r)
    (hlength : others.length = r.length) :
    List.Forall₂ (fun a (pair : β × γ) => R a pair.1) l (r.zip others) := by
  induction h generalizing others with
  | nil => exact .nil
  | cons hhead _ ih =>
      cases others with
      | nil => cases hlength
      | cons other others => exact .cons hhead (ih (Nat.succ.inj hlength))

theorem forall₂_zipWith_right {γ : Type*} {R : α → β → Prop}
    {S : α → γ → Prop} {f : α → β → γ} {l : List α} {r : List β}
    (h : List.Forall₂ R l r) (hstep : ∀ a b, R a b → S a (f a b)) :
    List.Forall₂ S l (List.zipWith f l r) := by
  induction h with
  | nil => exact .nil
  | cons hhead _ ih => exact .cons (hstep _ _ hhead) ih

theorem exists_ok_of_mem_mapM {f : α → Except ε β} {l : List α} {r : List β}
    {a : α} (hrun : l.mapM f = .ok r) (ha : a ∈ l) : ∃ b ∈ r, f a = .ok b :=
  exists_mem_of_forall₂ (mapM_forall₂ hrun) ha

theorem exists_of_mem_mapM {f : α → Except ε β} {l : List α} {r : List β}
    {b : β} (hrun : l.mapM f = .ok r) (hb : b ∈ r) : ∃ a ∈ l, f a = .ok b :=
  exists_mem_of_forall₂ (mapM_forall₂ hrun).flip hb

theorem exists_of_mem_optionMapM {f : α → Except ε β} {o : Option α}
    {r : Option β} (h : o.mapM f = .ok r) : ∀ b ∈ r, ∃ a ∈ o, f a = .ok b := by
  intro b hb
  cases o with
  | none =>
      obtain rfl := Except.ok.inj h
      cases hb
  | some a =>
      change (do
        let b ← f a
        .ok (some b)) = .ok r at h
      obtain ⟨found, hfound, h⟩ := bind_eq_ok_iff.mp h
      obtain rfl := Except.ok.inj h
      obtain rfl := Option.some.inj hb
      exact ⟨a, rfl, hfound⟩

theorem mapM_eq_ok {f : α → Except ε β} {g : α → β} {l : List α}
    (h : ∀ a ∈ l, f a = .ok (g a)) : l.mapM f = .ok (l.map g) := by
  induction l with
  | nil => rfl
  | cons a l ih =>
      obtain ⟨ha, hl⟩ := List.forall_mem_cons.mp h
      rw [List.mapM_cons, ha, ih hl]
      rfl

/-- A successful fold whose steps each compute a result of their own element
comes with a successful map; the fold's states are related along it. -/
theorem exists_mapM_of_foldlM {f : σ → α → Except ε σ} {g : α → Except ε β}
    {R : σ → List β → σ → Prop} (hnil : ∀ s, R s [] s)
    (hcons : ∀ s a next, f s a = .ok next → ∃ b, g a = .ok b ∧
      ∀ bs final, R next bs final → R s (b :: bs) final)
    {l : List α} {s final : σ} (h : l.foldlM f s = .ok final) :
    ∃ bs, l.mapM g = .ok bs ∧ R s bs final := by
  induction l generalizing s with
  | nil =>
      obtain rfl : s = final := by simpa [pure, Except.pure] using h
      exact ⟨[], rfl, hnil s⟩
  | cons a l ih =>
      rw [List.foldlM_cons] at h
      obtain ⟨next, hnext, hrest⟩ := bind_eq_ok_iff.mp h
      obtain ⟨b, hb, hstep⟩ := hcons s a next hnext
      obtain ⟨bs, hbs, hfinal⟩ := ih hrest
      refine ⟨b :: bs, ?_, hstep bs final hfinal⟩
      rw [List.mapM_cons, hb, hbs]
      rfl

theorem mapM_eq_some_iff {f : α → Option β} {l : List α} {r : List β} :
    l.mapM f = some r ↔ List.Forall₂ (fun a b => f a = some b) l r := by
  induction l generalizing r with
  | nil =>
      rw [List.mapM_nil, List.forall₂_nil_left_iff]
      exact ⟨fun h => (Option.some.inj h).symm, fun h => h ▸ rfl⟩
  | cons a l ih =>
      simp only [List.mapM_cons, Option.bind_eq_bind, Option.bind_eq_some_iff,
        Option.pure_def, Option.some.injEq, List.forall₂_cons_left_iff, ih]
      constructor
      · rintro ⟨b, hb, bs, hbs, rfl⟩
        exact ⟨b, bs, hb, hbs, rfl⟩
      · rintro ⟨b, bs, hb, hbs, rfl⟩
        exact ⟨b, hb, bs, hbs, rfl⟩

theorem mapM_length {f : α → Option β} {l : List α} {r : List β}
    (h : l.mapM f = some r) : r.length = l.length :=
  (mapM_eq_some_iff.mp h).length_eq.symm

/-! ## Agreement of two computations -/

/-- Both computations stop with the same error, or both finish and their
results are related. -/
inductive Agree (R : α → β → Prop) : Except ε α → Except ε β → Prop
  | error (e : ε) : Agree R (.error e) (.error e)
  | ok {a : α} {b : β} (h : R a b) : Agree R (.ok a) (.ok b)

theorem Agree.bind {R : α → β → Prop} {S : σ → τ → Prop}
    {x : Except ε α} {y : Except ε β}
    {f : α → Except ε σ} {g : β → Except ε τ}
    (hxy : Agree R x y) (hfg : ∀ a b, R a b → Agree S (f a) (g b)) :
    Agree S (x >>= f) (y >>= g) := by
  cases hxy with
  | error e => exact .error e
  | ok h => exact hfg _ _ h

theorem Agree.mono {R S : α → β → Prop} {x : Except ε α} {y : Except ε β}
    (hxy : Agree R x y) (hRS : ∀ a b, R a b → S a b) : Agree S x y := by
  cases hxy with
  | error e => exact .error e
  | ok h => exact .ok (hRS _ _ h)

theorem Agree.foldlM {R : σ → τ → Prop}
    {f : σ → α → Except ε σ} {g : τ → α → Except ε τ} {l : List α}
    (hstep : ∀ a ∈ l, ∀ s t, R s t → Agree R (f s a) (g t a))
    {s : σ} {t : τ} (hst : R s t) :
    Agree R (l.foldlM f s) (l.foldlM g t) := by
  induction l generalizing s t with
  | nil => exact .ok hst
  | cons a l ih =>
      rw [List.foldlM_cons, List.foldlM_cons]
      refine (hstep a (by simp) s t hst).bind fun _ _ h => ?_
      exact ih (fun b hb => hstep b (List.mem_cons_of_mem a hb)) h

end Segmentor.General
