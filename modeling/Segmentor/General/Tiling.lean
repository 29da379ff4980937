import Mathlib.Tactic

/-!
# Tilings of an interval

A list of half-open spans tiles an interval when the first starts where the
interval does, each starts where the one before it ends, and the last ends
where the interval does.  Every index of the interval is then in exactly one
span.  Spans may be empty; leaving those out changes nothing.
-/

namespace Segmentor.General

/-- The spans, in order, tile the interval from `first` up to `stop`. -/
def Tiles : ℕ → List (ℕ × ℕ) → ℕ → Prop
  | first, [], stop => first = stop
  | first, span :: spans, stop =>
      span.1 = first ∧ span.1 ≤ span.2 ∧ Tiles span.2 spans stop

instance Tiles.decide : ∀ first spans stop, Decidable (Tiles first spans stop)
  | first, [], stop => inferInstanceAs (Decidable (first = stop))
  | first, span :: spans, stop =>
      @instDecidableAnd (span.1 = first) _ inferInstance
        (@instDecidableAnd (span.1 ≤ span.2) _ inferInstance
          (Tiles.decide span.2 spans stop))

variable {first middle stop : ℕ} {spans : List (ℕ × ℕ)}

@[simp] theorem tiles_nil : Tiles first [] stop ↔ first = stop := Iff.rfl

@[simp] theorem tiles_cons {span : ℕ × ℕ} :
    Tiles first (span :: spans) stop ↔
      span.1 = first ∧ span.1 ≤ span.2 ∧ Tiles span.2 spans stop := Iff.rfl

theorem Tiles.le (h : Tiles first spans stop) : first ≤ stop := by
  induction spans generalizing first with
  | nil => exact le_of_eq h
  | cons span spans ih =>
      obtain ⟨rfl, hle, hrest⟩ := h
      exact hle.trans (ih hrest)

theorem Tiles.sum_eq (h : Tiles first spans stop) :
    (spans.map fun span => span.2 - span.1).sum = stop - first := by
  induction spans generalizing first with
  | nil =>
      obtain rfl : first = stop := h
      exact (Nat.sub_self first).symm
  | cons span spans ih =>
      obtain ⟨rfl, hle, hrest⟩ := tiles_cons.mp h
      have hstop := hrest.le
      rw [List.map_cons, List.sum_cons, ih hrest]
      omega

theorem Tiles.snd_of_getLast? {span : ℕ × ℕ} (h : Tiles first spans stop)
    (hspan : spans.getLast? = some span) : span.2 = stop := by
  induction spans generalizing first with
  | nil => simp at hspan
  | cons head spans ih =>
      obtain ⟨-, -, hrest⟩ := tiles_cons.mp h
      cases spans with
      | nil =>
          obtain rfl : head = span := by simpa using hspan
          exact tiles_nil.mp hrest
      | cons next spans =>
          rw [List.getLast?_cons_cons] at hspan
          exact ih hrest hspan

theorem Tiles.append {rest : List (ℕ × ℕ)} (h : Tiles first spans middle)
    (hrest : Tiles middle rest stop) : Tiles first (spans ++ rest) stop := by
  induction spans generalizing first with
  | nil =>
      obtain rfl : first = middle := h
      exact hrest
  | cons span spans ih =>
      obtain ⟨hfirst, hle, htail⟩ := h
      exact ⟨hfirst, hle, ih htail⟩

theorem Tiles.mem_bounds (h : Tiles first spans stop) {span : ℕ × ℕ}
    (hspan : span ∈ spans) :
    first ≤ span.1 ∧ span.1 ≤ span.2 ∧ span.2 ≤ stop := by
  induction spans generalizing first with
  | nil => simp at hspan
  | cons head spans ih =>
      obtain ⟨rfl, hle, htail⟩ := h
      rcases List.mem_cons.mp hspan with rfl | hmem
      · exact ⟨Nat.le_refl _, hle, htail.le⟩
      · obtain ⟨h₁, h₂, h₃⟩ := ih htail hmem
        exact ⟨hle.trans h₁, h₂, h₃⟩

/-- Leaving out spans that are empty keeps a tiling. -/
theorem Tiles.filter (h : Tiles first spans stop) {p : ℕ × ℕ → Bool}
    (hp : ∀ span ∈ spans, p span = false → span.1 = span.2) :
    Tiles first (spans.filter p) stop := by
  induction spans generalizing first with
  | nil => exact h
  | cons span spans ih =>
      obtain ⟨rfl, hle, htail⟩ := h
      have hrest := ih htail fun other hother =>
        hp other (List.mem_cons_of_mem _ hother)
      cases hspan : p span with
      | true =>
          rw [List.filter_cons_of_pos hspan]
          exact ⟨rfl, hle, hrest⟩
      | false =>
          rw [List.filter_cons_of_neg (by simp [hspan]),
            hp span (by simp) hspan]
          exact hrest

/-- Consecutive pairs of a list, as `windows(2)` gives them. -/
def pairs {α : Type*} (l : List α) : List (α × α) :=
  l.zip l.tail

@[simp] theorem pairs_cons_cons {α : Type*} (a b : α) (l : List α) :
    pairs (a :: b :: l) = (a, b) :: pairs (b :: l) := rfl

@[simp] theorem pairs_singleton {α : Type*} (a : α) : pairs [a] = [] := rfl

theorem mem_pairs_of_pairwise {α : Type*} {R : α → α → Prop} {l : List α}
    (h : l.Pairwise R) {pair : α × α} (hpair : pair ∈ pairs l) :
    R pair.1 pair.2 ∧ pair.1 ∈ l ∧ pair.2 ∈ l := by
  induction l with
  | nil => simp [pairs] at hpair
  | cons a l ih =>
      cases l with
      | nil => simp at hpair
      | cons b l =>
          obtain ⟨ha, htail⟩ := List.pairwise_cons.mp h
          rw [pairs_cons_cons] at hpair
          rcases List.mem_cons.mp hpair with rfl | hmem
          · exact ⟨ha b (by simp), by simp, by simp⟩
          · obtain ⟨hR, h₁, h₂⟩ := ih htail hmem
            exact ⟨hR, List.mem_cons_of_mem a h₁, List.mem_cons_of_mem a h₂⟩

theorem map_fst_pairs {α : Type*} (l : List α) :
    (pairs l).map Prod.fst = l.dropLast := by
  induction l with
  | nil => rfl
  | cons a l ih =>
      cases l with
      | nil => rfl
      | cons b l => rw [pairs_cons_cons, List.map_cons, ih, List.dropLast_cons_cons]

/-- The spans between the images of consecutive points tile the interval
between those of the first and the last. -/
theorem tiles_map_pairs {α : Type*} {f : α → ℕ} {a : α} {l : List α} {last : α}
    (hlast : (a :: l).getLast? = some last)
    (hmono : ∀ pair ∈ pairs (a :: l), f pair.1 ≤ f pair.2) :
    Tiles (f a) ((pairs (a :: l)).map fun pair => (f pair.1, f pair.2))
      (f last) := by
  induction l generalizing a with
  | nil =>
      obtain rfl : a = last := by simpa using hlast
      exact rfl
  | cons b l ih =>
      rw [pairs_cons_cons, List.map_cons, tiles_cons]
      refine ⟨rfl, hmono (a, b) (by simp), ih ?_ ?_⟩
      · simpa [List.getLast?_cons_cons] using hlast
      · intro pair hpair
        exact hmono pair (by simp [hpair])

/-! ## Lists that leave out a tail -/

/-- Where nothing follows the first element left out, filtering keeps every
other element in its place. -/
theorem getElem?_filterMap_of_pairwise {α β : Type*} {f : α → Option β}
    {l : List α} (h : l.Pairwise fun a b => f a = none → f b = none)
    (index : ℕ) : (l.filterMap f)[index]? = l[index]?.bind f := by
  induction l generalizing index with
  | nil => simp
  | cons a l ih =>
      obtain ⟨ha, htail⟩ := List.pairwise_cons.mp h
      cases hf : f a with
      | some b =>
          rw [List.filterMap_cons_some hf]
          cases index with
          | zero => simp [hf]
          | succ index => simpa using ih htail index
      | none =>
          have hnone : ∀ b ∈ a :: l, f b = none :=
            List.forall_mem_cons.mpr ⟨hf, fun b hb => ha b hb hf⟩
          rw [List.filterMap_eq_nil_iff.mpr hnone]
          cases hget : (a :: l)[index]? with
          | none => simp
          | some b => simp [hnone b (List.mem_of_getElem? hget)]

/-- A relation between neighbours and beyond is carried along a pointwise
one. -/
theorem pairwise_of_forall₂ {α β : Type*} {R : α → β → Prop}
    {S : α → α → Prop} {T : β → β → Prop} {l : List α} {m : List β}
    (h : List.Forall₂ R l m) (hl : l.Pairwise S)
    (hT : ∀ a b a' b', R a a' → R b b' → S a b → T a' b') : m.Pairwise T := by
  obtain ⟨hlength, hR⟩ := List.forall₂_iff_get.mp h
  rw [List.pairwise_iff_getElem] at hl ⊢
  intro i j hi hj hij
  exact hT _ _ _ _ (hR i (by omega) hi) (hR j (by omega) hj)
    (hl i j (by omega) (by omega) hij)

end Segmentor.General
