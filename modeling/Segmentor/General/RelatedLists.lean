import Mathlib.Data.List.Forall2
import Mathlib.Data.List.Nodup

/-!
# Lists related element by element

What is read of one of two lists whose elements are related in order can be
read of the other: an element by its place, the first one that passes a test, a
value of each.
-/

namespace Segmentor.General

variable {α β γ : Type*} {R : α → β → Prop} {as : List α} {bs : List β}

theorem exists_getElem?_of_forall₂ (h : List.Forall₂ R as bs) {i : ℕ} {a : α}
    (ha : as[i]? = some a) : ∃ b, bs[i]? = some b ∧ R a b := by
  obtain ⟨hi, rfl⟩ := List.getElem?_eq_some_iff.mp ha
  have hget := List.forall₂_iff_get.mp h
  have hj : i < bs.length := hget.1 ▸ hi
  exact ⟨bs[i], List.getElem?_eq_getElem hj, hget.2 i hi hj⟩

theorem forall₂_head? (h : List.Forall₂ R as bs) :
    List.Forall₂ R as.head?.toList bs.head?.toList := by
  cases h with
  | nil => exact .nil
  | cons hfirst _ => exact .cons hfirst .nil

theorem exists_find?_of_forall₂ {p : α → Bool} {q : β → Bool}
    (h : List.Forall₂ R as bs) (hpq : ∀ a b, R a b → p a = q b) {a : α}
    (ha : as.find? p = some a) : ∃ b, bs.find? q = some b ∧ R a b := by
  induction h with
  | nil => cases ha
  | @cons first other as bs hfirst _ ih =>
      rw [List.find?_cons] at ha ⊢
      rw [← hpq first other hfirst]
      cases hp : p first with
      | true =>
          rw [hp] at ha
          obtain rfl := Option.some.inj ha
          exact ⟨other, rfl, hfirst⟩
      | false =>
          rw [hp] at ha
          exact ih ha

theorem map_eq_of_forall₂ {f : α → γ} {g : β → γ} (h : List.Forall₂ R as bs)
    (hfg : ∀ a ∈ as, ∀ b, R a b → f a = g b) : as.map f = bs.map g := by
  induction h with
  | nil => rfl
  | cons hfirst _ ih =>
      rw [List.map_cons, List.map_cons, hfg _ List.mem_cons_self _ hfirst,
        ih fun a ha => hfg a (List.mem_cons_of_mem _ ha)]

/-- Where no two elements have the same name, each is found by its own. -/
theorem find?_of_nodup [BEq β] [LawfulBEq β] {f : α → β}
    (h : (as.map f).Nodup) {a : α} (ha : a ∈ as) :
    (as.find? fun other => f other == f a) = some a := by
  induction as with
  | nil => cases ha
  | cons first rest ih =>
      rw [List.map_cons, List.nodup_cons] at h
      rcases List.mem_cons.mp ha with rfl | hrest
      · rw [List.find?_cons_of_pos]
        exact beq_self_eq_true _
      · rw [List.find?_cons_of_neg]
        · exact ih h.2 hrest
        · intro hsame
          rw [beq_iff_eq] at hsame
          exact h.1 (hsame ▸ List.mem_map_of_mem hrest)

end Segmentor.General
