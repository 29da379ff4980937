import Mathlib.Algebra.BigOperators.Group.List.Basic
import Mathlib.Data.List.Nodup
import Mathlib.Data.List.Perm.Basic
import Mathlib.Tactic.Linarith

/-!
# Evicting the oldest

Items with an age and a weight.  An eviction takes the oldest of them, one by
one, until the others weigh no more than the room there is.
-/

namespace Segmentor.General

section Eviction

variable {α : Type*} (age weight : α → ℕ)

/-- `gone` are the oldest of the items, in order of their age, and no more
than have to go for `kept` to fit the room. -/
structure Evicted (room : ℕ) (items gone kept : List α) : Prop where
  perm : items.Perm (gone ++ kept)
  sorted : gone.Pairwise fun a b => age a < age b
  older : ∀ a ∈ gone, ∀ b ∈ kept, age a < age b
  fits : (kept.map weight).sum ≤ room
  shortest : ∀ taken rest, gone = taken ++ rest → rest ≠ [] →
    room < ((rest ++ kept).map weight).sum

variable {age weight} {room : ℕ} {items gone kept : List α} {oldest : α}

/-- Nothing goes while everything fits. -/
theorem Evicted.none (h : (items.map weight).sum ≤ room) :
    Evicted age weight room items [] items where
  perm := List.Perm.refl _
  sorted := List.Pairwise.nil
  older _ ha := absurd ha List.not_mem_nil
  fits := h
  shortest _ _ happend hrest :=
    absurd (List.append_eq_nil_iff.mp happend.symm).2 hrest

/-- The oldest goes where not everything fits, and then what goes of the
others. -/
theorem Evicted.cons {others : List α}
    (h : Evicted age weight room others gone kept)
    (hperm : items.Perm (oldest :: others))
    (holdest : ∀ a ∈ others, age oldest < age a)
    (hover : room < (items.map weight).sum) :
    Evicted age weight room items (oldest :: gone) kept where
  perm := hperm.trans (h.perm.cons oldest)
  sorted := by
    refine List.pairwise_cons.mpr ⟨fun a ha => holdest a ?_, h.sorted⟩
    exact h.perm.symm.subset (List.mem_append_left _ ha)
  older := by
    intro a ha b hb
    rcases List.mem_cons.mp ha with rfl | hmem
    · exact holdest b (h.perm.symm.subset (List.mem_append_right _ hb))
    · exact h.older a hmem b hb
  fits := h.fits
  shortest := by
    intro taken rest happend hrest
    cases taken with
    | nil =>
        obtain rfl : oldest :: gone = rest := happend
        have hsum := (hperm.trans (h.perm.cons oldest)).map weight
        rwa [hsum.sum_eq] at hover
    | cons a taken =>
        exact h.shortest taken rest (List.cons.inj happend).2 hrest

theorem Evicted.head_le
    (h : Evicted age weight room items (oldest :: gone) kept) :
    ∀ a ∈ items, age oldest ≤ age a := by
  intro a ha
  have hmem := h.perm.subset ha
  rcases List.mem_append.mp hmem with hgone | hkept
  · rcases List.mem_cons.mp hgone with rfl | hrest
    · exact Nat.le_refl _
    · exact (List.rel_of_pairwise_cons h.sorted hrest).le
  · exact (h.older oldest List.mem_cons_self a hkept).le

theorem Evicted.tail (h : Evicted age weight room items (oldest :: gone) kept) :
    Evicted age weight room (gone ++ kept) gone kept where
  perm := List.Perm.refl _
  sorted := h.sorted.of_cons
  older a ha := h.older a (List.mem_cons_of_mem _ ha)
  fits := h.fits
  shortest taken rest happend :=
    h.shortest (oldest :: taken) rest (congrArg _ happend)

theorem Evicted.of_perm {others : List α}
    (h : Evicted age weight room items gone kept) (hperm : others.Perm items) :
    Evicted age weight room others gone kept :=
  { h with perm := hperm.trans h.perm }

/-- What goes and what is kept is determined by the items. -/
theorem Evicted.unique {gone' kept' : List α}
    (hages : (items.map age).Nodup)
    (h : Evicted age weight room items gone kept)
    (hother : Evicted age weight room items gone' kept') :
    gone = gone' ∧ kept.Perm kept' := by
  induction gone generalizing items gone' with
  | nil =>
      have hsum := (h.perm.map weight).sum_eq
      have hfits := h.fits
      cases gone' with
      | nil => exact ⟨rfl, h.perm.symm.trans hother.perm⟩
      | cons a rest =>
          have hover := hother.shortest [] _ rfl (by simp)
          rw [← (hother.perm.map weight).sum_eq, hsum] at hover
          exact absurd hfits (Nat.not_le.mpr hover)
  | cons oldest gone ih =>
      cases gone' with
      | nil =>
          have hfits := hother.fits
          have hover := h.shortest [] _ rfl (by simp)
          rw [← (h.perm.map weight).sum_eq,
            (hother.perm.map weight).sum_eq] at hover
          exact absurd hfits (Nat.not_le.mpr hover)
      | cons oldest' gone' =>
          have hmem : oldest ∈ items := h.perm.symm.subset (by simp)
          have hmem' : oldest' ∈ items := hother.perm.symm.subset (by simp)
          obtain rfl : oldest = oldest' :=
            List.inj_on_of_nodup_map hages hmem hmem'
              (Nat.le_antisymm (h.head_le _ hmem') (hother.head_le _ hmem))
          have hrest : (gone ++ kept).Perm (gone' ++ kept') :=
            (List.perm_cons oldest).mp (h.perm.symm.trans hother.perm)
          have hnodup : ((gone ++ kept).map age).Nodup := by
            have hall := (h.perm.map age).nodup_iff.mp hages
            rw [List.cons_append, List.map_cons] at hall
            exact hall.of_cons
          obtain ⟨rfl, hkept⟩ :=
            ih hnodup h.tail (hother.tail.of_perm hrest)
          exact ⟨rfl, hkept⟩

end Eviction

end Segmentor.General
