import Mathlib.Tactic

/-!
# Texts up to what ends them

A reader that takes all up to a delimiter finds a text again that is free of
it.
-/

namespace Segmentor.General

variable {α : Type} {p : α → Bool} {a b stops : List α}

/-- What is read up to `stop`, the first element that `p` refuses. -/
theorem takeWhile_append_stop {stop : α} {tail : List α}
    (ha : ∀ d ∈ a, p d = true) (hstop : p stop = false) :
    (a ++ stop :: tail).takeWhile p = a ∧
      (a ++ stop :: tail).dropWhile p = stop :: tail := by
  rw [List.takeWhile_append_of_pos ha, List.dropWhile_append_of_pos ha,
    List.takeWhile_cons_of_neg (by simp [hstop]),
    List.dropWhile_cons_of_neg (by simp [hstop]), List.append_nil]
  exact ⟨rfl, rfl⟩

theorem forall_bne_of_not_mem [BEq α] [LawfulBEq α] {stop : α}
    (h : stop ∉ a) : ∀ d ∈ a, (d != stop) = true := by
  intro d hd
  simp only [bne_iff_ne]
  rintro rfl
  exact h hd

/-- No element of the text is among `stops`. -/
def Free (stops a : List α) : Prop :=
  ∀ c ∈ a, c ∉ stops

instance [DecidableEq α] (stops a : List α) : Decidable (Free stops a) :=
  inferInstanceAs (Decidable (∀ c ∈ a, c ∉ stops))

theorem Free.append (ha : Free stops a) (hb : Free stops b) :
    Free stops (a ++ b) := by
  intro c hc
  rcases List.mem_append.mp hc with hc | hc
  · exact ha c hc
  · exact hb c hc

theorem Free.not_mem {c : α} (h : Free stops a) (hc : c ∈ stops) : c ∉ a :=
  fun hmem => h c hmem hc

theorem Free.mono {others : List α} (h : Free stops a)
    (hsubset : others ⊆ stops) : Free others a :=
  fun c hc hmem => h c hc (hsubset hmem)

end Segmentor.General
