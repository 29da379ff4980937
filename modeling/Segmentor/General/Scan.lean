import Mathlib.Tactic

/-!
# Scans

A scan reads items off a line, each starting where the one before it ended.
What is at a position does not depend on how the scan got there, so two scans
from one position agree as far as both go, and every scan of a bounded line
can be carried on until nothing can be read.
-/

namespace Segmentor.General

variable {β : Type} (item : ℕ → Option β) (size : β → ℕ)

/-- The items read from `start` up to `stop`, each with its position. -/
inductive Scan : ℕ → List (ℕ × β) → ℕ → Prop
  | nil (start : ℕ) : Scan start [] start
  | cons {start stop : ℕ} {b : β} {rest : List (ℕ × β)}
      (hitem : item start = some b) (hrest : Scan (start + size b) rest stop) :
      Scan start ((start, b) :: rest) stop

/-- No item is empty and none reaches past `bound`. -/
structure Advances (bound : ℕ) : Prop where
  pos : ∀ {position b}, item position = some b → 0 < size b
  le : ∀ {position b}, item position = some b → position + size b ≤ bound

namespace Scan

variable {item size} {start middle stop : ℕ} {l rest : List (ℕ × β)}

@[simp] theorem nil_iff : Scan item size start [] stop ↔ start = stop := by
  constructor
  · intro h
    cases h
    rfl
  · rintro rfl
    exact .nil start

theorem cons_iff {entry : ℕ × β} :
    Scan item size start (entry :: rest) stop ↔
      entry.1 = start ∧ item start = some entry.2 ∧
        Scan item size (start + size entry.2) rest stop := by
  constructor
  · intro h
    cases h with
    | cons hitem hrest => exact ⟨rfl, hitem, hrest⟩
  · obtain ⟨position, b⟩ := entry
    rintro ⟨rfl, hitem, hrest⟩
    exact .cons hitem hrest

theorem single {b : β} (hitem : item start = some b) :
    Scan item size start [(start, b)] (start + size b) :=
  .cons hitem (.nil _)

theorem append (h : Scan item size start l middle)
    (hrest : Scan item size middle rest stop) :
    Scan item size start (l ++ rest) stop := by
  induction h with
  | nil => exact hrest
  | cons hitem _ ih => exact .cons hitem (ih hrest)

theorem append_iff :
    Scan item size start (l ++ rest) stop ↔
      ∃ middle, Scan item size start l middle ∧
        Scan item size middle rest stop := by
  constructor
  · intro h
    induction l generalizing start with
    | nil => exact ⟨start, .nil start, h⟩
    | cons entry l ih =>
        obtain ⟨hfirst, hitem, hrest⟩ := cons_iff.mp h
        obtain ⟨middle, hl, hmiddle⟩ := ih hrest
        exact ⟨middle, cons_iff.mpr ⟨hfirst, hitem, hl⟩, hmiddle⟩
  · rintro ⟨middle, hl, hrest⟩
    exact hl.append hrest

theorem le (h : Scan item size start l stop) : start ≤ stop := by
  induction h with
  | nil => exact le_rfl
  | cons _ _ ih => exact (Nat.le_add_right _ _).trans ih

/-- A scan stays below the bound of its items. -/
theorem le_bound {bound : ℕ} (hadvances : Advances item size bound)
    (h : Scan item size start l stop) (hstart : start ≤ bound) :
    stop ≤ bound := by
  induction h with
  | nil => exact hstart
  | cons hitem _ ih => exact ih (hadvances.le hitem)

theorem mem_bounds (h : Scan item size start l stop) {entry : ℕ × β}
    (hentry : entry ∈ l) :
    item entry.1 = some entry.2 ∧ start ≤ entry.1 ∧
      entry.1 + size entry.2 ≤ stop := by
  induction h with
  | nil => simp at hentry
  | cons hitem hrest ih =>
      rcases List.mem_cons.mp hentry with rfl | hmem
      · exact ⟨hitem, le_rfl, hrest.le⟩
      · obtain ⟨hb, hstart, hstop⟩ := ih hmem
        exact ⟨hb, by omega, hstop⟩

/-- A scan follows any other from the same position as far as that goes. -/
theorem follows (hl : Scan item size start l stop)
    (hrest : Scan item size start rest middle) (hend : item stop = none) :
    ∃ more, l = rest ++ more ∧ Scan item size middle more stop := by
  induction hrest generalizing l with
  | nil => exact ⟨l, rfl, hl⟩
  | cons hitem _ ih =>
      cases hl with
      | nil => simp [hitem] at hend
      | cons hitem' hl' =>
          obtain rfl := Option.some.inj (hitem.symm.trans hitem')
          obtain ⟨more, rfl, hmore⟩ := ih hl'
          exact ⟨more, rfl, hmore⟩

/-- Two scans that both went as far as they could are the same. -/
theorem eq_of_ends (hl : Scan item size start l stop)
    (hrest : Scan item size start rest middle) (hstop : item stop = none)
    (hmiddle : item middle = none) : l = rest ∧ stop = middle := by
  obtain ⟨more, rfl, hmore⟩ := hl.follows hrest hstop
  cases hmore with
  | nil => exact ⟨List.append_nil rest, rfl⟩
  | cons hitem _ => simp [hitem] at hmiddle

/-- A scan of one line is one of any line with the same items there. -/
theorem congr {item' : ℕ → Option β} (h : Scan item size start l stop)
    (hitem : ∀ entry ∈ l, item entry.1 = some entry.2 →
      item' entry.1 = some entry.2) : Scan item' size start l stop := by
  induction h with
  | nil => exact .nil _
  | cons hfirst _ ih =>
      exact .cons (hitem _ List.mem_cons_self hfirst)
        (ih fun entry hentry => hitem entry (List.mem_cons_of_mem _ hentry))

theorem exists_to_end {bound : ℕ} (h : Advances item size bound)
    (start : ℕ) :
    ∃ l stop, Scan item size start l stop ∧ item stop = none := by
  induction hremaining : bound - start using Nat.strongRecOn generalizing start with
  | ind remaining ih =>
      cases hitem : item start with
      | none => exact ⟨[], start, .nil start, hitem⟩
      | some b =>
          have hpos := h.pos hitem
          have hle := h.le hitem
          obtain ⟨l, stop, hl, hend⟩ :=
            ih (bound - (start + size b)) (by omega) (start + size b) rfl
          exact ⟨(start, b) :: l, stop, .cons hitem hl, hend⟩

end Scan

end Segmentor.General
