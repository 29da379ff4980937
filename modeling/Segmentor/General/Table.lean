import Mathlib.Tactic

/-!
# Tables

Association lists: what is under a key, and what a table holds after an entry
was put into it or taken out.
-/

namespace Segmentor.General

namespace Table

universe u v

variable {Key : Type u} {Value : Type v} [DecidableEq Key]

/-- The first entry's value under a key. -/
def get (table : List (Key × Value)) (key : Key) : Option Value :=
  (table.find? fun entry => entry.1 == key).map Prod.snd

def erase (table : List (Key × Value)) (key : Key) : List (Key × Value) :=
  table.filter fun entry => entry.1 != key

def put (table : List (Key × Value)) (key : Key) (value : Value) :
    List (Key × Value) :=
  (key, value) :: erase table key

theorem mem_of_get {table : List (Key × Value)} {key : Key} {value : Value}
    (h : get table key = some value) : (key, value) ∈ table := by
  obtain ⟨entry, hfind, rfl⟩ := Option.map_eq_some_iff.mp h
  have hkey := List.find?_some hfind
  rw [beq_iff_eq] at hkey
  rw [← hkey]
  exact List.mem_of_find?_eq_some hfind

theorem get_eq_none_iff {table : List (Key × Value)} {key : Key} :
    get table key = none ↔ ∀ entry ∈ table, entry.1 ≠ key := by
  unfold get
  rw [Option.map_eq_none_iff, List.find?_eq_none]
  simp only [beq_iff_eq, ne_eq]

theorem mem_erase {table : List (Key × Value)} {key : Key}
    {entry : Key × Value} :
    entry ∈ erase table key ↔ entry ∈ table ∧ entry.1 ≠ key := by
  unfold erase
  rw [List.mem_filter, bne_iff_ne]

theorem mem_put {table : List (Key × Value)} {key : Key} {value : Value}
    {entry : Key × Value} :
    entry ∈ put table key value ↔
      entry = (key, value) ∨ entry ∈ table ∧ entry.1 ≠ key := by
  unfold put
  rw [List.mem_cons, mem_erase]

theorem get_of_mem {table : List (Key × Value)} {key : Key} {value : Value}
    (hkeys : (table.map Prod.fst).Nodup) (h : (key, value) ∈ table) :
    get table key = some value := by
  induction table with
  | nil => cases h
  | cons entry table ih =>
      rw [List.map_cons, List.nodup_cons] at hkeys
      unfold get
      rw [List.find?_cons]
      rcases List.mem_cons.mp h with rfl | hrest
      · rw [beq_self_eq_true]
        rfl
      · have hother : (entry.1 == key) = false := by
          rw [beq_eq_false_iff_ne]
          rintro rfl
          exact hkeys.1 (List.mem_map.mpr ⟨_, hrest, rfl⟩)
        rw [hother]
        exact ih hkeys.2 hrest

theorem nodup_put {table : List (Key × Value)}
    (hkeys : (table.map Prod.fst).Nodup) (key : Key) (value : Value) :
    ((put table key value).map Prod.fst).Nodup := by
  unfold put
  rw [List.map_cons, List.nodup_cons]
  constructor
  · intro hmem
    obtain ⟨entry, hentry, hkey⟩ := List.mem_map.mp hmem
    exact (mem_erase.mp hentry).2 hkey
  · exact hkeys.sublist (List.filter_sublist.map _)

theorem erase_of_get_eq_none {table : List (Key × Value)} {key : Key}
    (h : get table key = none) : erase table key = table := by
  unfold erase
  rw [List.filter_eq_self]
  exact fun entry hmem => bne_iff_ne.mpr (get_eq_none_iff.mp h entry hmem)

/-- Taking an entry out leaves the others. -/
theorem perm_cons_erase {table : List (Key × Value)} {key : Key}
    {value : Value} (hkeys : (table.map Prod.fst).Nodup)
    (h : (key, value) ∈ table) :
    table.Perm ((key, value) :: erase table key) := by
  induction table with
  | nil => cases h
  | cons entry table ih =>
      rw [List.map_cons, List.nodup_cons] at hkeys
      unfold erase
      rw [List.filter_cons]
      rcases List.mem_cons.mp h with rfl | hrest
      · have hothers : get table key = none := by
          rw [get_eq_none_iff]
          rintro other hmem rfl
          exact hkeys.1 (List.mem_map.mpr ⟨_, hmem, rfl⟩)
        rw [bne_self_eq_false, if_neg Bool.false_ne_true]
        have hsame : table.filter (fun entry => entry.1 != key) = table :=
          erase_of_get_eq_none hothers
        rw [hsame]
      · have hne : (entry.1 != key) = true := by
          rw [bne_iff_ne]
          rintro rfl
          exact hkeys.1 (List.mem_map.mpr ⟨_, hrest, rfl⟩)
        rw [if_pos hne]
        exact ((ih hkeys.2 hrest).cons entry).trans (List.Perm.swap _ _ _)

/-- Putting a value in place of another changes a sum by the difference. -/
theorem sum_put (size : Value → ℕ) {table : List (Key × Value)} {key : Key}
    {old new : Value} (hkeys : (table.map Prod.fst).Nodup)
    (h : get table key = some old) :
    ((put table key new).map fun entry => size entry.2).sum + size old =
      (table.map fun entry => size entry.2).sum + size new := by
  have hperm := perm_cons_erase hkeys (mem_of_get h)
  have hsum := (hperm.map fun entry => size entry.2).sum_eq
  rw [List.map_cons, List.sum_cons] at hsum
  unfold put
  rw [List.map_cons, List.sum_cons, hsum]
  dsimp only
  omega

end Table

/-- Replacing an entry changes a sum by what the entry adds to it. -/
theorem sum_map_set {α : Type*} (size : α → ℕ) {l : List α} {i : ℕ}
    {old new : α} (h : l[i]? = some old) :
    ((l.set i new).map size).sum + size old = (l.map size).sum + size new := by
  induction l generalizing i with
  | nil => cases h
  | cons a l ih =>
      cases i with
      | zero =>
          obtain rfl : a = old := by simpa using h
          simp only [List.set_cons_zero, List.map_cons, List.sum_cons]
          omega
      | succ i =>
          have := ih (i := i) (by simpa using h)
          simp only [List.set_cons_succ, List.map_cons, List.sum_cons]
          omega

end Segmentor.General
