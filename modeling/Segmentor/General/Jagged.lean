import Segmentor.General.Stretch

/-!
# Rows kept in one list

Rows of different lengths are kept as one list of all their elements and the
positions where they start.  A row is what lies between its start and the next
one, so the end of the last row is kept as one more start.
-/

namespace Segmentor.General

variable {α : Type*}

/-- Where each row starts among all elements, the first at `first`. -/
def rowStarts : ℕ → List (List α) → List ℕ
  | _, [] => []
  | first, row :: rows => first :: rowStarts (first + row.length) rows

/-- The elements from the start at `index` up to the next one. -/
def jaggedRow (starts : List ℕ) (elements : List α) (index : ℕ) : List α :=
  match starts[index]?, starts[index + 1]? with
  | some first, some stop =>
      if stop ≤ elements.length then stretch elements first stop else []
  | _, _ => []

@[simp] theorem length_rowStarts (first : ℕ) (rows : List (List α)) :
    (rowStarts first rows).length = rows.length := by
  induction rows generalizing first with
  | nil => rfl
  | cons row rows ih => simp [rowStarts, ih]

theorem rowStarts_append (first : ℕ) (rows others : List (List α)) :
    rowStarts first (rows ++ others) =
      rowStarts first rows ++
        rowStarts (first + rows.flatten.length) others := by
  induction rows generalizing first with
  | nil => simp [rowStarts]
  | cons row rows ih => simp [rowStarts, ih, Nat.add_assoc]

theorem getElem?_rowStarts {first index : ℕ} {rows : List (List α)}
    (h : index ≤ rows.length) :
    (rowStarts first rows ++ [first + rows.flatten.length])[index]? =
      some (first + (rows.take index).flatten.length) := by
  induction rows generalizing first index with
  | nil =>
      obtain rfl : index = 0 := by simpa using h
      rfl
  | cons row rows ih =>
      cases index with
      | zero => rfl
      | succ index =>
          have hrest := @ih (first + row.length) index (by simpa using h)
          rw [rowStarts, List.cons_append, List.getElem?_cons_succ,
            List.take_succ_cons, List.flatten_cons, List.flatten_cons,
            List.length_append, List.length_append, ← Nat.add_assoc,
            ← Nat.add_assoc]
          exact hrest

/-- A row is where the rows before it end. -/
theorem stretch_flatten {index : ℕ} {rows : List (List α)} {row : List α}
    (h : rows[index]? = some row) :
    stretch rows.flatten (rows.take index).flatten.length
      ((rows.take index).flatten.length + row.length) = row := by
  obtain ⟨hindex, rfl⟩ := List.getElem?_eq_some_iff.mp h
  have hsplit : rows.flatten = (rows.take index).flatten ++
      (rows[index] ++ (rows.drop (index + 1)).flatten) := by
    rw [← List.flatten_cons, ← List.drop_eq_getElem_cons hindex,
      ← List.flatten_append, List.take_append_drop]
  rw [hsplit, stretch_eq_take_drop, List.drop_left, Nat.add_sub_cancel_left,
    List.take_left]

/-- Every row is found again. -/
theorem jaggedRow_rowStarts (rows : List (List α)) (index : ℕ) :
    jaggedRow (rowStarts 0 rows ++ [rows.flatten.length]) rows.flatten index =
      rows[index]?.getD [] := by
  unfold jaggedRow
  cases hrow : rows[index]? with
  | none =>
      have hlength := List.getElem?_eq_none_iff.mp hrow
      have hnone : (rowStarts 0 rows ++ [rows.flatten.length])[index + 1]? =
          none := by
        rw [List.getElem?_eq_none_iff, List.length_append, length_rowStarts]
        simpa using hlength
      rw [hnone]
      cases (rowStarts 0 rows ++ [rows.flatten.length])[index]? <;> rfl
  | some row =>
      obtain ⟨hindex, hget⟩ := List.getElem?_eq_some_iff.mp hrow
      have hfirst := @getElem?_rowStarts α 0 index rows hindex.le
      have hstop := @getElem?_rowStarts α 0 (index + 1) rows hindex
      have hend : (rows.take (index + 1)).flatten.length =
          (rows.take index).flatten.length + row.length := by
        rw [← hget, ← List.take_concat_get' _ _ hindex, List.flatten_append,
          List.length_append, List.flatten_singleton]
      have hbound : (rows.take (index + 1)).flatten.length ≤
          rows.flatten.length :=
        ((List.take_sublist _ _).flatten).length_le
      simp only [Nat.zero_add] at hfirst hstop
      rw [hfirst, hstop]
      dsimp only
      rw [if_pos hbound, hend, stretch_flatten hrow]
      rfl

theorem length_flatten_take {size index : ℕ} {rows : List (List α)}
    (h : ∀ row ∈ rows, row.length = size) (hindex : index ≤ rows.length) :
    (rows.take index).flatten.length = index * size := by
  rw [List.length_flatten, List.map_congr_left
    (g := fun _ => size) (fun row hrow => h row (List.mem_of_mem_take hrow)),
    List.map_const', List.sum_replicate, List.length_take,
    Nat.min_eq_left hindex, smul_eq_mul]

end Segmentor.General
