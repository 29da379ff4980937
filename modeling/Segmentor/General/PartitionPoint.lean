import Mathlib.Tactic

/-!
# Partition points and run tables

A partition point is the length of the prefix of a list on which a predicate
holds.  On a list whose predicate never comes back once it has failed, it is
the boundary a binary search finds.

A run table is a list of rows in which each row describes every position from
its own start up to the start of the next row.  Looking a position up is one
partition point; walking the positions in order only ever moves a cursor
forwards.  Both views are developed over an arbitrary type of rows.
-/

namespace Segmentor.General

variable {α : Type*}

/-- The length of the longest prefix on which `p` holds. -/
def partitionPoint (p : α → Bool) (l : List α) : ℕ :=
  (l.takeWhile p).length

@[simp] theorem partitionPoint_nil (p : α → Bool) :
    partitionPoint p [] = 0 := rfl

theorem partitionPoint_cons (p : α → Bool) (a : α) (l : List α) :
    partitionPoint p (a :: l) =
      if p a then partitionPoint p l + 1 else 0 := by
  unfold partitionPoint
  rw [List.takeWhile_cons]
  split <;> simp

theorem partitionPoint_le_length (p : α → Bool) (l : List α) :
    partitionPoint p l ≤ l.length := by
  induction l with
  | nil => simp
  | cons a l ih =>
      rw [partitionPoint_cons, List.length_cons]
      split <;> omega

theorem holds_of_lt_partitionPoint {p : α → Bool} {l : List α} {k : ℕ}
    (hk : k < partitionPoint p l) :
    ∃ a, l[k]? = some a ∧ p a = true := by
  induction l generalizing k with
  | nil => simp at hk
  | cons a l ih =>
      rw [partitionPoint_cons] at hk
      by_cases ha : p a = true
      · rw [if_pos ha] at hk
        cases k with
        | zero => exact ⟨a, by simp, ha⟩
        | succ k => simpa using ih (by omega)
      · rw [if_neg ha] at hk
        omega

theorem fails_at_partitionPoint {p : α → Bool} {l : List α} {a : α}
    (ha : l[partitionPoint p l]? = some a) : p a = false := by
  induction l with
  | nil => simp at ha
  | cons b l ih =>
      rw [partitionPoint_cons] at ha
      by_cases hb : p b = true
      · rw [if_pos hb] at ha
        exact ih (by simpa using ha)
      · rw [if_neg hb] at ha
        obtain rfl : b = a := by simpa using ha
        simpa using hb

/-- The prefix is the positions up to which the predicate never fails. -/
theorem lt_partitionPoint_iff_forall {p : α → Bool} {l : List α} {k : ℕ}
    (hk : k < l.length) :
    k < partitionPoint p l ↔
      ∀ j ≤ k, ∀ a, l[j]? = some a → p a = true := by
  constructor
  · intro hlt j hj a ha
    obtain ⟨b, hb, hholds⟩ := holds_of_lt_partitionPoint (hj.trans_lt hlt)
    obtain rfl := Option.some.inj (ha.symm.trans hb)
    exact hholds
  · intro hall
    by_contra hge
    have hsome := List.getElem?_eq_getElem
      (show partitionPoint p l < l.length by omega)
    have hfails := fails_at_partitionPoint hsome
    rw [hall _ (by omega) _ hsome] at hfails
    cases hfails

/-- A predicate that, along a list, never holds again once it has failed. -/
def Descending (p : α → Bool) (l : List α) : Prop :=
  l.Pairwise fun a b => p b = true → p a = true

theorem Descending.tail {p : α → Bool} {a : α} {l : List α}
    (h : Descending p (a :: l)) : Descending p l :=
  (List.pairwise_cons.mp h).2

theorem Descending.lt_partitionPoint_iff {p : α → Bool} {l : List α}
    (h : Descending p l) {k : ℕ} {a : α} (ha : l[k]? = some a) :
    k < partitionPoint p l ↔ p a = true := by
  constructor
  · intro hk
    obtain ⟨b, hb, hpb⟩ := holds_of_lt_partitionPoint hk
    rw [ha] at hb
    obtain rfl : a = b := by simpa using hb
    exact hpb
  · intro hpa
    induction l generalizing k with
    | nil => simp at ha
    | cons b l ih =>
        rw [partitionPoint_cons]
        cases k with
        | zero =>
            obtain rfl : b = a := by simpa using ha
            rw [if_pos hpa]
            omega
        | succ k =>
            have hmem : a ∈ l := List.mem_of_getElem? (by simpa using ha)
            have hb : p b = true := (List.pairwise_cons.mp h).1 a hmem hpa
            rw [if_pos hb]
            have := ih h.tail (by simpa using ha)
            omega

/-- Equality with a partition point from its two defining properties. -/
theorem partitionPoint_eq_of {p : α → Bool} {l : List α} {n : ℕ}
    (hn : n ≤ l.length)
    (hbefore : ∀ k a, k < n → l[k]? = some a → p a = true)
    (hat : ∀ a, l[n]? = some a → p a = false) :
    partitionPoint p l = n := by
  induction l generalizing n with
  | nil =>
      have : n = 0 := by simpa using hn
      simp [this]
  | cons a l ih =>
      rw [partitionPoint_cons]
      cases n with
      | zero =>
          have := hat a (by simp)
          simp [this]
      | succ n =>
          have hpa : p a = true := hbefore 0 a (by omega) (by simp)
          rw [if_pos hpa, ih (by simpa using hn)]
          · intro k b hk hb
            exact hbefore (k + 1) b (by omega) (by simpa using hb)
          · intro b hb
            exact hat b (by simpa using hb)

theorem partitionPoint_append_of_fails {p : α → Bool} {l : List α} {a : α}
    (ha : p a = false) : partitionPoint p (l ++ [a]) = partitionPoint p l := by
  induction l with
  | nil => simp [partitionPoint_cons, ha]
  | cons b l ih => rw [List.cons_append, partitionPoint_cons,
      partitionPoint_cons, ih]

/-! ## Sets kept as ascending lists -/

/-- The members below a bound are a prefix, and the bound is next if it is a
member. -/
theorem getElem?_partitionPoint_eq_iff {l : List ℕ}
    (h : l.Pairwise (· < ·)) {bound : ℕ} :
    l[partitionPoint (fun a => decide (a < bound)) l]? = some bound ↔
      bound ∈ l := by
  induction l with
  | nil => simp
  | cons a l ih =>
      obtain ⟨ha, htail⟩ := List.pairwise_cons.mp h
      rw [partitionPoint_cons]
      by_cases hlt : a < bound
      · rw [if_pos (by simpa using hlt), List.getElem?_cons_succ, ih htail,
          List.mem_cons]
        exact ⟨.inr, fun hmem => hmem.resolve_left (by omega)⟩
      · rw [if_neg (by simpa using hlt), List.getElem?_cons_zero,
          List.mem_cons, Option.some_inj]
        refine ⟨fun hab => .inl hab.symm, fun hmem => ?_⟩
        rcases hmem with rfl | hmem
        · rfl
        · have := ha bound hmem
          omega

theorem partitionPoint_lt_succ {l : List ℕ} (h : l.Pairwise (· < ·))
    (bound : ℕ) :
    partitionPoint (fun a => decide (a < bound + 1)) l =
      partitionPoint (fun a => decide (a < bound)) l +
        if bound ∈ l then 1 else 0 := by
  induction l with
  | nil => simp
  | cons a l ih =>
      obtain ⟨ha, htail⟩ := List.pairwise_cons.mp h
      rw [partitionPoint_cons, partitionPoint_cons, ih htail]
      rcases Nat.lt_trichotomy a bound with hlt | rfl | hgt
      · have hne : bound ≠ a := by omega
        simp [hlt, Nat.lt_succ_of_lt hlt, hne]
        omega
      · have hnone : partitionPoint (fun b => decide (b < a)) l = 0 := by
          refine partitionPoint_eq_of (by omega) (by omega) ?_
          intro b hb
          have := ha b (List.mem_of_getElem? hb)
          simp
          omega
        have hnot : a ∉ l := fun hmem => by
          have := ha a hmem
          omega
        simp [hnone, hnot]
      · have hnot : bound ∉ l := fun hmem => by
          have := ha bound hmem
          omega
        have hne : bound ≠ a := by omega
        have hge : ¬ a < bound + 1 := by omega
        have hge' : ¬ a < bound := by omega
        simp [hge, hge', hnot, hne]

theorem mem_slice_partitionPoint {l : List ℕ} (h : l.Pairwise (· < ·))
    {low high a : ℕ} :
    a ∈ (l.take (partitionPoint (fun b => decide (b < high)) l)).drop
        (partitionPoint (fun b => decide (b < low)) l) ↔
      a ∈ l ∧ low ≤ a ∧ a < high := by
  have hdesc : ∀ bound, Descending (fun b => decide (b < bound)) l := by
    intro bound
    refine List.Pairwise.imp ?_ h
    intro b c hlt hc
    simp only [decide_eq_true_eq] at hc ⊢
    omega
  have hat : ∀ bound k a, l[k]? = some a →
      (k < partitionPoint (fun b => decide (b < bound)) l ↔ a < bound) := by
    intro bound k a ha
    rw [(hdesc bound).lt_partitionPoint_iff ha, decide_eq_true_eq]
  rw [List.mem_iff_getElem?]
  constructor
  · rintro ⟨k, hk⟩
    rw [List.getElem?_drop, List.getElem?_take] at hk
    split at hk
    · rename_i hlt
      refine ⟨List.mem_of_getElem? hk, ?_, (hat high _ a hk).mp hlt⟩
      have := (hat low _ a hk).not.mp (by omega)
      omega
    · simp at hk
  · rintro ⟨hmem, hlow, hhigh⟩
    obtain ⟨k, hk⟩ := List.mem_iff_getElem?.mp hmem
    have hklow := (hat low k a hk).not.mpr (by omega)
    have hkhigh := (hat high k a hk).mpr hhigh
    refine ⟨k - partitionPoint (fun b => decide (b < low)) l, ?_⟩
    rw [List.getElem?_drop, Nat.add_sub_cancel' (by omega),
      List.getElem?_take_of_lt hkhigh, hk]

/-! ## Run tables -/

section RunTable

variable (start : α → ℕ)

/-- The rows are in strictly increasing order of where they start. -/
def Ascending (rows : List α) : Prop :=
  rows.Pairwise fun a b => start a < start b

/-- The row holding `position`, by binary search over the row starts. -/
def runIndex (rows : List α) (position : ℕ) : ℕ :=
  partitionPoint (fun row => decide (start row ≤ position)) rows - 1

/-- Moves a cursor forwards while the next row starts at or before
`position`; `fuel` bounds the number of moves. -/
def advance (rows : List α) (position : ℕ) : ℕ → ℕ → ℕ
  | 0, cursor => cursor
  | fuel + 1, cursor =>
      if (rows[cursor + 1]?).any (fun row => decide (start row ≤ position)) then
        advance rows position fuel (cursor + 1)
      else cursor

variable {start}

theorem Ascending.descending {rows : List α} (h : Ascending start rows)
    (position : ℕ) :
    Descending (fun row => decide (start row ≤ position)) rows := by
  refine List.Pairwise.imp ?_ h
  intro a b hlt hb
  simp only [decide_eq_true_eq] at hb ⊢
  omega

theorem Ascending.start_lt {rows : List α} (h : Ascending start rows)
    {i j : ℕ} {a b : α} (hij : i < j)
    (ha : rows[i]? = some a) (hb : rows[j]? = some b) :
    start a < start b := by
  obtain ⟨hi, rfl⟩ := List.getElem?_eq_some_iff.mp ha
  obtain ⟨hj, rfl⟩ := List.getElem?_eq_some_iff.mp hb
  exact List.pairwise_iff_getElem.mp h i j hi hj hij

/-- The row found starts at or before the position, and the next one after
it. -/
theorem Ascending.runIndex_spec {rows : List α} (h : Ascending start rows)
    {position : ℕ} {first : α} (hfirst : rows[0]? = some first)
    (hle : start first ≤ position) :
    (∃ row, rows[runIndex start rows position]? = some row ∧
      start row ≤ position) ∧
    ∀ next, rows[runIndex start rows position + 1]? = some next →
      position < start next := by
  have hdesc := h.descending position
  have hpos : 0 < partitionPoint
      (fun row => decide (start row ≤ position)) rows :=
    (hdesc.lt_partitionPoint_iff hfirst).mpr (by simpa using hle)
  constructor
  · obtain ⟨row, hrow, hp⟩ :=
      holds_of_lt_partitionPoint (k := runIndex start rows position)
        (p := fun row => decide (start row ≤ position)) (l := rows) (by
          unfold runIndex
          omega)
    exact ⟨row, hrow, by simpa using hp⟩
  · intro next hnext
    have hindex : runIndex start rows position + 1 =
        partitionPoint (fun row => decide (start row ≤ position)) rows := by
      unfold runIndex
      omega
    rw [hindex] at hnext
    have := fails_at_partitionPoint hnext
    simpa using this

/-- The row holding a position is the only one with the two properties of
`runIndex_spec`. -/
theorem Ascending.runIndex_eq {rows : List α} (h : Ascending start rows)
    {position cursor : ℕ} {row : α} (hrow : rows[cursor]? = some row)
    (hle : start row ≤ position)
    (hnext : ∀ next, rows[cursor + 1]? = some next → position < start next) :
    runIndex start rows position = cursor := by
  unfold runIndex
  have hcursor : cursor < rows.length :=
    (List.getElem?_eq_some_iff.mp hrow).1
  rw [partitionPoint_eq_of (n := cursor + 1)]
  · omega
  · omega
  · intro k a hk ha
    rw [decide_eq_true_eq]
    rcases Nat.lt_succ_iff_lt_or_eq.mp hk with hlt | heq
    · exact (h.start_lt hlt ha hrow).le.trans hle
    · subst heq
      rw [ha] at hrow
      obtain rfl : a = row := by simpa using hrow
      exact hle
  · intro a ha
    have := hnext a ha
    simp
    omega

/-- Moving the cursor forwards from the row of an earlier position reaches
the row of the present one. -/
theorem Ascending.advance_eq_runIndex {rows : List α}
    (h : Ascending start rows) {position cursor fuel : ℕ} {row : α}
    (hrow : rows[cursor]? = some row) (hle : start row ≤ position)
    (hfuel : rows.length ≤ cursor + fuel) :
    advance start rows position fuel cursor = runIndex start rows position := by
  induction fuel generalizing cursor row with
  | zero =>
      have := (List.getElem?_eq_some_iff.mp hrow).1
      omega
  | succ fuel ih =>
      unfold advance
      cases hnext : rows[cursor + 1]? with
      | none =>
          rw [if_neg (by simp)]
          exact (h.runIndex_eq hrow hle (by simp [hnext])).symm
      | some next =>
          by_cases hmove : start next ≤ position
          · rw [if_pos (by simpa using hmove)]
            exact ih hnext hmove (by omega)
          · rw [if_neg (by simpa using hmove)]
            refine (h.runIndex_eq hrow hle ?_).symm
            intro other hother
            rw [hnext] at hother
            obtain rfl : next = other := by simpa using hother
            omega

theorem runIndex_append_of_lt {rows : List α} {row : α} {position : ℕ}
    (hlt : position < start row) :
    runIndex start (rows ++ [row]) position = runIndex start rows position := by
  unfold runIndex
  rw [partitionPoint_append_of_fails (by simpa using hlt)]

theorem Ascending.runIndex_append_of_le {rows : List α} {row : α}
    {position : ℕ} (h : Ascending start (rows ++ [row]))
    (hle : start row ≤ position) :
    runIndex start (rows ++ [row]) position = rows.length := by
  refine @Ascending.runIndex_eq _ _ _ h _ _ row (by simp) hle ?_
  intro next hnext
  simp at hnext

theorem ascending_append_iff {rows : List α} {row : α} :
    Ascending start (rows ++ [row]) ↔
      Ascending start rows ∧ ∀ a ∈ rows, start a < start row := by
  unfold Ascending
  rw [List.pairwise_append]
  simp

/-- The rows describe every position below `len`. -/
structure Covers (start : α → ℕ) (rows : List α) (len : ℕ) : Prop where
  ascending : Ascending start rows
  begins : 0 < len → ∃ row, rows[0]? = some row ∧ start row = 0
  inside : ∀ row ∈ rows, start row < len

/-- The rows describe every position below `len`, as a test. -/
def covers (start : α → ℕ) (rows : List α) (len : ℕ) : Bool :=
  decide (rows.Pairwise fun a b => start a < start b) &&
    (len == 0 || (rows.head?.any fun row => start row == 0)) &&
    rows.all fun row => decide (start row < len)

theorem covers_sound {rows : List α} {len : ℕ}
    (h : covers start rows len = true) : Covers start rows len := by
  unfold covers at h
  simp only [Bool.and_eq_true, decide_eq_true_eq, Bool.or_eq_true, beq_iff_eq,
    List.all_eq_true] at h
  obtain ⟨⟨hascending, hbegins⟩, hinside⟩ := h
  refine ⟨hascending, fun hlen => ?_, hinside⟩
  cases rows with
  | nil => simp at hbegins; omega
  | cons row rows => exact ⟨row, rfl, by simp at hbegins; omega⟩

theorem Covers.lookup {rows : List α} {len position : ℕ}
    (h : Covers start rows len) (hposition : position < len) :
    (∃ row, rows[runIndex start rows position]? = some row ∧
      start row ≤ position) ∧
    ∀ next, rows[runIndex start rows position + 1]? = some next →
      position < start next := by
  obtain ⟨first, hfirst, hzero⟩ := h.begins (by omega)
  exact h.ascending.runIndex_spec hfirst (by omega)

/-- The row that describes a position. -/
def rowAt (start : α → ℕ) (rows : List α) (position : ℕ) : Option α :=
  rows[runIndex start rows position]?

theorem Covers.nil : Covers start [] 0 where
  ascending := .nil
  begins := by simp
  inside := by simp

/-- Where the rows end, another row may start. -/
theorem Covers.append {rows : List α} {len total : ℕ} {row : α}
    (h : Covers start rows len) (hrow : start row = len)
    (htotal : len < total) : Covers start (rows ++ [row]) total where
  ascending := ascending_append_iff.mpr
    ⟨h.ascending, fun a ha => hrow ▸ h.inside a ha⟩
  begins _ := by
    cases rows with
    | nil =>
        refine ⟨row, rfl, ?_⟩
        by_contra hne
        obtain ⟨_, hnone, _⟩ := h.begins (by omega)
        simp at hnone
    | cons first rest =>
        obtain ⟨_, hfirst, hzero⟩ := h.begins
          (Nat.zero_lt_of_lt (h.inside first (by simp)))
        obtain rfl : first = _ := by simpa using hfirst
        exact ⟨first, rfl, hzero⟩
  inside a ha := by
    rcases List.mem_append.mp ha with hold | hnew
    · have := h.inside a hold
      omega
    · obtain rfl : a = row := by simpa using hnew
      omega

theorem Covers.rowAt_append_of_lt {rows : List α} {len position : ℕ} {row : α}
    (h : Covers start rows len) (hrow : start row = len)
    (hlt : position < len) :
    rowAt start (rows ++ [row]) position = rowAt start rows position := by
  obtain ⟨⟨found, hfound, -⟩, -⟩ := h.lookup hlt
  unfold rowAt
  rw [runIndex_append_of_lt (by omega), List.getElem?_append_left
    (List.getElem?_eq_some_iff.mp hfound).1]

theorem Covers.rowAt_append_of_le {rows : List α} {len position : ℕ} {row : α}
    (h : Covers start rows len) (hrow : start row = len)
    (hle : len ≤ position) :
    rowAt start (rows ++ [row]) position = some row := by
  have hall := h.append hrow (Nat.lt_succ_self len)
  unfold rowAt
  rw [hall.ascending.runIndex_append_of_le (by omega)]
  simp

/-! ## Cursors -/

/-- The cursor is at the row of `position` or of the position before it, so
the row behind it has not been passed. -/
structure CursorAt (start : α → ℕ) (rows : List α) (position cursor : ℕ) :
    Prop where
  here : ∃ row, rows[cursor]? = some row ∧ start row ≤ position
  ahead : ∀ next, rows[cursor + 1]? = some next → position ≤ start next

theorem Covers.cursorAt_runIndex {rows : List α} {len position : ℕ}
    (h : Covers start rows len) (hposition : position < len) :
    CursorAt start rows position (runIndex start rows position) where
  here := (h.lookup hposition).1
  ahead next hnext := ((h.lookup hposition).2 next hnext).le

theorem Covers.cursorAt_succ {rows : List α} {len position : ℕ}
    (h : Covers start rows len) (hposition : position < len) :
    CursorAt start rows (position + 1) (runIndex start rows position) where
  here := by
    obtain ⟨row, hrow, hle⟩ := (h.lookup hposition).1
    exact ⟨row, hrow, by omega⟩
  ahead next hnext := (h.lookup hposition).2 next hnext

theorem CursorAt.advance_eq {rows : List α} {position cursor : ℕ}
    (hcursor : CursorAt start rows position cursor)
    (h : Ascending start rows) :
    advance start rows position rows.length cursor =
      runIndex start rows position := by
  obtain ⟨row, hrow, hle⟩ := hcursor.here
  exact h.advance_eq_runIndex hrow hle (by omega)

theorem CursorAt.start_eq_of_lt {rows : List α} {position cursor : ℕ}
    {row : α} (hcursor : CursorAt start rows position cursor)
    (h : Ascending start rows)
    (hmoved : cursor < runIndex start rows position)
    (hrow : rows[runIndex start rows position]? = some row)
    (hle : start row ≤ position) : start row = position := by
  have hlength := (List.getElem?_eq_some_iff.mp hrow).1
  obtain ⟨next, hnext⟩ : ∃ next, rows[cursor + 1]? = some next :=
    ⟨_, List.getElem?_eq_getElem (by omega)⟩
  have hahead := hcursor.ahead next hnext
  rcases Nat.lt_or_eq_of_le (Nat.succ_le_of_lt hmoved) with hlt | heq
  · have := h.start_lt hlt hnext hrow
    omega
  · rw [← heq] at hrow
    rw [show cursor.succ = cursor + 1 from rfl, hnext] at hrow
    obtain rfl : next = row := by simpa using hrow
    omega

theorem CursorAt.le_runIndex {rows : List α} {position cursor : ℕ}
    (hcursor : CursorAt start rows position cursor)
    (h : Ascending start rows) :
    cursor ≤ runIndex start rows position := by
  obtain ⟨row, hrow, hle⟩ := hcursor.here
  have := ((h.descending position).lt_partitionPoint_iff hrow).mpr
    (by simpa using hle)
  unfold runIndex
  omega

theorem Covers.runIndex_succ {rows : List α} {len position : ℕ}
    (h : Covers start rows len) (hposition : position + 1 < len) :
    runIndex start rows (position + 1) = runIndex start rows position ∨
      runIndex start rows (position + 1) = runIndex start rows position + 1 ∧
      ∃ next, rows[runIndex start rows position + 1]? = some next ∧
        start next = position + 1 := by
  obtain ⟨⟨row, hrow, hle⟩, hahead⟩ :=
    @Covers.lookup _ _ _ _ position h (by omega)
  cases hnext : rows[runIndex start rows position + 1]? with
  | none =>
      left
      exact h.ascending.runIndex_eq hrow (by omega) (by simp [hnext])
  | some next =>
      have hafter := hahead next hnext
      by_cases hat : start next = position + 1
      · right
        refine ⟨h.ascending.runIndex_eq hnext hat.le ?_, next, rfl, hat⟩
        intro other hother
        have := h.ascending.start_lt (by omega) hnext hother
        omega
      · left
        refine h.ascending.runIndex_eq hrow (by omega) ?_
        intro other hother
        rw [hnext] at hother
        obtain rfl : next = other := by simpa using hother
        omega

/-! ## Rows that describe a list -/

/-- The last row holds the last position. -/
theorem Covers.rowAt_eq_getLast? {rows : List α} {len : ℕ}
    (h : Covers start rows len) (hlen : 0 < len) {position : ℕ}
    (hposition : len - 1 ≤ position) :
    rowAt start rows position = rows.getLast? := by
  obtain ⟨row, hrow, -⟩ := h.begins hlen
  have hpos : 0 < rows.length := (List.getElem?_eq_some_iff.mp hrow).1
  have hlast : rows[rows.length - 1]? = some rows[rows.length - 1] :=
    List.getElem?_eq_getElem (by omega)
  have hinside := h.inside _ (List.mem_of_getElem? hlast)
  have hindex : runIndex start rows position = rows.length - 1 := by
    refine h.ascending.runIndex_eq hlast (by omega) ?_
    intro next hnext
    rw [List.getElem?_eq_none (by omega)] at hnext
    cases hnext
  unfold rowAt
  rw [hindex, List.getLast?_eq_getElem?]

/-- The rows go on describing the positions behind them. -/
theorem Covers.extend {rows : List α} {len total : ℕ}
    (h : Covers start rows len) (hlen : 0 < len) (htotal : len ≤ total) :
    Covers start rows total where
  ascending := h.ascending
  begins _ := h.begins hlen
  inside row hrow := (h.inside row hrow).trans_le htotal

/-- Every item of the list fits the row that holds its position. -/
structure Describes {β : Type*} (start : α → ℕ) (fits : α → ℕ → β → Prop)
    (rows : List α) (items : List β) : Prop where
  covers : Covers start rows items.length
  fits_at : ∀ i item, items[i]? = some item →
    ∃ row, rowAt start rows i = some row ∧ fits row i item

variable {β : Type*} {fits : α → ℕ → β → Prop}

theorem Describes.nil : Describes start fits ([] : List α) ([] : List β) where
  covers := Covers.nil
  fits_at := by simp

/-- Another item fits the last row. -/
theorem Describes.keep {rows : List α} {items : List β} {row : α} {item : β}
    (h : Describes start fits rows items) (hrow : rows.getLast? = some row)
    (hfits : fits row items.length item) :
    Describes start fits rows (items ++ [item]) := by
  have hlen : 0 < items.length := by
    have := h.covers.inside row (List.mem_of_getLast? hrow)
    omega
  constructor
  · rw [List.length_append, List.length_singleton]
    exact h.covers.extend hlen (by omega)
  · intro i found hfound
    rcases Nat.lt_or_ge i items.length with hlt | hge
    · rw [List.getElem?_append_left hlt] at hfound
      exact h.fits_at i found hfound
    · rw [List.getElem?_append_right hge] at hfound
      obtain ⟨hindex, hitem⟩ := List.getElem?_eq_some_iff.mp hfound
      have hi : i = items.length := by
        rw [List.length_singleton] at hindex
        omega
      subst hi
      obtain rfl : item = found := by simpa using hitem
      refine ⟨row, ?_, hfits⟩
      rw [h.covers.rowAt_eq_getLast? hlen (by omega), hrow]

/-- Another item starts a row of its own. -/
theorem Describes.push {rows : List α} {items : List β} {row : α} {item : β}
    (h : Describes start fits rows items) (hstart : start row = items.length)
    (hfits : fits row items.length item) :
    Describes start fits (rows ++ [row]) (items ++ [item]) := by
  constructor
  · exact h.covers.append hstart (by simp)
  · intro i found hfound
    rcases Nat.lt_or_ge i items.length with hlt | hge
    · rw [List.getElem?_append_left hlt] at hfound
      rw [h.covers.rowAt_append_of_lt hstart hlt]
      exact h.fits_at i found hfound
    · rw [List.getElem?_append_right hge] at hfound
      obtain ⟨hindex, hitem⟩ := List.getElem?_eq_some_iff.mp hfound
      have hi : i = items.length := by
        rw [List.length_singleton] at hindex
        omega
      subst hi
      obtain rfl : item = found := by simpa using hitem
      exact ⟨row, h.covers.rowAt_append_of_le hstart (Nat.le_refl _), hfits⟩

/-- An item fits the row that starts at or before it when no later row
does. -/
theorem Describes.fits_of_row {rows : List α} {items : List β} {row : α}
    {item : β} {i k : ℕ} (h : Describes start fits rows items)
    (hrow : rows[k]? = some row) (hle : start row ≤ i)
    (hnext : ∀ next, rows[k + 1]? = some next → i < start next)
    (hitem : items[i]? = some item) : fits row i item := by
  obtain ⟨found, hfound, hfits⟩ := h.fits_at i item hitem
  unfold rowAt at hfound
  rw [h.covers.ascending.runIndex_eq hrow hle hnext, hrow] at hfound
  obtain rfl : row = found := by simpa using hfound
  exact hfits

end RunTable

end Segmentor.General
