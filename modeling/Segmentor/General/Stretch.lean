import Segmentor.General.Tiling

/-!
# Stretches of a list

The elements of a list from one position up to another, and how consecutive
stretches join.  A stretch is cut into pieces of at most a given size, and a
list is grouped by a number of its elements.
-/

namespace Segmentor.General

variable {α β : Type*} {l others : List α} {first middle stop : ℕ}

/-- The elements from `first` up to `stop`. -/
def stretch (l : List α) (first stop : ℕ) : List α :=
  (l.take stop).drop first

@[simp] theorem length_stretch (l : List α) (first stop : ℕ) :
    (stretch l first stop).length = min stop l.length - first := by
  simp [stretch]

theorem stretch_eq_nil (h : stop ≤ first) : stretch l first stop = [] := by
  simp [stretch]
  omega

theorem stretch_min_length (l : List α) (first stop : ℕ) :
    stretch l first (min stop l.length) = stretch l first stop := by
  unfold stretch
  rw [← List.take_eq_take_min]

theorem stretch_length (l : List α) : stretch l 0 l.length = l := by
  simp [stretch]

theorem stretch_eq_take_drop (l : List α) (first stop : ℕ) :
    stretch l first stop = (l.drop first).take (stop - first) :=
  List.drop_take ..

theorem stretch_append_stretch (hfirst : first ≤ middle)
    (hmiddle : middle ≤ stop) :
    stretch l first middle ++ stretch l middle stop = stretch l first stop := by
  simp only [stretch_eq_take_drop]
  rw [show stop - first = middle - first + (stop - middle) by omega,
    List.take_add, List.drop_drop,
    show first + (middle - first) = middle by omega]

theorem stretch_append (l others : List α) (first stop : ℕ) :
    stretch (l ++ others) first stop =
      stretch l first stop ++
        stretch others (first - l.length) (stop - l.length) := by
  unfold stretch
  rw [List.take_append, List.drop_append, List.length_take]
  by_cases hstop : stop ≤ l.length
  · rw [Nat.sub_eq_zero_of_le hstop, List.take_zero, List.drop_nil,
      List.drop_nil]
  · rw [Nat.min_eq_right (by omega)]

theorem stretch_stretch (l : List α) (first stop a b : ℕ) :
    stretch (stretch l first stop) a b =
      stretch l (first + a) (min stop (first + b)) := by
  unfold stretch
  rw [List.take_drop, List.take_take, List.drop_drop, Nat.min_comm]

/-- The stretches of a tiling join to the stretch of all of it. -/
theorem flatMap_stretch_of_tiles {spans : List (ℕ × ℕ)}
    (h : Tiles first spans stop) :
    spans.flatMap (fun span => stretch l span.1 span.2) =
      stretch l first stop := by
  induction spans generalizing first with
  | nil =>
      rw [stretch_eq_nil (tiles_nil.mp h).ge, List.flatMap_nil]
  | cons span spans ih =>
      obtain ⟨rfl, hle, hrest⟩ := tiles_cons.mp h
      rw [List.flatMap_cons, ih hrest, stretch_append_stretch hle hrest.le]

/-- Of two spans of a tiling, the later one starts where the earlier one ends
or after it. -/
theorem Tiles.pairwise {spans : List (ℕ × ℕ)} (h : Tiles first spans stop) :
    spans.Pairwise fun span later => span.2 ≤ later.1 := by
  induction spans generalizing first with
  | nil => exact .nil
  | cons span spans ih =>
      obtain ⟨-, -, hrest⟩ := tiles_cons.mp h
      exact .cons (fun later hlater => (hrest.mem_bounds hlater).1) (ih hrest)

/-! ## Pieces of at most a given size -/

/-- The stretch from `first` up to `stop` in pieces of `size`, the last one
shorter; `fuel` bounds their number. -/
def chunkSpansFuel (size : ℕ) : ℕ → ℕ → ℕ → List (ℕ × ℕ)
  | 0, _, _ => []
  | fuel + 1, first, stop =>
      if first < stop then
        let next := min stop (first + size)
        (first, next) :: chunkSpansFuel size fuel next stop
      else []

def chunkSpans (size first stop : ℕ) : List (ℕ × ℕ) :=
  chunkSpansFuel size (stop - first) first stop

theorem chunkSpansFuel_spec {size fuel : ℕ} (hsize : 0 < size)
    (hfirst : first ≤ stop) (hfuel : stop - first ≤ fuel) :
    Tiles first (chunkSpansFuel size fuel first stop) stop ∧
      ∀ span ∈ chunkSpansFuel size fuel first stop,
        first ≤ span.1 ∧ span.1 < span.2 ∧ span.2 ≤ stop ∧
          span.2 - span.1 ≤ size := by
  induction fuel generalizing first with
  | zero =>
      obtain rfl : first = stop := by omega
      simp [chunkSpansFuel]
  | succ fuel ih =>
      unfold chunkSpansFuel
      split
      · rename_i hlt
        obtain ⟨htiles, hspans⟩ := @ih (min stop (first + size)) (by omega)
          (by omega)
        refine ⟨tiles_cons.mpr ⟨rfl, by dsimp only; omega, htiles⟩,
          List.forall_mem_cons.mpr ⟨by dsimp only; omega, fun span hspan => ?_⟩⟩
        have := hspans span hspan
        omega
      · rename_i hge
        obtain rfl : first = stop := by omega
        simp

theorem chunkSpans_spec {size : ℕ} (hsize : 0 < size) (hfirst : first ≤ stop) :
    Tiles first (chunkSpans size first stop) stop ∧
      ∀ span ∈ chunkSpans size first stop,
        first ≤ span.1 ∧ span.1 < span.2 ∧ span.2 ≤ stop ∧
          span.2 - span.1 ≤ size :=
  chunkSpansFuel_spec hsize hfirst (Nat.le_refl _)

/-- The stretch from `first` up to `stop` in pieces of `size`. -/
def chunked (size : ℕ) (l : List α) (first stop : ℕ) : List (List α) :=
  (chunkSpans size first stop).map fun span => stretch l span.1 span.2

theorem flatten_chunked {size : ℕ} (hsize : 0 < size) (hfirst : first ≤ stop) :
    (chunked size l first stop).flatten = stretch l first stop := by
  unfold chunked
  rw [← List.flatMap_def,
    flatMap_stretch_of_tiles (chunkSpans_spec hsize hfirst).1]

theorem mem_chunked {size : ℕ} (hsize : 0 < size) (hfirst : first ≤ stop)
    (hstop : stop ≤ l.length) {chunk : List α}
    (hchunk : chunk ∈ chunked size l first stop) :
    chunk ≠ [] ∧ chunk.length ≤ size := by
  obtain ⟨span, hspan, rfl⟩ := List.mem_map.mp hchunk
  have hbounds := (chunkSpans_spec hsize hfirst).2 span hspan
  rw [← List.length_pos_iff, length_stretch]
  omega

/-! ## Grouping by a number -/

theorem flatMap_filter_eq {key : β → ℕ} {l : List β} {k n : ℕ}
    (hsorted : l.Pairwise fun a b => key a ≤ key b)
    (hmem : ∀ a ∈ l, k ≤ key a ∧ key a < k + n) :
    ((List.range' k n).flatMap fun group =>
      l.filter fun a => key a = group) = l := by
  induction n generalizing k l with
  | zero =>
      cases l with
      | nil => rfl
      | cons a l =>
          have := hmem a List.mem_cons_self
          omega
  | succ n ih =>
      have hsplit : l = l.filter (fun a => key a = k) ++
          l.filter (fun a => k < key a) := by
        clear ih
        induction l with
        | nil => rfl
        | cons a l ihl =>
            obtain ⟨ha, hl⟩ := List.pairwise_cons.mp hsorted
            have hbound := (hmem a List.mem_cons_self).1
            have hrest := ihl hl fun b hb => hmem b (List.mem_cons_of_mem _ hb)
            by_cases heq : key a = k
            · rw [List.filter_cons_of_pos (by simpa using heq),
                List.filter_cons_of_neg (by simp [heq]), List.cons_append,
                ← hrest]
            · have hnone : l.filter (fun b => key b = k) = [] := by
                rw [List.filter_eq_nil_iff]
                intro b hb
                have := ha b hb
                simp only [decide_eq_true_eq]
                omega
              rw [hnone, List.nil_append] at hrest
              rw [List.filter_cons_of_neg (by simpa using heq), hnone,
                List.nil_append, List.filter_cons_of_pos (by
                  simp only [decide_eq_true_eq]
                  omega), ← hrest]
      have hlater := @ih (l.filter fun a => k < key a) (k + 1)
        (hsorted.filter _) (by
          intro a ha
          obtain ⟨hmema, hlt⟩ := List.mem_filter.mp ha
          have := hmem a hmema
          simp only [decide_eq_true_eq] at hlt
          omega)
      rw [List.range'_succ, List.flatMap_cons]
      conv_rhs => rw [hsplit, ← hlater]
      congr 1
      refine List.flatMap_congr fun group hgroup => ?_
      rw [List.filter_filter]
      refine List.filter_congr fun a _ => ?_
      have := (List.mem_range'_1.mp hgroup).1
      by_cases heq : key a = group
      · simp [heq]
        omega
      · simp [heq]

/-- Stretches of the same lengths that are put together are the same exactly
where each two are. -/
theorem flatMap_eq_flatMap_iff {α β : Type*} {f g : α → List β} {l : List α}
    (hlength : ∀ a ∈ l, (f a).length = (g a).length) :
    l.flatMap f = l.flatMap g ↔ ∀ a ∈ l, f a = g a := by
  induction l with
  | nil => simp
  | cons a l ih =>
      obtain ⟨hhead, htail⟩ := List.forall_mem_cons.mp hlength
      rw [List.flatMap_cons, List.flatMap_cons, List.forall_mem_cons, ← ih htail]
      constructor
      · exact fun h => List.append_inj h hhead
      · rintro ⟨hfirst, hrest⟩
        rw [hfirst, hrest]

end Segmentor.General
