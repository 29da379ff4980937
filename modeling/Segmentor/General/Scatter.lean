import Segmentor.General.Stretch

/-!
# Parts of a list, changed where they are

Spans of a list that come one after the other, the parts they hold, and the
list with other parts of the same lengths in their places.  A loop that changes
the parts in place and carries a state along is a pass over the parts alone.
-/

namespace Segmentor.General

variable {α β σ τ : Type*}

/-! ## Spans apart -/

/-- Spans one after the other between `first` and `stop`. -/
def Apart : ℕ → List (ℕ × ℕ) → ℕ → Prop
  | first, [], stop => first ≤ stop
  | first, span :: spans, stop =>
      first ≤ span.1 ∧ span.1 ≤ span.2 ∧ Apart span.2 spans stop

section Apart

variable {first middle stop : ℕ} {spans : List (ℕ × ℕ)} {span : ℕ × ℕ}

@[simp] theorem apart_nil : Apart first [] stop ↔ first ≤ stop := Iff.rfl

@[simp] theorem apart_cons :
    Apart first (span :: spans) stop ↔
      first ≤ span.1 ∧ span.1 ≤ span.2 ∧ Apart span.2 spans stop := Iff.rfl

theorem Apart.le (h : Apart first spans stop) : first ≤ stop := by
  induction spans generalizing first with
  | nil => exact h
  | cons span spans ih =>
      obtain ⟨hfirst, hspan, hrest⟩ := h
      have := ih hrest
      omega

theorem Apart.of_le (h : Apart middle spans stop) (hle : first ≤ middle) :
    Apart first spans stop := by
  cases spans with
  | nil => exact hle.trans h
  | cons span spans =>
      obtain ⟨hfirst, hrest⟩ := h
      exact ⟨hle.trans hfirst, hrest⟩

theorem Apart.append {others : List (ℕ × ℕ)} (h : Apart first spans middle)
    (hothers : Apart middle others stop) :
    Apart first (spans ++ others) stop := by
  induction spans generalizing first with
  | nil => exact hothers.of_le h
  | cons span spans ih =>
      obtain ⟨hfirst, hspan, hrest⟩ := h
      exact ⟨hfirst, hspan, ih hrest⟩

theorem Apart.sublist {others : List (ℕ × ℕ)} (h : Apart first spans stop)
    (hsub : others.Sublist spans) : Apart first others stop := by
  induction hsub generalizing first with
  | slnil => exact h
  | cons span _ ih =>
      obtain ⟨hfirst, hspan, hrest⟩ := h
      exact (ih hrest).of_le (hfirst.trans hspan)
  | cons_cons span _ ih =>
      obtain ⟨hfirst, hspan, hrest⟩ := h
      exact ⟨hfirst, hspan, ih hrest⟩

theorem Apart.flatMap {parts : ℕ × ℕ → List (ℕ × ℕ)}
    (h : Apart first spans stop)
    (hparts : ∀ span ∈ spans, Apart span.1 (parts span) span.2) :
    Apart first (spans.flatMap parts) stop := by
  induction spans generalizing first with
  | nil => exact h
  | cons span spans ih =>
      obtain ⟨hfirst, -, hrest⟩ := h
      obtain ⟨hspan, hspans⟩ := List.forall_mem_cons.mp hparts
      exact (hspan.of_le hfirst).append (ih hrest hspans)

theorem Apart.mem (h : Apart first spans stop) (hspan : span ∈ spans) :
    first ≤ span.1 ∧ span.1 ≤ span.2 ∧ span.2 ≤ stop := by
  induction spans generalizing first with
  | nil => cases hspan
  | cons head spans ih =>
      obtain ⟨hfirst, hhead, hrest⟩ := h
      rcases List.mem_cons.mp hspan with rfl | hmem
      · exact ⟨hfirst, hhead, hrest.le⟩
      · have := ih hrest hmem
        omega

end Apart

/-- Spans seen from `n` on. -/
def seenFrom (n : ℕ) (spans : List (ℕ × ℕ)) : List (ℕ × ℕ) :=
  spans.map fun span => (span.1 - n, span.2 - n)

theorem Apart.seenFrom {first n stop : ℕ} {spans : List (ℕ × ℕ)}
    (h : Apart first spans stop) (hn : n ≤ first) :
    Apart (first - n) (seenFrom n spans) (stop - n) := by
  induction spans generalizing first with
  | nil => exact Nat.sub_le_sub_right h n
  | cons span spans ih =>
      obtain ⟨hfirst, hspan, hrest⟩ := h
      exact ⟨Nat.sub_le_sub_right hfirst n, Nat.sub_le_sub_right hspan n,
        ih hrest (by omega)⟩

/-! ## Whole blocks -/

/-- The whole blocks of `size` elements of a span. -/
def blockSpans (size : ℕ) (span : ℕ × ℕ) : List (ℕ × ℕ) :=
  (List.range ((span.2 - span.1) / size)).map fun index =>
    (span.1 + size * index, span.1 + size * index + size)

theorem length_of_mem_blockSpans {size : ℕ} {span block : ℕ × ℕ}
    (h : block ∈ blockSpans size span) : block.2 - block.1 = size := by
  obtain ⟨index, -, rfl⟩ := List.mem_map.mp h
  exact Nat.add_sub_cancel_left ..

theorem apart_blockSpans (size : ℕ) {span : ℕ × ℕ} (h : span.1 ≤ span.2) :
    Apart span.1 (blockSpans size span) span.2 := by
  have hcount : ∀ count, Apart span.1
      ((List.range count).map fun index =>
        (span.1 + size * index, span.1 + size * index + size))
      (span.1 + size * count) := by
    intro count
    induction count with
    | zero => simp
    | succ count ih =>
        rw [List.range_succ, List.map_append, List.map_singleton]
        refine ih.append ⟨Nat.le_refl _, Nat.le_add_right .., ?_⟩
        rw [apart_nil, Nat.mul_succ]
        omega
  have hlast : span.1 + size * ((span.2 - span.1) / size) ≤ span.2 := by
    have := Nat.mul_div_le (span.2 - span.1) size
    omega
  have hblocks := (hcount ((span.2 - span.1) / size)).append
    (apart_nil.mpr hlast)
  rwa [List.append_nil] at hblocks

/-! ## Parts -/

/-- The parts of a list that spans hold. -/
def gather (l : List α) (spans : List (ℕ × ℕ)) : List (List α) :=
  spans.map fun span => stretch l span.1 span.2

/-- Puts a part in the place of a span. -/
def putAt (span : ℕ × ℕ) (part l : List α) : List α :=
  l.take span.1 ++ part ++ l.drop span.2

/-- Puts parts in the places of spans. -/
def scatter : List (ℕ × ℕ) → List (List α) → List α → List α
  | span :: spans, part :: parts, l =>
      scatter spans parts (putAt span part l)
  | _, _, l => l

/-- Parts as long as their spans. -/
def Fitting (spans : List (ℕ × ℕ)) (parts : List (List α)) : Prop :=
  List.Forall₂ (fun span part => part.length = span.2 - span.1) spans parts

section Parts

variable {spans : List (ℕ × ℕ)} {parts others : List (List α)}
  {l head part new after : List α} {span : ℕ × ℕ} {first n stop : ℕ}

theorem Fitting.seenFrom (h : Fitting spans parts)
    (hn : ∀ span ∈ spans, n ≤ span.1) : Fitting (seenFrom n spans) parts := by
  unfold Fitting General.seenFrom
  rw [List.forall₂_map_left_iff]
  unfold Fitting at h
  induction h with
  | nil => exact .nil
  | @cons span part spans parts hpart _ ih =>
      obtain ⟨hspan, hspans⟩ := List.forall_mem_cons.mp hn
      refine .cons ?_ (ih hspans)
      dsimp only
      omega

theorem stretch_append_of_le {first stop : ℕ} (hhead : head.length = n)
    (h : n ≤ first) :
    stretch (head ++ after) first stop =
      stretch after (first - n) (stop - n) := by
  subst hhead
  rw [stretch_append, stretch_eq_take_drop head,
    List.drop_eq_nil_of_le h, List.take_nil, List.nil_append]

theorem stretch_middle (hhead : head.length = span.1)
    (hpart : part.length = span.2 - span.1) (hspan : span.1 ≤ span.2) :
    stretch ((head ++ part) ++ after) span.1 span.2 = part := by
  have hlength : (head ++ part).length = span.2 := by
    rw [List.length_append]
    omega
  unfold stretch
  rw [← hlength, List.take_left, ← hhead, List.drop_left]

theorem gather_append (hhead : head.length = n) (h : Apart n spans stop) :
    gather (head ++ after) spans = gather after (seenFrom n spans) := by
  unfold gather seenFrom
  rw [List.map_map]
  apply List.map_congr_left
  intro span hspan
  exact stretch_append_of_le hhead (h.mem hspan).1

theorem putAt_append (hhead : head.length = n) (h : n ≤ span.1)
    (hspan : span.1 ≤ span.2) (part : List α) :
    putAt span part (head ++ after) =
      head ++ putAt (span.1 - n, span.2 - n) part after := by
  subst hhead
  unfold putAt
  rw [List.take_append, List.drop_append,
    List.take_of_length_le h, List.drop_eq_nil_of_le (h.trans hspan)]
  simp only [List.append_assoc, List.nil_append]

theorem length_putAt (hspan : span.1 ≤ span.2) (hstop : span.2 ≤ l.length)
    (hpart : part.length = span.2 - span.1) :
    (putAt span part l).length = l.length := by
  unfold putAt
  rw [List.length_append, List.length_append, List.length_take,
    List.length_drop]
  omega

theorem scatter_append (hhead : head.length = n) (h : Apart n spans stop) :
    scatter spans parts (head ++ after) =
      head ++ scatter (seenFrom n spans) parts after := by
  have hkeep : ∀ {first : ℕ}, n ≤ first → Apart first spans stop →
      scatter spans parts (head ++ after) =
        head ++ scatter (seenFrom n spans) parts after := by
    clear h
    intro first hfirst h
    induction spans generalizing first parts after with
    | nil => rfl
    | cons span spans ih =>
        obtain ⟨hspan, hle, hrest⟩ := h
        cases parts with
        | nil => rfl
        | cons part parts =>
            unfold scatter
            rw [putAt_append hhead (hfirst.trans hspan) hle]
            exact ih (hfirst.trans (hspan.trans hle)) hrest
  exact hkeep (Nat.le_refl n) h

/-- A list as what comes before its first span, what that holds, and the rest,
which the other spans see from its end on. -/
theorem exists_parts (h : Apart 0 (span :: spans) stop) (hl : l.length = stop) :
    ∃ head part after : List α, l = (head ++ part) ++ after ∧
      head.length = span.1 ∧ part.length = span.2 - span.1 ∧
      after.length = stop - span.2 := by
  obtain ⟨-, hspan, hrest⟩ := h
  have hstop := hrest.le
  refine ⟨l.take span.1, stretch l span.1 span.2, l.drop span.2, ?_, ?_, ?_,
    ?_⟩
  · have hwhole := @stretch_append_stretch _ l 0 span.1 span.2
      (Nat.zero_le _) hspan
    unfold stretch at hwhole ⊢
    rw [List.drop_zero, List.drop_zero] at hwhole
    rw [hwhole, List.take_append_drop]
  · rw [List.length_take]
    omega
  · rw [length_stretch]
    omega
  · rw [List.length_drop]
    omega

theorem gather_cons (hhead : head.length = span.1)
    (hpart : part.length = span.2 - span.1)
    (h : Apart first (span :: spans) stop) :
    gather ((head ++ part) ++ after) (span :: spans) =
      part :: gather after (seenFrom span.2 spans) := by
  obtain ⟨-, hspan, hrest⟩ := h
  have hlength : (head ++ part).length = span.2 := by
    rw [List.length_append]
    omega
  unfold gather
  rw [List.map_cons, stretch_middle hhead hpart hspan]
  exact congrArg (part :: ·) (gather_append hlength hrest)

theorem scatter_cons (hhead : head.length = span.1)
    (hpart : part.length = span.2 - span.1)
    (hnew : new.length = span.2 - span.1)
    (h : Apart first (span :: spans) stop) :
    scatter (span :: spans) (new :: parts) ((head ++ part) ++ after) =
      (head ++ new) ++ scatter (seenFrom span.2 spans) parts after := by
  obtain ⟨-, hspan, hrest⟩ := h
  have hlength : (head ++ part).length = span.2 := by
    rw [List.length_append]
    omega
  have hput : putAt span new ((head ++ part) ++ after) =
      (head ++ new) ++ after := by
    unfold putAt
    rw [← hlength, List.drop_left, List.append_assoc head, ← hhead,
      List.take_left]
  rw [scatter, hput]
  refine scatter_append ?_ hrest
  rw [List.length_append]
  omega

/-- Spans after the first, seen from its end. -/
theorem Apart.tail (h : Apart first (span :: spans) stop) :
    Apart 0 (General.seenFrom span.2 spans) (stop - span.2) := by
  obtain ⟨-, -, hrest⟩ := h
  have hseen := hrest.seenFrom (Nat.le_refl span.2)
  rwa [Nat.sub_self] at hseen

theorem Fitting.tail (hparts : Fitting (span :: spans) (part :: parts))
    (h : Apart first (span :: spans) stop) :
    Fitting (General.seenFrom span.2 spans) parts := by
  obtain ⟨-, -, hrest⟩ := h
  have hfit := (List.forall₂_cons.mp hparts).2
  exact Fitting.seenFrom hfit fun other hother => (hrest.mem hother).1

theorem fitting_gather (h : Apart first spans stop) (hl : l.length = stop) :
    Fitting spans (gather l spans) := by
  unfold Fitting gather
  rw [List.forall₂_map_right_iff, List.forall₂_same]
  intro span hspan
  have hbounds := h.mem hspan
  rw [length_stretch]
  omega

theorem length_scatter (h : Apart 0 spans stop) (hl : l.length = stop)
    (hparts : Fitting spans parts) :
    (scatter spans parts l).length = stop := by
  induction parts generalizing spans l stop with
  | nil =>
      cases hparts
      exact hl
  | cons new parts ih =>
      cases spans with
      | nil => exact hl
      | cons span spans =>
          obtain ⟨head, part, after, rfl, hhead, hpart, hafter⟩ :=
            exists_parts h hl
          have hnew := (List.forall₂_cons.mp hparts).1
          rw [scatter_cons hhead hpart hnew h, List.length_append,
            List.length_append, ih h.tail hafter (hparts.tail h)]
          have hstop := h.2.2.le
          have hspan := h.2.1
          omega

theorem gather_scatter (h : Apart 0 spans stop) (hl : l.length = stop)
    (hparts : Fitting spans parts) :
    gather (scatter spans parts l) spans = parts := by
  induction parts generalizing spans l stop with
  | nil =>
      cases hparts
      rfl
  | cons new parts ih =>
      cases spans with
      | nil => cases hparts
      | cons span spans =>
          obtain ⟨head, part, after, rfl, hhead, hpart, hafter⟩ :=
            exists_parts h hl
          have hnew := (List.forall₂_cons.mp hparts).1
          rw [scatter_cons hhead hpart hnew h, gather_cons hhead hnew h,
            ih h.tail hafter (hparts.tail h)]

theorem scatter_gather (h : Apart 0 spans stop) (hl : l.length = stop) :
    scatter spans (gather l spans) l = l := by
  induction hcount : spans.length generalizing spans l stop with
  | zero =>
      obtain rfl := List.length_eq_zero_iff.mp hcount
      rfl
  | succ count ih =>
      cases spans with
      | nil => cases hcount
      | cons span spans =>
          obtain ⟨head, part, after, rfl, hhead, hpart, hafter⟩ :=
            exists_parts h hl
          rw [gather_cons hhead hpart h, scatter_cons hhead hpart hpart h,
            ih h.tail hafter (by
              unfold General.seenFrom
              rw [List.length_map]
              exact Nat.succ.inj hcount)]

/-- Parts put in the places of others replace them. -/
theorem scatter_scatter (h : Apart 0 spans stop) (hl : l.length = stop)
    (hparts : Fitting spans parts) (hothers : Fitting spans others) :
    scatter spans others (scatter spans parts l) = scatter spans others l := by
  induction parts generalizing spans others l stop with
  | nil =>
      cases hparts
      rfl
  | cons new parts ih =>
      cases spans with
      | nil => cases hparts
      | cons span spans =>
          cases others with
          | nil => cases hothers
          | cons other others =>
              obtain ⟨head, part, after, rfl, hhead, hpart, hafter⟩ :=
                exists_parts h hl
              have hnew := (List.forall₂_cons.mp hparts).1
              have hother := (List.forall₂_cons.mp hothers).1
              rw [scatter_cons hhead hpart hnew h,
                scatter_cons hhead hnew hother h,
                scatter_cons hhead hpart hother h,
                ih h.tail hafter (hparts.tail h) (hothers.tail h)]

theorem scatter_eq_self_iff (h : Apart 0 spans stop) (hl : l.length = stop)
    (hparts : Fitting spans parts) :
    scatter spans parts l = l ↔ parts = gather l spans := by
  constructor
  · intro heq
    rw [← gather_scatter h hl hparts, heq]
  · rintro rfl
    exact scatter_gather h hl

theorem getElem?_scatter (h : Apart 0 spans stop) (hl : l.length = stop)
    (hparts : Fitting spans parts) {index : ℕ}
    (hindex : ∀ span ∈ spans, ¬ (span.1 ≤ index ∧ index < span.2)) :
    (scatter spans parts l)[index]? = l[index]? := by
  induction parts generalizing spans l stop index with
  | nil =>
      cases hparts
      rfl
  | cons new parts ih =>
      cases spans with
      | nil => rfl
      | cons span spans =>
          obtain ⟨head, part, after, rfl, hhead, hpart, hafter⟩ :=
            exists_parts h hl
          have hnew := (List.forall₂_cons.mp hparts).1
          obtain ⟨houtside, hrest⟩ := List.forall_mem_cons.mp hindex
          have hspan := h.2.1
          rw [scatter_cons hhead hpart hnew h]
          rcases Nat.lt_or_ge index span.1 with hlt | hge
          · have hbefore : index < head.length := by omega
            rw [List.append_assoc, List.append_assoc,
              List.getElem?_append_left hbefore,
              List.getElem?_append_left hbefore]
          · have hbeyond : span.2 ≤ index := by omega
            have hnewLength : (head ++ new).length = span.2 := by
              rw [List.length_append]
              omega
            have hpartLength : (head ++ part).length = span.2 := by
              rw [List.length_append]
              omega
            rw [List.getElem?_append_right (by omega),
              List.getElem?_append_right (by omega), hnewLength, hpartLength]
            refine ih h.tail hafter (hparts.tail h) ?_
            unfold General.seenFrom
            rw [List.forall_mem_map]
            intro other hother
            have := hrest other hother
            have := (h.2.2.mem hother).1
            dsimp only
            omega

end Parts

/-! ## Loops over parts -/

/-- Changes the part a span holds, in place. -/
def onSpan (f : σ → List α → σ × List α) (state : σ × List α)
    (span : ℕ × ℕ) : σ × List α :=
  let changed := f state.1 (stretch state.2 span.1 span.2)
  (changed.1, putAt span changed.2 state.2)

/-- Passes over a list with a state. -/
def thread (f : σ → α → σ × β) : σ → List α → σ × List β
  | state, [] => (state, [])
  | state, a :: l =>
      let now := f state a
      let later := thread f now.1 l
      (later.1, now.2 :: later.2)

section Loops

variable {f : σ → List α → σ × List α} {spans : List (ℕ × ℕ)}
  {parts : List (List α)} {l : List α} {state : σ} {stop : ℕ}

theorem fitting_thread (hparts : Fitting spans parts)
    (hf : ∀ state, ∀ part ∈ parts, (f state part).2.length = part.length) :
    Fitting spans (thread f state parts).2 := by
  unfold Fitting at hparts ⊢
  induction hparts generalizing state with
  | nil => exact .nil
  | cons hpart _ ih =>
      refine .cons ?_ (ih fun state part hmem =>
        hf state part (List.mem_cons_of_mem _ hmem))
      rw [hf state _ List.mem_cons_self]
      exact hpart

theorem foldl_onSpan_append {head after : List α} {n : ℕ}
    (hhead : head.length = n) (h : Apart n spans stop) :
    spans.foldl (onSpan f) (state, head ++ after) =
      (((seenFrom n spans).foldl (onSpan f) (state, after)).1,
        head ++ ((seenFrom n spans).foldl (onSpan f) (state, after)).2) := by
  have hkeep : ∀ {first : ℕ}, n ≤ first → Apart first spans stop →
      spans.foldl (onSpan f) (state, head ++ after) =
        (((seenFrom n spans).foldl (onSpan f) (state, after)).1,
          head ++ ((seenFrom n spans).foldl (onSpan f) (state, after)).2) := by
    clear h
    intro first hfirst h
    induction spans generalizing first state after with
    | nil => rfl
    | cons span spans ih =>
        obtain ⟨hspan, hle, hrest⟩ := h
        have hstart := hfirst.trans hspan
        have hstep : onSpan f (state, head ++ after) span =
            ((onSpan f (state, after) (span.1 - n, span.2 - n)).1,
              head ++ (onSpan f (state, after) (span.1 - n, span.2 - n)).2) := by
          dsimp only [onSpan]
          rw [stretch_append_of_le hhead hstart,
            putAt_append hhead hstart hle]
        rw [List.foldl_cons, hstep]
        exact ih (hstart.trans hle) hrest
  exact hkeep (Nat.le_refl n) h

/-- A loop over spans that changes their parts in place is a pass over the
parts, put back. -/
theorem foldl_onSpan (h : Apart 0 spans stop) (hl : l.length = stop)
    (hf : ∀ state, ∀ part ∈ gather l spans,
      (f state part).2.length = part.length) :
    spans.foldl (onSpan f) (state, l) =
      ((thread f state (gather l spans)).1,
        scatter spans (thread f state (gather l spans)).2 l) := by
  induction hcount : spans.length generalizing spans l state stop with
  | zero =>
      obtain rfl := List.length_eq_zero_iff.mp hcount
      rfl
  | succ count ih =>
      cases spans with
      | nil => cases hcount
      | cons span spans =>
          obtain ⟨head, part, after, rfl, hhead, hpart, hafter⟩ :=
            exists_parts h hl
          rw [gather_cons hhead hpart h] at hf ⊢
          obtain ⟨hnew, hrest⟩ := List.forall_mem_cons.mp
            fun part hmem state => hf state part hmem
          have hlength : (head ++ part).length = span.2 := by
            have hspan := h.2.1
            rw [List.length_append]
            omega
          have hstep : onSpan f (state, (head ++ part) ++ after) span =
              ((f state part).1, (head ++ (f state part).2) ++ after) := by
            dsimp only [onSpan, putAt]
            rw [stretch_middle hhead hpart h.2.1, ← hlength, List.drop_left,
              List.append_assoc head part after, ← hhead, List.take_left]
          have hnewLength : (head ++ (f state part).2).length = span.2 := by
            rw [List.length_append, hnew state, ← List.length_append, hlength]
          rw [List.foldl_cons, hstep, foldl_onSpan_append hnewLength h.2.2,
            ih h.tail hafter (fun state part hmem => hrest part hmem state) (by
              unfold seenFrom
              rw [List.length_map]
              exact Nat.succ.inj hcount)]
          dsimp only [thread]
          rw [scatter_cons hhead hpart ((hnew state).trans hpart) h]

theorem onSpan_append_right {part after : List α} {span : ℕ × ℕ}
    (hspan : span.1 ≤ span.2) (hstop : span.2 ≤ part.length) :
    onSpan f (state, part ++ after) span =
      ((onSpan f (state, part) span).1,
        (onSpan f (state, part) span).2 ++ after) := by
  have hstretch : stretch (part ++ after) span.1 span.2 =
      stretch part span.1 span.2 := by
    unfold stretch
    rw [List.take_append_of_le_length hstop]
  dsimp only [onSpan, putAt]
  rw [hstretch, List.take_append_of_le_length (by omega),
    List.drop_append_of_le_length hstop]
  simp only [List.append_assoc]

/-- The lengths of the parts of spans that a loop keeps. -/
def KeepsLengths (f : σ → List α → σ × List α) (spans : List (ℕ × ℕ)) :
    Prop :=
  ∀ state, ∀ span ∈ spans, ∀ part : List α,
    part.length = span.2 - span.1 → (f state part).2.length = part.length

theorem KeepsLengths.length_onSpan {span : ℕ × ℕ}
    (hf : KeepsLengths f spans) (hmem : span ∈ spans)
    (hspan : span.1 ≤ span.2) (hstop : span.2 ≤ l.length) :
    (onSpan f (state, l) span).2.length = l.length := by
  have hpart : (stretch l span.1 span.2).length = span.2 - span.1 := by
    rw [length_stretch]
    omega
  dsimp only [onSpan]
  exact length_putAt hspan hstop ((hf state span hmem _ hpart).trans hpart)

theorem foldl_onSpan_append_right {part after : List α} {first : ℕ}
    (h : Apart first spans part.length) (hf : KeepsLengths f spans) :
    spans.foldl (onSpan f) (state, part ++ after) =
        ((spans.foldl (onSpan f) (state, part)).1,
          (spans.foldl (onSpan f) (state, part)).2 ++ after) ∧
      (spans.foldl (onSpan f) (state, part)).2.length = part.length := by
  induction spans generalizing first state part with
  | nil => exact ⟨rfl, rfl⟩
  | cons span spans ih =>
      obtain ⟨-, hspan, hrest⟩ := h
      have hstop := hrest.le
      have hlength : (onSpan f (state, part) span).2.length = part.length :=
        hf.length_onSpan List.mem_cons_self hspan hstop
      rw [List.foldl_cons, List.foldl_cons,
        onSpan_append_right hspan hstop]
      have hlater := @ih (onSpan f (state, part) span).1
        (onSpan f (state, part) span).2 span.2 (hlength ▸ hrest)
        fun state other hother =>
          hf state other (List.mem_cons_of_mem span hother)
      exact ⟨hlater.1, hlater.2.trans hlength⟩

/-- A loop over the part of one span is a loop over the list. -/
theorem onSpan_foldl {inner : List (ℕ × ℕ)} {span : ℕ × ℕ}
    (h : Apart span.1 inner span.2) (hstop : span.2 ≤ l.length)
    (hf : KeepsLengths f inner) :
    onSpan (fun state part =>
        (seenFrom span.1 inner).foldl (onSpan f) (state, part))
        (state, l) span =
      inner.foldl (onSpan f) (state, l) := by
  have hspan := h.le
  obtain ⟨head, part, after, rfl, hhead, hpart, -⟩ :=
    @exists_parts _ [] l span l.length ⟨Nat.zero_le _, hspan, hstop⟩ rfl
  have hseen := h.seenFrom (Nat.le_refl span.1)
  rw [Nat.sub_self, ← hpart] at hseen
  have hkeeps : KeepsLengths f (seenFrom span.1 inner) := by
    intro state other hother part hlength
    obtain ⟨origin, hmem, rfl⟩ := List.mem_map.mp hother
    have hbounds := h.mem hmem
    exact hf state origin hmem part (by dsimp only at hlength; omega)
  have hlength : (head ++ part).length = span.2 := by
    rw [List.length_append]
    omega
  have hright := (@foldl_onSpan_append_right _ _ f (seenFrom span.1 inner)
    state part after 0 hseen hkeeps).1
  rw [List.append_assoc, foldl_onSpan_append hhead h, hright,
    ← List.append_assoc]
  dsimp only [onSpan, putAt]
  rw [stretch_middle hhead hpart hspan, ← hlength, List.drop_left,
    List.append_assoc head part after, ← hhead, List.take_left,
    List.append_assoc]

theorem foldl_onSpan_flatMap {body : σ → List α → σ × List α}
    {inner : ℕ × ℕ → List (ℕ × ℕ)} {first : ℕ}
    (h : Apart first spans l.length)
    (hinner : ∀ span ∈ spans, Apart span.1 (inner span) span.2)
    (hf : KeepsLengths f (spans.flatMap inner))
    (hbody : ∀ span ∈ spans, ∀ state part,
      part.length = span.2 - span.1 → body state part =
        (seenFrom span.1 (inner span)).foldl (onSpan f) (state, part)) :
    spans.foldl (onSpan body) (state, l) =
      (spans.flatMap inner).foldl (onSpan f) (state, l) := by
  induction spans generalizing first state l with
  | nil => rfl
  | cons span spans ih =>
      obtain ⟨-, hspan, hrest⟩ := h
      have hstop := hrest.le
      obtain ⟨hfirst, hothers⟩ := List.forall_mem_cons.mp hinner
      have hkeeps : KeepsLengths f (inner span) :=
        fun state other hother => hf state other
          (List.mem_flatMap.mpr ⟨span, List.mem_cons_self, hother⟩)
      have hpart : (stretch l span.1 span.2).length = span.2 - span.1 := by
        rw [length_stretch]
        omega
      have hstep : onSpan body (state, l) span =
          (inner span).foldl (onSpan f) (state, l) := by
        rw [← onSpan_foldl hfirst hstop hkeeps]
        dsimp only [onSpan]
        rw [hbody span List.mem_cons_self state _ hpart]
      have hlength : ((inner span).foldl (onSpan f) (state, l)).2.length =
          l.length := by
        have hall := hfirst.append (apart_nil.mpr hstop)
        rw [List.append_nil] at hall
        exact (@foldl_onSpan_append_right _ _ f (inner span) state l []
          span.1 hall hkeeps).2
      rw [List.foldl_cons, hstep, List.flatMap_cons, List.foldl_append]
      exact ih (hlength.symm ▸ hrest) hothers
        (fun state other hother => hf state other
          (List.mem_append_right _ hother))
        fun other hother => hbody other (List.mem_cons_of_mem span hother)

end Loops

end Segmentor.General
