import Mathlib.Data.List.Basic
import Mathlib.Data.List.Infix
import Mathlib.Data.List.Forall2

/-!
# Texts and their pieces

A text split at the first place a needle stands, and a text cut into lines,
each with the element that ends it.  Lines can be changed one by one: two
texts cut at the same ends are the same exactly where all their lines are.
-/

namespace Segmentor.General

variable {α : Type*} [DecidableEq α]

/-! ## The first place of a needle -/

/-- What is before and after the first place of `needle`. -/
def splitOnce (needle : List α) : List α → Option (List α × List α)
  | [] => if needle = [] then some ([], []) else none
  | a :: as =>
      if needle.isPrefixOf (a :: as) then
        some ([], (a :: as).drop needle.length)
      else (splitOnce needle as).map fun parts => (a :: parts.1, parts.2)

/-- What is before and after the first element that satisfies `p`. -/
def splitAtFirst (p : α → Bool) : List α → Option (List α × List α)
  | [] => none
  | a :: as =>
      if p a then some ([], as)
      else (splitAtFirst p as).map fun parts => (a :: parts.1, parts.2)

omit [DecidableEq α] in
theorem splitAtFirst_append {p : α → Bool} {before after : List α} {a : α}
    (hbefore : ∀ b ∈ before, p b = false) (ha : p a = true) :
    splitAtFirst p (before ++ a :: after) = some (before, after) := by
  induction before with
  | nil => simp [splitAtFirst, ha]
  | cons b before ih =>
      obtain ⟨hb, hrest⟩ := List.forall_mem_cons.mp hbefore
      rw [List.cons_append, splitAtFirst, if_neg (by simp [hb]), ih hrest]
      rfl

omit [DecidableEq α] in
theorem splitAtFirst_eq_some_iff {p : α → Bool} {text before after : List α} :
    splitAtFirst p text = some (before, after) ↔
      (∀ b ∈ before, p b = false) ∧
        ∃ a, p a = true ∧ text = before ++ a :: after := by
  constructor
  · intro h
    induction text generalizing before with
    | nil => cases h
    | cons a as ih =>
        unfold splitAtFirst at h
        split at h
        · next ha =>
            cases h
            exact ⟨by simp, a, ha, rfl⟩
        · next ha =>
            obtain ⟨⟨front, back⟩, hrest, hparts⟩ :=
              Option.map_eq_some_iff.mp h
            cases hparts
            obtain ⟨hfront, b, hb, rfl⟩ := ih hrest
            have ha : p a = false := by simpa using ha
            exact ⟨List.forall_mem_cons.mpr ⟨ha, hfront⟩, b, hb, rfl⟩
  · rintro ⟨hbefore, a, ha, rfl⟩
    exact splitAtFirst_append hbefore ha

omit [DecidableEq α] in
theorem splitAtFirst_eq_none_iff {p : α → Bool} {text : List α} :
    splitAtFirst p text = none ↔ ∀ a ∈ text, p a = false := by
  induction text with
  | nil => simp [splitAtFirst]
  | cons a as ih =>
      rw [splitAtFirst, List.forall_mem_cons]
      cases p a with
      | true => simp
      | false => simp [ih]

omit [DecidableEq α] in
theorem splitAtFirst_eq_some {p : α → Bool} {text before after : List α}
    (h : splitAtFirst p text = some (before, after)) :
    ∃ a, text = before ++ a :: after := by
  obtain ⟨-, a, -, htext⟩ := splitAtFirst_eq_some_iff.mp h
  exact ⟨a, htext⟩

theorem splitOnce_append {a : α} {needle before after : List α}
    (hbefore : a ∉ before) :
    splitOnce (a :: needle) (before ++ (a :: needle ++ after)) =
      some (before, after) := by
  induction before with
  | nil =>
      rw [List.nil_append, List.cons_append, splitOnce, if_pos (by simp)]
      simp
  | cons b before ih =>
      obtain ⟨hb, hrest⟩ := List.ne_and_not_mem_of_not_mem_cons hbefore
      rw [List.cons_append, splitOnce, if_neg (by simp [hb]), ih hrest]
      rfl

theorem splitOnce_eq_some {needle text before after : List α}
    (h : splitOnce needle text = some (before, after)) :
    text = before ++ needle ++ after := by
  induction text generalizing before with
  | nil =>
      unfold splitOnce at h
      split at h
      · next hneedle =>
          cases h
          simp [hneedle]
      · cases h
  | cons a as ih =>
      unfold splitOnce at h
      split at h
      · next hprefix =>
          cases h
          obtain ⟨after, hafter⟩ := List.isPrefixOf_iff_prefix.mp hprefix
          rw [List.nil_append, ← hafter]
          simp
      · obtain ⟨⟨front, back⟩, hrest, hparts⟩ := Option.map_eq_some_iff.mp h
        cases hparts
        rw [ih hrest]
        rfl

theorem not_mem_of_mem_splitOn {a : α} {text : List α} :
    ∀ piece ∈ text.splitOn a, a ∉ piece := by
  induction text with
  | nil => simp
  | cons b text ih =>
      rw [List.splitOn_cons_eq_if_modifyHead]
      split
      · exact List.forall_mem_cons.mpr ⟨by simp, ih⟩
      · next hb =>
          have hb : a ≠ b := by
            rintro rfl
            exact hb (BEq.refl a)
          cases hsplit : text.splitOn a with
          | nil => exact absurd hsplit (List.splitOn_ne_nil a text)
          | cons piece pieces =>
              rw [hsplit] at ih
              obtain ⟨hpiece, hpieces⟩ := List.forall_mem_cons.mp ih
              exact List.forall_mem_cons.mpr
                ⟨List.not_mem_cons_of_ne_of_not_mem hb hpiece, hpieces⟩

/-! ## Lines -/

/-- One line of a text, and what ends it: nothing, at the end of the text. -/
structure Line (α : Type*) where
  content : List α
  terminator : List α

def Line.text (line : Line α) : List α :=
  line.content ++ line.terminator

/-- The lines of a text, where `ends` says which elements end one. -/
def linesAt (ends : α → Bool) : List α → List (Line α)
  | [] => []
  | a :: as =>
      if ends a then ⟨[], [a]⟩ :: linesAt ends as
      else
        match linesAt ends as with
        | [] => [⟨[a], []⟩]
        | line :: lines => ⟨a :: line.content, line.terminator⟩ :: lines

variable {ends : α → Bool}

omit [DecidableEq α] in
theorem flatMap_text_linesAt (ends : α → Bool) (text : List α) :
    (linesAt ends text).flatMap Line.text = text := by
  induction text with
  | nil => rfl
  | cons a as ih =>
      unfold linesAt
      split
      · rw [List.flatMap_cons, ih]
        rfl
      · cases hlines : linesAt ends as with
        | nil =>
            rw [hlines] at ih
            rw [← ih]
            rfl
        | cons line lines =>
            rw [hlines] at ih
            rw [← ih]
            rfl

omit [DecidableEq α] in
theorem text_ne_nil_of_mem_linesAt {text : List α} :
    ∀ line ∈ linesAt ends text, line.text ≠ [] := by
  induction text with
  | nil => simp [linesAt]
  | cons a as ih =>
      unfold linesAt
      split
      · exact List.forall_mem_cons.mpr ⟨by simp [Line.text], ih⟩
      · split
        · simp [Line.text]
        · next line lines hlines =>
            rw [hlines] at ih
            exact List.forall_mem_cons.mpr
              ⟨by simp [Line.text], (List.forall_mem_cons.mp ih).2⟩

omit [DecidableEq α] in
theorem linesAt_cons {a : α} (as : List α) (ha : ends a = false) :
    ∃ content terminator others,
      linesAt ends (a :: as) = ⟨a :: content, terminator⟩ :: others ∧
        (as ≠ [] → linesAt ends as = ⟨content, terminator⟩ :: others) := by
  rw [linesAt, if_neg (by simp [ha])]
  cases hlines : linesAt ends as with
  | nil =>
      have hnil := flatMap_text_linesAt ends as
      rw [hlines] at hnil
      exact ⟨[], [], [], rfl, fun hne => absurd hnil.symm hne⟩
  | cons line others => exact ⟨_, _, _, rfl, fun _ => rfl⟩

omit [DecidableEq α] in
/-- A text cut where its first line ends. -/
theorem linesAt_append_end {content : List α} {a : α} (rest : List α)
    (hcontent : ∀ b ∈ content, ends b = false) (ha : ends a = true) :
    linesAt ends (content ++ a :: rest) =
      ⟨content, [a]⟩ :: linesAt ends rest := by
  induction content with
  | nil => rw [List.nil_append, linesAt, if_pos ha]
  | cons b content ih =>
      obtain ⟨hb, hcontent⟩ := List.forall_mem_cons.mp hcontent
      rw [List.cons_append, linesAt, if_neg (by simp [hb]), ih hcontent]

omit [DecidableEq α] in
theorem linesAt_of_free {content : List α} (hne : content ≠ [])
    (hcontent : ∀ b ∈ content, ends b = false) :
    linesAt ends content = [⟨content, []⟩] := by
  induction content with
  | nil => exact absurd rfl hne
  | cons b content ih =>
      obtain ⟨hb, hcontent⟩ := List.forall_mem_cons.mp hcontent
      rw [linesAt, if_neg (by simp [hb])]
      cases content with
      | nil => rfl
      | cons c content => rw [ih (List.cons_ne_nil c content) hcontent]

/-- Every line but the last ends with an element that ends one, and holds no
other. -/
inductive WellCut (ends : α → Bool) : List (Line α) → Prop
  | nil : WellCut ends []
  | last {content : List α} (hcontent : ∀ a ∈ content, ends a = false) :
      WellCut ends [⟨content, []⟩]
  | cons {content : List α} {a : α} {lines : List (Line α)}
      (hcontent : ∀ a ∈ content, ends a = false) (ha : ends a = true)
      (hlines : WellCut ends lines) :
      WellCut ends (⟨content, [a]⟩ :: lines)

omit [DecidableEq α] in
theorem wellCut_linesAt (ends : α → Bool) (text : List α) :
    WellCut ends (linesAt ends text) := by
  induction text with
  | nil => exact .nil
  | cons a as ih =>
      unfold linesAt
      split
      · next ha => exact .cons (by simp) ha ih
      · next ha =>
          have ha : ends a = false := by simpa using ha
          generalize linesAt ends as = lines at ih ⊢
          cases ih with
          | nil => exact .last (by simpa using ha)
          | last hcontent =>
              exact .last (List.forall_mem_cons.mpr ⟨ha, hcontent⟩)
          | cons hcontent hb hlines =>
              exact .cons (List.forall_mem_cons.mpr ⟨ha, hcontent⟩) hb hlines

omit [DecidableEq α] in
/-- Lines put together are cut apart again, where none is empty. -/
theorem WellCut.linesAt_text {lines : List (Line α)} (h : WellCut ends lines)
    (hne : ∀ line ∈ lines, line.text ≠ []) :
    linesAt ends (lines.flatMap Line.text) = lines := by
  induction h with
  | nil => rfl
  | @last content hcontent =>
      have hne := hne ⟨content, []⟩ (List.mem_singleton.mpr rfl)
      simp only [Line.text, List.append_nil] at hne
      simpa [Line.text] using linesAt_of_free hne hcontent
  | @cons content a lines hcontent ha hlines ih =>
      rw [List.flatMap_cons, Line.text, List.append_assoc,
        List.singleton_append, linesAt_append_end _ hcontent ha,
        ih (List.forall_mem_cons.mp hne).2]

omit [DecidableEq α] in
theorem WellCut.eq_of_text_eq {lines others : List (Line α)}
    (h : WellCut ends lines) (hothers : WellCut ends others)
    (hends : List.Forall₂ (fun line other => line.terminator =
      other.terminator) lines others)
    (htext : lines.flatMap Line.text = others.flatMap Line.text) :
    lines = others := by
  induction h generalizing others with
  | nil =>
      cases hends
      rfl
  | last hcontent =>
      obtain ⟨⟨content, terminator⟩, rest, hend, hrest, rfl⟩ :=
        List.forall₂_cons_left_iff.mp hends
      cases hrest
      obtain rfl : [] = terminator := hend
      simpa [Line.text] using htext
  | @cons content a lines hcontent ha hlines ih =>
      obtain ⟨⟨other, terminator⟩, rest, hend, hrest, rfl⟩ :=
        List.forall₂_cons_left_iff.mp hends
      obtain rfl : [a] = terminator := hend
      cases hothers with
      | cons hother _ hothers =>
          have hleft := @splitAtFirst_append _ ends _
            (lines.flatMap Line.text) _ hcontent ha
          have hright := @splitAtFirst_append _ ends _
            (rest.flatMap Line.text) _ hother ha
          have hsame : content ++ a :: lines.flatMap Line.text =
              other ++ a :: rest.flatMap Line.text := by
            simpa [Line.text] using htext
          rw [hsame, hright] at hleft
          obtain ⟨rfl, hlater⟩ := Prod.mk.inj (Option.some.inj hleft)
          rw [ih hothers hrest hlater.symm]

end Segmentor.General
