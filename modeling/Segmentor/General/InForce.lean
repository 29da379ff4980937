import Mathlib.Data.List.Nodup
import Mathlib.Data.List.Induction
import Mathlib.Data.List.ReduceOption

/-!
# Settings in force

Settings come one after the other, each under a label.  A setting takes the
place of the one in force under its label, and the others stay.  A stage is a
block of settings, or ends all that are in force.  After a block, exactly its
own settings are in force if and only if it names every label that some block
since the last end has named.
-/

namespace Segmentor.General

variable {σ φ : Type*} [DecidableEq φ] {label : σ → φ}

/-- The settings in force once `setting` is read. -/
def supersede (label : σ → φ) (inForce : List σ) (setting : σ) : List σ :=
  (inForce.filter fun old => label old ≠ label setting) ++ [setting]

/-- What a block of settings leaves in force. -/
def overlay (label : σ → φ) (inForce block : List σ) : List σ :=
  (inForce.filter fun old => label old ∉ block.map label) ++ block

theorem foldl_supersede {inForce block : List σ}
    (hnodup : (block.map label).Nodup) :
    block.foldl (supersede label) inForce = overlay label inForce block := by
  induction block generalizing inForce with
  | nil => simp [overlay]
  | cons setting block ih =>
      rw [List.map_cons, List.nodup_cons] at hnodup
      have hkept : [setting].filter
          (fun old => label old ∉ block.map label) = [setting] := by
        simpa using hnodup.1
      have hboth : ∀ old ∈ inForce,
          (decide (label old ∉ block.map label) &&
            decide (label old ≠ label setting)) =
          decide (label old ∉ (setting :: block).map label) := by
        intro old _
        simp only [List.map_cons, List.mem_cons, not_or, ne_eq,
          Bool.decide_and]
        rw [Bool.and_comm]
      rw [List.foldl_cons, ih hnodup.2]
      unfold overlay supersede
      rw [List.filter_append, hkept, List.filter_filter,
        List.filter_congr hboth, List.append_assoc, List.singleton_append]

theorem mem_map_overlay {inForce block : List σ} {name : φ} :
    name ∈ (overlay label inForce block).map label ↔
      name ∈ inForce.map label ∨ name ∈ block.map label := by
  unfold overlay
  rw [List.map_append, List.mem_append]
  constructor
  · rintro (hmem | hmem)
    · obtain ⟨old, hold, rfl⟩ := List.mem_map.mp hmem
      exact Or.inl (List.mem_map_of_mem (List.mem_of_mem_filter hold))
    · exact Or.inr hmem
  · rintro (hmem | hmem)
    · by_cases hblock : name ∈ block.map label
      · exact Or.inr hblock
      · obtain ⟨old, hold, rfl⟩ := List.mem_map.mp hmem
        exact Or.inl (List.mem_map_of_mem
          (List.mem_filter.mpr ⟨hold, decide_eq_true hblock⟩))
    · exact Or.inr hmem

theorem overlay_eq_block_iff {inForce block : List σ} :
    overlay label inForce block = block ↔
      ∀ name ∈ inForce.map label, name ∈ block.map label := by
  unfold overlay
  rw [List.append_left_eq_self, List.filter_eq_nil_iff, List.forall_mem_map]
  simp only [decide_eq_true_eq, not_not]

/-- Reading the same block again changes nothing. -/
theorem overlay_overlay (inForce block : List σ) :
    overlay label (overlay label inForce block) block =
      overlay label inForce block := by
  have hblock : block.filter (fun old => label old ∉ block.map label) = [] := by
    rw [List.filter_eq_nil_iff]
    intro old hold
    simp only [decide_eq_true_eq, not_not]
    exact List.mem_map_of_mem hold
  unfold overlay
  rw [List.filter_append, List.filter_filter, hblock, List.append_nil]
  simp only [Bool.and_self]

/-! ## Stages -/

/-- What a stage leaves in force: `none` ends all that are. -/
def enterStage (label : σ → φ) (inForce : List σ) :
    Option (List σ) → List σ
  | some block => overlay label inForce block
  | none => []

def afterStages (label : σ → φ) (stages : List (Option (List σ))) : List σ :=
  stages.foldl (enterStage label) []

theorem afterStages_concat (stages : List (Option (List σ)))
    (stage : Option (List σ)) :
    afterStages label (stages ++ [stage]) =
      enterStage label (afterStages label stages) stage := by
  unfold afterStages
  rw [List.foldl_append]
  rfl

/-- The last entries that are there, the last first, up to one that is
not. -/
def standing {α : Type*} (l : List (Option α)) : List α :=
  (l.reverse.takeWhile Option.isSome).reduceOption

@[simp] theorem standing_nil {α : Type*} :
    standing ([] : List (Option α)) = [] := rfl

@[simp] theorem standing_concat_none {α : Type*} (l : List (Option α)) :
    standing (l ++ [none]) = [] := by
  simp [standing, List.reduceOption]

@[simp] theorem standing_concat_some {α : Type*} (l : List (Option α))
    (last : α) : standing (l ++ [some last]) = last :: standing l := by
  simp [standing, List.reduceOption]

theorem standing_map {α β : Type*} (f : α → β) (l : List (Option α)) :
    standing (l.map (Option.map f)) = (standing l).map f := by
  induction l using List.reverseRecOn with
  | nil => rfl
  | append_singleton l entry ih =>
      rw [List.map_append, List.map_singleton]
      cases entry with
      | none => simp
      | some last => simp [ih]

theorem mem_map_afterStages {stages : List (Option (List σ))} {name : φ} :
    name ∈ (afterStages label stages).map label ↔
      ∃ block ∈ standing stages, name ∈ block.map label := by
  induction stages using List.reverseRecOn with
  | nil => simp [afterStages]
  | append_singleton stages stage ih =>
      rw [afterStages_concat]
      cases stage with
      | none => simp [enterStage]
      | some last =>
          rw [enterStage, mem_map_overlay, ih, standing_concat_some,
            List.exists_mem_cons_iff, or_comm]

/-- The settings in force are those of the blocks still standing whose label
no later one of these blocks names. -/
theorem mem_afterStages {stages : List (Option (List σ))} {setting : σ} :
    setting ∈ afterStages label stages ↔
      ∃ newer block older, standing stages = newer ++ block :: older ∧
        setting ∈ block ∧ ∀ later ∈ newer, label setting ∉ later.map label := by
  induction stages using List.reverseRecOn with
  | nil => simp [afterStages]
  | append_singleton stages stage ih =>
      rw [afterStages_concat]
      cases stage with
      | none => simp [enterStage]
      | some last =>
          rw [enterStage, overlay, List.mem_append, List.mem_filter,
            standing_concat_some, ih, decide_eq_true_eq]
          constructor
          · rintro (⟨⟨newer, block, older, hstanding, hmem, hnewer⟩, hlast⟩ |
              hmem)
            · refine ⟨last :: newer, block, older, by rw [hstanding]; rfl, hmem,
                ?_⟩
              exact List.forall_mem_cons.mpr ⟨hlast, hnewer⟩
            · exact ⟨[], last, standing stages, rfl, hmem, by simp⟩
          · rintro ⟨newer, block, older, hstanding, hmem, hnewer⟩
            cases newer with
            | nil =>
                obtain ⟨rfl, -⟩ := List.cons.inj hstanding
                exact Or.inr hmem
            | cons first newer =>
                obtain ⟨rfl, hrest⟩ := List.cons.inj hstanding
                obtain ⟨hlast, hnewer⟩ := List.forall_mem_cons.mp hnewer
                exact Or.inl
                  ⟨⟨newer, block, older, hrest, hmem, hnewer⟩, hlast⟩

/-- Exactly a block's own settings are in force after it if and only if it
names every label of the blocks still standing before it. -/
theorem afterStages_concat_eq_iff {stages : List (Option (List σ))}
    {block : List σ} :
    afterStages label (stages ++ [some block]) = block ↔
      ∀ earlier ∈ standing stages,
        ∀ name ∈ earlier.map label, name ∈ block.map label := by
  rw [afterStages_concat, enterStage, overlay_eq_block_iff]
  simp only [mem_map_afterStages]
  constructor
  · intro h earlier hearlier name hname
    exact h name ⟨earlier, hearlier, hname⟩
  · rintro h name ⟨earlier, hearlier, hname⟩
    exact h earlier hearlier name hname

/-- Reading a stage again changes nothing. -/
theorem enterStage_enterStage (inForce : List σ) (stage : Option (List σ)) :
    enterStage label (enterStage label inForce stage) stage =
      enterStage label inForce stage := by
  cases stage with
  | none => rfl
  | some block => exact overlay_overlay inForce block

/-! ## What the items of each stage see -/

variable {α β : Type*} {stage : β → Option (List σ)} {items : β → List α}

/-- The items of each stage, each with the settings in force. -/
def itemsOfStages (label : σ → φ) (stage : β → Option (List σ))
    (items : β → List α) (inForce : List σ) : List β → List (α × List σ)
  | [] => []
  | entry :: rest =>
      ((items entry).map fun item =>
        (item, enterStage label inForce (stage entry))) ++
        itemsOfStages label stage items
          (enterStage label inForce (stage entry)) rest

theorem map_afterStages_concat_eq_iff {before : List (Option (List σ))}
    {entry : β} :
    ((items entry).map fun item =>
        (item, afterStages label (before ++ [stage entry]))) =
      ((items entry).map fun item => (item, (stage entry).getD [])) ↔
      ∀ block, stage entry = some block → items entry ≠ [] →
        ∀ earlier ∈ standing before,
          ∀ name ∈ earlier.map label, name ∈ block.map label := by
  cases stage entry with
  | none => simp [afterStages_concat, enterStage]
  | some block =>
      rw [Option.getD_some, List.map_inj_left]
      simp only [Prod.mk.injEq, true_and, Option.some.injEq, forall_eq',
        afterStages_concat_eq_iff]
      constructor
      · intro h hitems
        obtain ⟨item, hitem⟩ := List.exists_mem_of_ne_nil _ hitems
        exact h item hitem
      · intro h item hitem
        exact h (List.ne_nil_of_mem hitem)

/-- Each item sees exactly its own stage's settings if and only if every stage
that has items names each label of the blocks still standing before it. -/
theorem itemsOfStages_eq_iff {before : List (Option (List σ))}
    {entries : List β} :
    itemsOfStages label stage items (afterStages label before) entries =
        entries.flatMap (fun entry =>
          (items entry).map fun item => (item, (stage entry).getD [])) ↔
      ∀ pre entry post, entries = pre ++ entry :: post →
        ∀ block, stage entry = some block → items entry ≠ [] →
          ∀ earlier ∈ standing (before ++ pre.map stage),
            ∀ name ∈ earlier.map label, name ∈ block.map label := by
  induction entries generalizing before with
  | nil =>
      refine iff_of_true rfl fun pre entry post hentries => ?_
      simp at hentries
  | cons first rest ih =>
      rw [itemsOfStages, List.flatMap_cons, ← afterStages_concat]
      constructor
      · intro h pre entry post hentries
        obtain ⟨hhead, htail⟩ := List.append_inj h (by simp)
        cases pre with
        | nil =>
            obtain ⟨rfl, -⟩ := List.cons.inj hentries
            rw [List.map_nil, List.append_nil]
            exact map_afterStages_concat_eq_iff.mp hhead
        | cons earliest pre =>
            obtain ⟨rfl, hrest⟩ := List.cons.inj hentries
            rw [List.map_cons, ← List.singleton_append, ← List.append_assoc]
            exact ih.mp htail pre entry post hrest
      · intro h
        have hhead := map_afterStages_concat_eq_iff.mpr (by
          have hfirst := h [] first rest rfl
          rwa [List.map_nil, List.append_nil] at hfirst)
        have htail := ih.mpr fun pre entry post hrest => by
          have hlater := h (first :: pre) entry post (by rw [hrest]; rfl)
          rwa [List.map_cons, ← List.singleton_append,
            ← List.append_assoc] at hlater
        rw [hhead, htail]

end Segmentor.General
