import Segmentor.HardExpiry

/-!
# Loaded assets and the answers held

A loaded asset is served while the answer it was loaded from agrees with the
one the registry holds.  A new answer is compared with the one it replaces;
where that one was evicted, nothing is compared.
-/

namespace Segmentor

open General

variable {Value : Type}

/-! ## What is loaded -/

namespace LoadedCache

/-- An asset is loaded under an id and a version. -/
def Has (cache : LoadedCache Value) (id version : Text)
    (asset : LoadedAsset Value) : Prop :=
  ∃ entry ∈ cache.entries, entry.1 = (id, version) ∧ entry.2.asset = asset

variable {cache : LoadedCache Value} {id version : Text}
  {asset : LoadedAsset Value}

theorem has_of_find (h : cache.find id version = some asset) :
    cache.Has id version asset := by
  obtain ⟨entry, hentry, rfl⟩ := Option.map_eq_some_iff.mp h
  exact ⟨_, Table.mem_of_get hentry, rfl, rfl⟩

theorem has_touch (other otherVersion : Text) :
    ∀ id version asset,
      (cache.touch other otherVersion).Has id version asset →
      cache.Has id version asset := by
  intro id version asset h
  obtain ⟨entry, hentry, hkey, hasset⟩ := h
  obtain ⟨old, hold, rfl⟩ := List.mem_map.mp hentry
  refine ⟨old, hold, ?_⟩
  split at hkey
  · next htouched =>
      rw [if_pos htouched] at hasset
      exact ⟨hkey, hasset⟩
  · next htouched =>
      rw [if_neg htouched] at hasset
      exact ⟨hkey, hasset⟩

theorem has_retainOnly {other : Text} {keep : Option Text}
    (h : (cache.retainOnly other keep).Has id version asset) :
    cache.Has id version asset ∧ (id = other → keep = some version) := by
  obtain ⟨entry, hentry, hkey, hasset⟩ := h
  obtain ⟨hold, hkept⟩ := List.mem_filter.mp hentry
  refine ⟨⟨entry, hold, hkey, hasset⟩, ?_⟩
  rintro rfl
  rw [hkey] at hkept
  simp only [beq_self_eq_true, Bool.true_and, Bool.not_eq_true',
    bne_eq_false_iff_eq] at hkept
  exact hkept.symm

theorem remove_entries_subset (key : Text × Text) :
    (cache.remove key).entries ⊆ cache.entries := by
  unfold remove
  split
  · exact List.filter_subset_self _
  · exact List.Subset.refl _

theorem makeRoom_entries_subset (budget weight count : ℕ) :
    (makeRoom budget weight count cache).entries ⊆ cache.entries := by
  induction count generalizing cache with
  | zero => exact List.Subset.refl _
  | succ count ih =>
      unfold makeRoom
      split
      · split
        · next oldest _ =>
            exact List.Subset.trans ih (remove_entries_subset oldest.1)
        · exact List.Subset.refl _
      · exact List.Subset.refl _

theorem has_insert {budget : ℕ} {other otherVersion : Text}
    {inserted : LoadedAsset Value}
    (h : (cache.insert budget other otherVersion inserted).Has id version
      asset) :
    (id = other ∧ version = otherVersion ∧ asset = inserted) ∨
      cache.Has id version asset := by
  unfold insert at h
  split at h
  · exact .inr h
  · obtain ⟨entry, hentry, hkey, hasset⟩ := h
    rcases Table.mem_put.mp hentry with rfl | ⟨hold, -⟩
    · obtain ⟨rfl, rfl⟩ := Prod.mk.inj hkey
      exact .inl ⟨rfl, rfl, hasset.symm⟩
    · have hroom := makeRoom_entries_subset _ _ _ hold
      have hused := remove_entries_subset (other, otherVersion) hroom
      exact .inr ⟨entry, hused, hkey, hasset⟩

end LoadedCache

/-! ## What a task stands for -/

/-- The answer a task has taken from the table, or has compared what is
loaded with. -/
def RegistryTask.standsFor : RegistryTask Value → Option (Answer Value)
  | .begun _ => none
  | .asking _ known => known
  | .answered _ known _ _ => known
  | .refreshing old => some old
  | .refreshed old _ _ => some old
  | .storing _ answer _ _ => some answer
  | .forgetting => none
  | .resolved answer => some answer
  | .loading answer => some answer

/-- The task found no answer in the table. -/
def RegistryTask.KnowsNone : RegistryTask Value → Prop
  | .asking _ known => known = none
  | .answered _ known _ _ => known = none
  | _ => False

/-- The answer a task loads. -/
def RegistryTask.loads : RegistryTask Value → Option (Answer Value)
  | .resolved answer => some answer
  | .loading answer => some answer
  | _ => none

namespace AssetRegistry

/-- The registry holds an answer for an id. -/
def Holds (registry : AssetRegistry Value) (id : Text)
    (answer : Answer Value) : Prop :=
  ∃ fetchedAt backoffUntil,
    (id, Slot.found answer fetchedAt backoffUntil) ∈ registry.resolutions

/-- A lookup is about to fetch a version of an asset. -/
def Chosen (registry : AssetRegistry Value) (id version : Text) : Prop :=
  ∃ caller now answer,
    registry.lookups caller = some (.chosen id now answer) ∧
      answer.version = version

/-- What is loaded of an id agrees with an answer, as far as a version can
still be asked for. -/
def LoadedAgrees (registry : AssetRegistry Value) (id : Text)
    (answer : Answer Value) : Prop :=
  ∀ version asset, registry.loaded.Has id version asset →
    version = answer.version ∨ registry.Chosen id version ∨
      (∃ held, registry.Holds id held ∧ held.version = version) →
    asset.answer.Agrees answer

structure Current (registry : AssetRegistry Value) : Prop where
  ids : (registry.resolutions.map Prod.fst).Nodup
  slots : ∀ id answer, registry.Holds id answer →
    registry.LoadedAgrees id answer
  tasks : ∀ id task answer, registry.tasks id = some task →
    task.standsFor = some answer → registry.LoadedAgrees id answer
  unknown : ∀ id task answer, registry.tasks id = some task →
    task.KnowsNone → ¬ registry.Holds id answer
  loads : ∀ id task answer held, registry.tasks id = some task →
    task.loads = some answer → registry.Holds id held → answer.Agrees held

theorem current_initial (clock : ℕ) :
    (initial clock : AssetRegistry Value).Current where
  ids := List.nodup_nil
  slots := by
    rintro id answer ⟨fetchedAt, backoffUntil, h⟩
    cases h
  tasks := by
    intro id task answer h
    cases h
  unknown := by
    intro id task answer h
    cases h
  loads := by
    intro id task answer held h
    cases h

variable {registry next : AssetRegistry Value} {settings : RegistrySettings}

theorem Current.holds_unique (hcurrent : registry.Current) {id : Text}
    {a b : Answer Value} (ha : registry.Holds id a)
    (hb : registry.Holds id b) : a = b := by
  obtain ⟨fetchedA, backoffA, ha⟩ := ha
  obtain ⟨fetchedB, backoffB, hb⟩ := hb
  have hsame := List.inj_on_of_nodup_map hcurrent.ids ha hb rfl
  exact (Slot.found.inj (Prod.mk.inj hsame).2).1

theorem holds_of_knownAnswer {id : Text} {answer : Answer Value}
    (h : registry.knownAnswer id = some answer) :
    registry.Holds id answer := by
  unfold knownAnswer at h
  split at h
  · next fetchedAt backoffUntil hslot =>
      obtain rfl := Option.some.inj h
      exact ⟨fetchedAt, backoffUntil, Table.mem_of_get hslot⟩
  · cases h

theorem holds_of_readSlot {id : Text} {now : ℕ} {answer : Answer Value}
    (h : registry.readSlot settings id now = some answer) :
    registry.Holds id answer := by
  unfold readSlot at h
  split at h
  · next fetchedAt backoffUntil hslot =>
      dsimp only at h
      split at h
      · obtain rfl := Option.some.inj h
        exact ⟨fetchedAt, backoffUntil, Table.mem_of_get hslot⟩
      · cases h
  · cases h

theorem knownAnswer_eq_none (hids : (registry.resolutions.map Prod.fst).Nodup)
    {id : Text} (h : registry.knownAnswer id = none)
    (answer : Answer Value) : ¬ registry.Holds id answer := by
  rintro ⟨fetchedAt, backoffUntil, hslot⟩
  unfold knownAnswer at h
  rw [Table.get_of_mem hids hslot] at h
  cases h

/-- A state in which nothing is held, loaded or chosen anew, and no task has
gone further. -/
structure Fewer (registry next : AssetRegistry Value) : Prop where
  ids : (next.resolutions.map Prod.fst).Nodup
  holds : ∀ id answer, next.Holds id answer → registry.Holds id answer
  has : ∀ id version asset, next.loaded.Has id version asset →
    registry.loaded.Has id version asset
  chosen : ∀ id version, next.Chosen id version →
    registry.Chosen id version ∨
      ∃ held, registry.Holds id held ∧ held.version = version
  tasks : ∀ id task, next.tasks id = some task →
    registry.tasks id = some task

theorem LoadedAgrees.fewer {id : Text} {answer : Answer Value}
    (h : registry.LoadedAgrees id answer) (hfewer : registry.Fewer next) :
    next.LoadedAgrees id answer := by
  intro version asset hhas hasked
  apply h version asset (hfewer.has id version asset hhas)
  rcases hasked with hversion | hchosen | ⟨held, hheld, hversion⟩
  · exact .inl hversion
  · exact .inr (hfewer.chosen id version hchosen)
  · exact .inr (.inr ⟨held, hfewer.holds id held hheld, hversion⟩)

theorem Current.fewer (hcurrent : registry.Current)
    (hfewer : registry.Fewer next) : next.Current where
  ids := hfewer.ids
  slots := fun id answer hholds =>
    (hcurrent.slots id answer (hfewer.holds id answer hholds)).fewer hfewer
  tasks := fun id task answer htask hstands =>
    (hcurrent.tasks id task answer (hfewer.tasks id task htask) hstands).fewer
      hfewer
  unknown := fun id task answer htask hnone hholds =>
    hcurrent.unknown id task answer (hfewer.tasks id task htask) hnone
      (hfewer.holds id answer hholds)
  loads := fun id task answer held htask hloads hholds =>
    hcurrent.loads id task answer held (hfewer.tasks id task htask) hloads
      (hfewer.holds id held hholds)

/-- What a task may go on as. -/
structure TaskFits (registry : AssetRegistry Value) (id : Text)
    (task : RegistryTask Value) : Prop where
  agrees : ∀ answer, task.standsFor = some answer →
    registry.LoadedAgrees id answer
  unknown : ∀ answer, task.KnowsNone → ¬ registry.Holds id answer
  loads : ∀ answer held, task.loads = some answer →
    registry.Holds id held → answer.Agrees held

theorem Current.setTask (hcurrent : registry.Current) (id : Text)
    {task : Option (RegistryTask Value)}
    (htask : ∀ set, task = some set → registry.TaskFits id set) :
    (registry.setTask id task).Current := by
  have hcases : ∀ other set, (registry.setTask id task).tasks other =
      some set → (registry.tasks other = some set) ∨
        (other = id ∧ registry.TaskFits id set) := by
    intro other set hset
    change Function.update registry.tasks id task other = some set at hset
    rcases eq_or_ne other id with rfl | hother
    · rw [Function.update_self] at hset
      exact .inr ⟨rfl, htask set hset⟩
    · rw [Function.update_of_ne hother] at hset
      exact .inl hset
  refine ⟨hcurrent.ids, hcurrent.slots, ?_, ?_, ?_⟩
  · intro other set answer hset hstands
    rcases hcases other set hset with hold | ⟨rfl, hfits⟩
    · exact hcurrent.tasks other set answer hold hstands
    · exact hfits.agrees answer hstands
  · intro other set answer hset hnone
    rcases hcases other set hset with hold | ⟨rfl, hfits⟩
    · exact hcurrent.unknown other set answer hold hnone
    · exact hfits.unknown answer hnone
  · intro other set answer held hset hloads
    rcases hcases other set hset with hold | ⟨rfl, hfits⟩
    · exact hcurrent.loads other set answer held hold hloads
    · exact hfits.loads answer held hloads

theorem Current.taskFits (hcurrent : registry.Current) {id : Text}
    {task : RegistryTask Value} (htask : registry.tasks id = some task) :
    registry.TaskFits id task where
  agrees := fun answer => hcurrent.tasks id task answer htask
  unknown := fun answer => hcurrent.unknown id task answer htask
  loads := fun answer held => hcurrent.loads id task answer held htask

theorem Current.endTask (hcurrent : registry.Current) (id : Text) :
    (registry.setTask id none).Current := by
  apply hcurrent.setTask
  intro set hset
  cases hset

/-! ## Slots -/

theorem nodup_makeRoom (hids : (registry.resolutions.map Prod.fst).Nodup)
    (id victim : Text) :
    ((registry.makeRoom settings id victim).map Prod.fst).Nodup := by
  unfold makeRoom
  split
  · dsimp only
    split
    · split
      · exact hids.sublist
          ((List.filter_sublist.trans List.filter_sublist).map _)
      · exact hids.sublist
          (((List.tail_sublist _).trans List.filter_sublist).map _)
    · exact hids.sublist (List.filter_sublist.map _)
  · exact hids

theorem nodup_putSlot (hids : (registry.resolutions.map Prod.fst).Nodup)
    (id victim : Text) (slot : Slot Value) :
    ((registry.putSlot settings id victim slot).resolutions.map
      Prod.fst).Nodup :=
  Table.nodup_put (nodup_makeRoom hids id victim) id slot

theorem holds_putSlot {id victim other : Text} {slot : Slot Value}
    {answer : Answer Value}
    (h : (registry.putSlot settings id victim slot).Holds other answer) :
    (other = id ∧ ∃ fetchedAt backoffUntil,
        slot = .found answer fetchedAt backoffUntil) ∨
      other ≠ id ∧ registry.Holds other answer := by
  obtain ⟨fetchedAt, backoffUntil, hentry⟩ := h
  rcases mem_putSlot hentry with hnew | ⟨hold, hother⟩
  · obtain ⟨rfl, rfl⟩ := Prod.mk.inj hnew
    exact .inl ⟨rfl, fetchedAt, backoffUntil, rfl⟩
  · exact .inr ⟨hother, fetchedAt, backoffUntil, hold⟩

theorem Current.withRest (hcurrent : registry.Current) (clock : ℕ)
    (failures : List (Text × ℕ × RegistryError)) {loaded : LoadedCache Value}
    (hhas : ∀ id version asset, loaded.Has id version asset →
      registry.loaded.Has id version asset) :
    ({ registry with
      clock := clock, failures := failures, loaded := loaded }).Current := by
  apply hcurrent.fewer
  exact ⟨hcurrent.ids, fun _ _ h => h, hhas, fun _ _ h => .inl h,
    fun _ _ h => h⟩

theorem Current.rememberFailure (hcurrent : registry.Current) (id : Text)
    (error : RegistryError) :
    (registry.rememberFailure settings id error).Current := by
  obtain ⟨failures, heq⟩ := rememberFailure_eq registry settings id error
  rw [heq]
  exact hcurrent.withRest _ failures fun _ _ _ h => h

theorem Current.setLookup (hcurrent : registry.Current) (caller : ℕ)
    {lookup : Option (Lookup Value)}
    (hlookup : ∀ id now answer, lookup = some (.chosen id now answer) →
      registry.Holds id answer) :
    (registry.setLookup caller lookup).Current := by
  apply hcurrent.fewer
  refine ⟨hcurrent.ids, fun _ _ h => h, fun _ _ _ h => h, ?_, fun _ _ h => h⟩
  rintro id version ⟨other, now, answer, hset, hversion⟩
  change Function.update registry.lookups caller lookup other = _ at hset
  rcases eq_or_ne other caller with rfl | hother
  · rw [Function.update_self] at hset
    exact .inr ⟨answer, hlookup id now answer hset, hversion⟩
  · rw [Function.update_of_ne hother] at hset
    exact .inl ⟨other, now, answer, hset, hversion⟩

theorem Current.dropLookup (hcurrent : registry.Current) (caller : ℕ) :
    (registry.setLookup caller none).Current := by
  apply hcurrent.setLookup
  intro id now answer hset
  cases hset

/-- A task that stands for an answer stores it. -/
theorem Current.putFound (hcurrent : registry.Current) {id : Text}
    (victim : Text) {slot : Slot Value} {answer : Answer Value}
    {task : RegistryTask Value} (htask : registry.tasks id = some task)
    (hstands : task.standsFor = some answer) (hloads : task.loads = none)
    (hknows : ¬ task.KnowsNone)
    (hslot : ∃ fetchedAt backoffUntil,
      slot = .found answer fetchedAt backoffUntil) :
    (registry.putSlot settings id victim slot).Current := by
  obtain ⟨fetchedAt, backoffUntil, rfl⟩ := hslot
  have hagrees := hcurrent.tasks id task answer htask hstands
  have hheld : ∀ other held, (registry.putSlot settings id victim
      (.found answer fetchedAt backoffUntil)).Holds other held →
      (other = id ∧ held = answer) ∨ other ≠ id ∧ registry.Holds other held := by
    intro other held hholds
    rcases holds_putSlot hholds with ⟨rfl, _, _, hsame⟩ | hold
    · exact .inl ⟨rfl, (Slot.found.inj hsame).1.symm⟩
    · exact .inr hold
  refine ⟨nodup_putSlot hcurrent.ids id victim _, ?_, ?_, ?_, ?_⟩
  · intro other held hholds version asset hhas hasked
    rcases hheld other held hholds with ⟨rfl, rfl⟩ | ⟨hother, hholds'⟩
    · apply hagrees version asset hhas
      rcases hasked with hversion | hchosen | ⟨another, hanother, hversion⟩
      · exact .inl hversion
      · exact .inr (.inl hchosen)
      · rcases hheld _ another hanother with ⟨-, rfl⟩ | ⟨hne, -⟩
        · exact .inl hversion.symm
        · exact absurd rfl hne
    · apply hcurrent.slots other held hholds' version asset hhas
      rcases hasked with hversion | hchosen | ⟨another, hanother, hversion⟩
      · exact .inl hversion
      · exact .inr (.inl hchosen)
      · rcases hheld _ another hanother with ⟨heq, -⟩ | ⟨-, hanother'⟩
        · exact absurd heq hother
        · exact .inr (.inr ⟨another, hanother', hversion⟩)
  · intro other set stands hset hset' version asset hhas hasked
    apply hcurrent.tasks other set stands hset hset' version asset hhas
    rcases hasked with hversion | hchosen | ⟨another, hanother, hversion⟩
    · exact .inl hversion
    · exact .inr (.inl hchosen)
    · rcases hheld other another hanother with ⟨rfl, rfl⟩ | ⟨-, hanother'⟩
      · obtain rfl := Option.some.inj (htask.symm.trans hset)
        obtain rfl := Option.some.inj (hstands.symm.trans hset')
        exact .inl hversion.symm
      · exact .inr (.inr ⟨another, hanother', hversion⟩)
  · intro other set held hset hnone hholds
    rcases hheld other held hholds with ⟨rfl, rfl⟩ | ⟨-, hholds'⟩
    · obtain rfl := Option.some.inj (htask.symm.trans hset)
      exact hknows hnone
    · exact hcurrent.unknown other set held hset hnone hholds'
  · intro other set loaded held hset hset' hholds
    rcases hheld other held hholds with ⟨rfl, rfl⟩ | ⟨-, hholds'⟩
    · obtain rfl := Option.some.inj (htask.symm.trans hset)
      rw [hloads] at hset'
      cases hset'
    · exact hcurrent.loads other set loaded held hset hset' hholds'

theorem Current.putMissing (hcurrent : registry.Current) (id victim : Text)
    (deadline : ℕ) :
    (registry.putSlot settings id victim (.missing deadline)).Current := by
  apply hcurrent.fewer
  refine ⟨nodup_putSlot hcurrent.ids id victim _, ?_, fun _ _ _ h => h,
    fun _ _ h => .inl h, fun _ _ h => h⟩
  intro other held hholds
  rcases holds_putSlot hholds with ⟨-, _, _, hsame⟩ | ⟨-, hold⟩
  · cases hsame
  · exact hold

/-! ## Steps -/

variable [DecidableEq Value]

/-- What is left loaded once a new answer was compared agrees with it. -/
theorem loadedAgrees_compareLoaded {id : Text} {old new : Answer Value}
    (hold : registry.LoadedAgrees id old) :
    ({ registry with
      loaded := registry.compareLoaded id (some old) new }).LoadedAgrees id
        new := by
  intro version asset hhas hasked
  dsimp only [compareLoaded] at hhas
  split at hhas
  · next hsame =>
      have hagrees := Answer.sameObjects_iff.mp hsame
      apply Answer.Agrees.trans _ hagrees
      apply hold version asset (LoadedCache.has_touch _ _ _ _ _ hhas)
      rw [hagrees.version]
      exact hasked
  · obtain ⟨-, hkept⟩ := LoadedCache.has_retainOnly hhas
    cases hkept rfl

theorem has_compareLoaded (id : Text) (known : Option (Answer Value))
    (new : Answer Value) :
    ∀ other version asset,
      (registry.compareLoaded id known new).Has other version asset →
      registry.loaded.Has other version asset := by
  intro other version asset h
  unfold compareLoaded at h
  split at h
  · exact h
  · split at h
    · exact LoadedCache.has_touch _ _ _ _ _ h
    · exact (LoadedCache.has_retainOnly h).1

/-- The answer to a task that found none in the table disagrees with what is
loaded under the version it has, or under one that a lookup has chosen. -/
def Overlooks (registry : AssetRegistry Value) :
    RegistryStep Value → Prop
  | .settle id _ => ∃ now arrived new,
      registry.tasks id =
          some (.answered now none arrived (.ok (.resolved new))) ∧
        ∃ version asset, registry.loaded.Has id version asset ∧
          (version = new.version ∨ registry.Chosen id version) ∧
          ¬ asset.answer.Agrees new
  | _ => False

theorem Current.settleAnswer (hcurrent : registry.Current)
    {id victim : Text} {now arrived : ℕ} {known : Option (Answer Value)}
    {resolution : Except ResolveError (Resolution Value)}
    (htask : registry.tasks id =
      some (.answered now known arrived resolution))
    (hseen : ¬ registry.Overlooks (.settle id victim)) :
    (registry.settleAnswer settings id victim now known arrived
      resolution).Current := by
  have hknown : ∀ answer, known = some answer →
      registry.LoadedAgrees id answer :=
    fun answer => hcurrent.tasks id _ answer htask
  unfold AssetRegistry.settleAnswer
  split
  · next new =>
      have hless := hcurrent.withRest registry.clock registry.failures
        (has_compareLoaded id known new)
      apply hless.setTask
      rintro set hset
      obtain rfl := Option.some.inj hset
      refine ⟨?_, fun _ => nofun, fun _ _ => nofun⟩
      intro answer hanswer
      obtain rfl := Option.some.inj hanswer
      cases known with
      | some old => exact loadedAgrees_compareLoaded (hknown old rfl)
      | none =>
          intro version asset hhas hasked
          by_contra hdisagrees
          apply hseen
          refine ⟨now, arrived, new, htask, version, asset, hhas, ?_,
            hdisagrees⟩
          rcases hasked with hversion | hchosen | ⟨held, hheld, -⟩
          · exact .inl hversion
          · exact .inr hchosen
          · exact absurd hheld (hcurrent.unknown id _ held htask rfl)
  · next validUntil =>
      apply hcurrent.setTask
      intro set hset
      obtain ⟨old, hold, rfl⟩ := Option.map_eq_some_iff.mp hset
      refine ⟨?_, fun _ => nofun, fun _ _ => nofun⟩
      intro answer hanswer
      obtain rfl := Option.some.inj hanswer
      intro version asset hhas hasked
      have hagrees := hknown old hold version asset hhas hasked
      exact hagrees.trans (by constructor <;> rfl)
  · apply (hcurrent.putMissing id victim _).setTask
    intro set hset
    obtain rfl := Option.some.inj hset
    exact ⟨fun _ => nofun, fun _ => nofun, fun _ _ => nofun⟩
  · split
    · next old hstale =>
        obtain ⟨hsome, -⟩ := Option.filter_eq_some_iff.mp hstale
        apply hcurrent.setTask
        intro set hset
        obtain rfl := Option.some.inj hset
        refine ⟨?_, fun _ => nofun, fun _ _ => nofun⟩
        intro answer hanswer
        obtain rfl := Option.some.inj hanswer
        exact hknown old hsome
    · exact (hcurrent.rememberFailure id _).endTask id
  · exact (hcurrent.rememberFailure id _).endTask id

omit [DecidableEq Value] in
/-- A loaded asset is put in place of every other version. -/
theorem Current.finishTask (hcurrent : registry.Current) {id : Text}
    {answer : Answer Value} (indexBytes : ℕ)
    (htask : registry.tasks id = some (.loading answer)) :
    ({ registry with
      loaded :=
        (registry.loaded.retainOnly id (some answer.version)).insert
          settings.loadedBudgetBytes id answer.version
          { answer := answer, indexBytes := indexBytes } }.setTask id
            none).Current := by
  have hhas : ∀ other version asset,
      ((registry.loaded.retainOnly id (some answer.version)).insert
        settings.loadedBudgetBytes id answer.version
        { answer := answer, indexBytes := indexBytes }).Has other version
          asset →
      (other = id ∧ version = answer.version ∧ asset.answer = answer) ∨
        registry.loaded.Has other version asset := by
    intro other version asset h
    rcases LoadedCache.has_insert h with ⟨rfl, rfl, rfl⟩ | hold
    · exact .inl ⟨rfl, rfl, rfl⟩
    · exact .inr (LoadedCache.has_retainOnly hold).1
  have hended := hcurrent.endTask id
  refine ⟨hcurrent.ids, ?_, ?_, hended.unknown, hended.loads⟩
  · intro other held hholds version asset hloaded hasked
    rcases hhas other version asset hloaded with ⟨rfl, -, hsame⟩ | hold
    · rw [hsame]
      exact hcurrent.loads other _ answer held htask rfl hholds
    · exact hcurrent.slots other held hholds version asset hold hasked
  · intro other set stands hset hstands version asset hloaded hasked
    rcases hhas other version asset hloaded with ⟨rfl, -, -⟩ | hold
    · change Function.update registry.tasks other none other = some set at hset
      rw [Function.update_self] at hset
      cases hset
    · exact hended.tasks other set stands hset hstands version asset hold hasked

theorem Current.step (hcurrent : registry.Current)
    {action : RegistryStep Value} (hseen : ¬ registry.Overlooks action)
    (h : registry.step settings action = some next) : next.Current := by
  cases action with
  | tick elapsed =>
      obtain rfl := Option.some.inj h
      exact hcurrent.withRest _ _ fun _ _ _ h => h
  | sample caller id =>
      dsimp only [AssetRegistry.step] at h
      split at h
      · obtain rfl := Option.some.inj h
        apply hcurrent.setLookup
        intro id' now answer hset
        cases hset
      · cases h
  | read caller =>
      dsimp only [AssetRegistry.step] at h
      split at h
      · split at h
        · obtain rfl := Option.some.inj h
          exact hcurrent.dropLookup caller
        · next id now _ _ =>
            obtain rfl := Option.some.inj h
            apply (hcurrent.withRest registry.clock _
              fun _ _ _ h => h).setLookup
            intro id' now' answer hset
            obtain ⟨read, hread, hsame⟩ := Option.map_eq_some_iff.mp hset
            obtain ⟨rfl, -, rfl⟩ := Lookup.chosen.inj hsame
            exact holds_of_readSlot hread
      · cases h
  | fetch caller =>
      dsimp only [AssetRegistry.step] at h
      split at h
      · obtain rfl := Option.some.inj h
        exact (hcurrent.withRest _ _
          (LoadedCache.has_touch _ _)).dropLookup caller
      · cases h
  | start id =>
      dsimp only [AssetRegistry.step] at h
      split at h
      · obtain rfl := Option.some.inj h
        apply hcurrent.setTask
        intro set hset
        obtain rfl := Option.some.inj hset
        exact ⟨fun _ h => (by cases h), fun _ h => (by cases h), fun _ _ h => (by cases h)⟩
      · cases h
  | consult id =>
      dsimp only [AssetRegistry.step] at h
      split at h
      · obtain rfl := Option.some.inj h
        apply hcurrent.setTask
        intro set hset
        obtain rfl := Option.some.inj hset
        split
        · next answer hfresh =>
            obtain ⟨hknown, -⟩ := Option.filter_eq_some_iff.mp hfresh
            have hholds := holds_of_knownAnswer hknown
            refine ⟨?_, fun _ h => (by cases h), ?_⟩
            · intro stands hstands
              obtain rfl := Option.some.inj hstands
              exact hcurrent.slots id answer hholds
            · intro loaded held hloaded hheld
              obtain rfl := Option.some.inj hloaded
              rw [hcurrent.holds_unique hheld hholds]
              exact Answer.Agrees.refl answer
        · refine ⟨?_, ?_, fun _ _ h => (by cases h)⟩
          · intro answer hknown
            exact hcurrent.slots id answer (holds_of_knownAnswer hknown)
          · intro answer hnone
            exact knownAnswer_eq_none hcurrent.ids hnone answer
      · cases h
  | refresh id key =>
      dsimp only [AssetRegistry.step] at h
      split at h
      · split at h
        · next old fetchedAt backoffUntil hslot =>
            split at h
            · obtain rfl := Option.some.inj h
              exact hcurrent
            · obtain rfl := Option.some.inj h
              apply hcurrent.setTask
              intro set hset
              obtain rfl := Option.some.inj hset
              refine ⟨?_, fun _ h => (by cases h), fun _ _ h => (by cases h)⟩
              intro answer hanswer
              obtain rfl := Option.some.inj hanswer
              exact hcurrent.slots id old
                ⟨fetchedAt, backoffUntil, Table.mem_of_get hslot⟩
        · obtain rfl := Option.some.inj h
          exact hcurrent
      · cases h
  | reply id utc reply =>
      dsimp only [AssetRegistry.step] at h
      split at h
      · next htask =>
          obtain rfl := Option.some.inj h
          apply hcurrent.setTask
          intro set hset
          obtain rfl := Option.some.inj hset
          have hfits := hcurrent.taskFits htask
          exact ⟨hfits.agrees, hfits.unknown, fun _ _ h => (by cases h)⟩
      · next htask =>
          obtain rfl := Option.some.inj h
          apply hcurrent.setTask
          intro set hset
          obtain rfl := Option.some.inj hset
          have hfits := hcurrent.taskFits htask
          exact ⟨hfits.agrees, fun _ h => (by cases h), fun _ _ h => (by cases h)⟩
      · cases h
  | settle id victim =>
      dsimp only [AssetRegistry.step] at h
      split at h
      · next htask =>
          obtain rfl := Option.some.inj h
          exact hcurrent.settleAnswer htask hseen
      · next old arrived new htask =>
          obtain rfl := Option.some.inj h
          have hold := hcurrent.tasks id _ old htask rfl
          have hless := hcurrent.withRest registry.clock registry.failures
            (has_compareLoaded id (some old) new)
          apply hless.setTask
          intro set hset
          obtain rfl := Option.some.inj hset
          refine ⟨?_, fun _ h => (by cases h), fun _ _ h => (by cases h)⟩
          intro answer hanswer
          obtain rfl := Option.some.inj hanswer
          exact loadedAgrees_compareLoaded hold
      · obtain rfl := Option.some.inj h
        exact hcurrent.endTask id
      · cases h
  | store id victim =>
      dsimp only [AssetRegistry.step] at h
      split at h
      · next purpose answer judged stale htask =>
          obtain rfl := Option.some.inj h
          have hslot : ∃ fetchedAt backoffUntil,
              registry.storedSlot settings answer stale =
                .found answer fetchedAt backoffUntil := by
            unfold storedSlot
            cases stale <;> exact ⟨_, _, rfl⟩
          have hput : (registry.putSlot settings id victim
              (registry.storedSlot settings answer stale)).Current :=
            hcurrent.putFound victim htask rfl rfl not_false hslot
          apply hput.setTask
          intro set hset
          cases purpose with
          | refresh => cases hset
          | load =>
              obtain rfl := Option.some.inj hset
              have hagrees := hput.tasks id _ answer htask rfl
              refine ⟨?_, fun _ h => (by cases h), ?_⟩
              · intro stands hstands
                obtain rfl := Option.some.inj hstands
                exact hagrees
              · intro loaded held hloaded hheld
                obtain rfl := Option.some.inj hloaded
                rcases holds_putSlot hheld with ⟨-, _, _, hsame⟩ | ⟨hne, -⟩
                · obtain ⟨_, _, hfound⟩ := hslot
                  rw [hfound] at hsame
                  rw [(Slot.found.inj hsame).1]
                  exact Answer.Agrees.refl held
                · exact absurd rfl hne
      · cases h
  | forget id =>
      dsimp only [AssetRegistry.step] at h
      split at h
      · obtain rfl := Option.some.inj h
        exact (hcurrent.withRest _ _
          fun _ _ _ h => (LoadedCache.has_retainOnly h).1).endTask id
      · cases h
  | openAsset id =>
      dsimp only [AssetRegistry.step] at h
      split at h
      · next answer htask =>
          obtain rfl := Option.some.inj h
          have htouched := hcurrent.withRest registry.clock registry.failures
            (LoadedCache.has_touch id answer.version)
          apply htouched.setTask
          intro set hset
          split at hset
          · cases hset
          · obtain rfl := Option.some.inj hset
            have hfits := htouched.taskFits htask
            exact ⟨hfits.agrees, fun _ h => (by cases h), hfits.loads⟩
      · cases h
  | timeout id =>
      dsimp only [AssetRegistry.step] at h
      split at h
      · obtain rfl := Option.some.inj h
        exact hcurrent.endTask id
      · cases h
  | finish id outcome =>
      dsimp only [AssetRegistry.step] at h
      split at h
      · next answer indexBytes htask =>
          obtain rfl := Option.some.inj h
          exact hcurrent.finishTask indexBytes htask
      · obtain rfl := Option.some.inj h
        exact (hcurrent.rememberFailure id _).endTask id
      · cases h

/-! ## What a request is given -/

/-- The asset a step gives a request, and its id. -/
def given (registry : AssetRegistry Value) :
    RegistryStep Value → Option (Text × LoadedAsset Value)
  | .fetch caller =>
      match registry.lookups caller with
      | some (.chosen id _ answer) =>
          (registry.loaded.find id answer.version).map fun asset => (id, asset)
      | _ => none
  | .openAsset id =>
      match registry.tasks id with
      | some (.resolved answer) =>
          (registry.loaded.find id answer.version).map fun asset => (id, asset)
      | _ => none
  | .finish id (.ok indexBytes) =>
      match registry.tasks id with
      | some (.loading answer) =>
          some (id, { answer := answer, indexBytes := indexBytes })
      | _ => none
  | _ => none

/-- A step gives no asset that was loaded from an answer other than the one
held. -/
def GivesCurrent (registry : AssetRegistry Value)
    (action : RegistryStep Value) : Prop :=
  ∀ id asset, registry.given action = some (id, asset) →
    ∀ answer, registry.knownAnswer id = some answer →
      asset.answer.Agrees answer

omit [DecidableEq Value] in
theorem Current.givesCurrent (hcurrent : registry.Current)
    (action : RegistryStep Value) : registry.GivesCurrent action := by
  intro id asset hgiven answer hknown
  have hholds := holds_of_knownAnswer hknown
  cases action with
  | fetch caller =>
      dsimp only [given] at hgiven
      split at hgiven
      · next other now chosen hlookup =>
          obtain ⟨found, hfound, hsame⟩ := Option.map_eq_some_iff.mp hgiven
          obtain ⟨rfl, rfl⟩ := Prod.mk.inj hsame
          apply hcurrent.slots other answer hholds chosen.version
            found (LoadedCache.has_of_find hfound)
          exact .inr (.inl ⟨caller, now, chosen, hlookup, rfl⟩)
      · cases hgiven
  | openAsset other =>
      dsimp only [given] at hgiven
      split at hgiven
      · next resolved htask =>
          obtain ⟨found, hfound, hsame⟩ := Option.map_eq_some_iff.mp hgiven
          obtain ⟨rfl, rfl⟩ := Prod.mk.inj hsame
          have hagrees := hcurrent.loads other _ resolved answer htask rfl
            hholds
          apply hcurrent.slots other answer hholds resolved.version found
            (LoadedCache.has_of_find hfound)
          exact .inl hagrees.version
      · cases hgiven
  | finish other outcome =>
      cases outcome with
      | error error => cases hgiven
      | ok indexBytes =>
          dsimp only [given] at hgiven
          split at hgiven
          · next loading htask =>
              obtain ⟨rfl, rfl⟩ := Prod.mk.inj (Option.some.inj hgiven)
              exact hcurrent.loads other _ loading answer htask rfl hholds
          · cases hgiven
  | _ => cases hgiven

/-- In a run in which no answer overlooks what is loaded, every asset a
request is given was loaded from an answer that agrees with the one held. -/
theorem assets_current_of_seen (settings : RegistrySettings) (clock : ℕ)
    (actions : List (RegistryStep Value))
    (hseen : EachStep (step settings) (fun registry action =>
      ¬ registry.Overlooks action) (initial clock) actions) :
    EachStep (step settings) GivesCurrent (initial clock) actions := by
  have hcurrent : Throughout (step settings) Current
      (initial clock : AssetRegistry Value) actions := by
    apply throughout_of_invariant (current_initial clock) _ hseen
    intro registry action next hcurrent hseen h
    exact hcurrent.step hseen h
  exact hcurrent.eachStep fun registry action hcurrent =>
    hcurrent.givesCurrent action

/-! ## An answer that was driven out -/

/-- The check that a step overlooks nothing: a task that knew of no answer is
given one that agrees with all that is loaded of its asset. -/
def sees (registry : AssetRegistry Value) : RegistryStep Value → Bool
  | .settle id _ =>
      match registry.tasks id with
      | some (.answered _ none _ (.ok (.resolved new))) =>
          registry.loaded.entries.all fun entry =>
            entry.1.1 != id || entry.2.asset.answer.sameObjects new
      | _ => true
  | _ => true

theorem not_overlooks_of_sees {action : RegistryStep Value}
    (h : registry.sees action = true) : ¬ registry.Overlooks action := by
  cases action with
  | settle id victim =>
      rintro ⟨now, arrived, new, htask, version, asset,
        ⟨entry, hentry, hkey, rfl⟩, -, hdisagrees⟩
      dsimp only [sees] at h
      rw [htask] at h
      have hsame := List.all_eq_true.mp h entry hentry
      rw [hkey] at hsame
      simp only [bne_self_eq_false, Bool.false_or] at hsame
      exact hdisagrees (Answer.sameObjects_iff.mp hsame)
  | _ => exact not_false

/-- An asset is asked for, and what the mapper answers is stored. -/
def loadSteps (id victim : Text) (answer : Answer ℕ) :
    List (RegistryStep ℕ) :=
  [.start id, .consult id,
    .reply id 0 (.ok ⟨none, none, .ok answer⟩ none), .settle id victim,
    .store id victim]

/-- A registry that keeps one answer. -/
def narrowSettings : RegistrySettings :=
  { sampleSettings with maxCachedResolutions := 1 }

def movedAnswer : Answer ℕ :=
  { signedAnswer with location := some (.file "moved.mp4".toList) }

/-- Two assets are resolved in turn, the first one loaded before the other
drives its answer out. -/
def drivenOut : List (RegistryStep ℕ) :=
  loadSteps "movie".toList [] signedAnswer ++
    [.openAsset "movie".toList, .finish "movie".toList (.ok 1)] ++
    loadSteps "trailer".toList "movie".toList signedAnswer

/-- The first asset is answered for as before and given out of the cache, to
its task and to a lookup. -/
def servedAgain : List (RegistryStep ℕ) :=
  drivenOut ++ loadSteps "movie".toList "trailer".toList signedAnswer ++
    [.openAsset "movie".toList, .sample 0 "movie".toList, .read 0]

/-- Then its answer grows old, and the new one names other media. -/
def servedAnew : List (RegistryStep ℕ) :=
  servedAgain ++ [.fetch 0, .tick (11 * 10 ^ 9)] ++
    loadSteps "movie".toList "movie".toList movedAnswer ++
    [.openAsset "movie".toList]

/-- A run that meets the condition, with what is given in two of its states: the
old media out of the cache, and then the new. -/
theorem loadSteps_current :
    EachStep (step narrowSettings) GivesCurrent (initial 0)
        (servedAnew ++ [.finish "movie".toList (.ok 1)]) ∧
      (finalState (step narrowSettings) (initial 0) servedAgain).map
          (fun registry => (registry.given (.fetch 0)).map fun given =>
            given.2.answer.location) =
        some (some (some (.file "movie.mp4".toList))) ∧
      (finalState (step narrowSettings) (initial 0) servedAnew).map
          (fun registry => (registry.given
            (.finish "movie".toList (.ok 1))).map fun given =>
              given.2.answer.location) =
        some (some (some (.file "moved.mp4".toList))) := by
  refine ⟨assets_current_of_seen narrowSettings 0 _ ?_, by decide, by decide⟩
  have hsees : EachStep (step narrowSettings)
      (fun registry action => registry.sees action = true) (initial 0)
      (servedAnew ++ [.finish "movie".toList (.ok 1)]) := by
    decide
  exact hsees.mono fun registry action => not_overlooks_of_sees

/-- Two assets are loaded in turn, and the first one's media is moved under
the version it had. -/
def movedUnseen : List (RegistryStep ℕ) :=
  drivenOut ++ loadSteps "movie".toList "trailer".toList movedAnswer

theorem movedUnseen_gives_stale :
    ¬ EachStep (step narrowSettings) GivesCurrent (initial 0)
      (movedUnseen ++ [.openAsset "movie".toList]) := by
  intro hsteps
  have hrun : (finalState (step narrowSettings) (initial 0) movedUnseen).map
      (fun registry =>
        ((registry.given (.openAsset "movie".toList)).map fun given =>
            (given.1, given.2.answer.location),
          (registry.knownAnswer "movie".toList).map Answer.location,
          (registry.step narrowSettings
            (.openAsset "movie".toList)).isSome)) =
      some (some ("movie".toList, some (.file "movie.mp4".toList)),
        some (some (.file "moved.mp4".toList)), true) := by
    decide
  obtain ⟨reached, hreached, hsame⟩ := Option.map_eq_some_iff.mp hrun
  obtain ⟨hgiven, hsame⟩ := Prod.mk.inj hsame
  obtain ⟨hknown, hnext⟩ := Prod.mk.inj hsame
  obtain ⟨⟨id, asset⟩, hgiven, hsame⟩ := Option.map_eq_some_iff.mp hgiven
  obtain ⟨rfl, hloaded⟩ := Prod.mk.inj hsame
  obtain ⟨answer, hknown, hheld⟩ := Option.map_eq_some_iff.mp hknown
  obtain ⟨next, hnext⟩ := Option.isSome_iff_exists.mp hnext
  have hobjects :=
    (hsteps.last hreached hnext _ asset hgiven answer hknown).objects
  have hmoved : asset.answer.locations = [(.main, .file "movie.mp4".toList)] := by
    unfold Answer.locations
    rw [hloaded]
  have hmain : answer.locations = [(.main, .file "moved.mp4".toList)] := by
    unfold Answer.locations
    rw [hheld]
  rw [hmoved, hmain] at hobjects
  exact absurd hobjects (by decide)

end AssetRegistry

end Segmentor
