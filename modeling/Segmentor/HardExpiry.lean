import Segmentor.AssetRegistry

/-!
# Hard expiries

A location is dead from its hard expiry on.  What the registry keeps is
refreshed no later than that, and whatever a lookup or a resolution returns
was alive at the instant at which it was judged; it can have died since.
-/

namespace Segmentor

open General

variable {Value : Type}

namespace Answer

/-- The answer is revalidated before its location is dead. -/
def Bounded (answer : Answer Value) : Prop :=
  ∀ expiry, answer.hardExpiry = some expiry → answer.validUntil ≤ expiry

/-- The location is alive at an instant. -/
def Alive (answer : Answer Value) (now : ℕ) : Prop :=
  ∀ expiry, answer.hardExpiry = some expiry → now < expiry

/-- The location dies between two instants. -/
def DiesBetween (answer : Answer Value) (judged now : ℕ) : Prop :=
  ∃ expiry, answer.hardExpiry = some expiry ∧ judged < expiry ∧ expiry ≤ now

theorem alive_of_unexpired {answer : Answer Value} {now : ℕ}
    (h : answer.unexpired now = true) : answer.Alive now := by
  intro expiry hexpiry
  unfold unexpired at h
  rw [hexpiry] at h
  exact of_decide_eq_true h

theorem Bounded.alive {answer : Answer Value} {now : ℕ}
    (hbounded : answer.Bounded) (hfresh : now < answer.validUntil) :
    answer.Alive now := by
  intro expiry hexpiry
  exact hfresh.trans_le (hbounded expiry hexpiry)

theorem Alive.later_iff {answer : Answer Value} {judged now : ℕ}
    (halive : answer.Alive judged) :
    answer.Alive now ↔ ¬ answer.DiesBetween judged now := by
  constructor
  · rintro hlater ⟨expiry, hexpiry, -, hdead⟩
    exact absurd (hlater expiry hexpiry) (Nat.not_lt.mpr hdead)
  · intro hsince expiry hexpiry
    by_contra hdead
    exact hsince ⟨expiry, hexpiry, halive expiry hexpiry, Nat.not_lt.mp hdead⟩

end Answer

/-! ## What arrives -/

namespace MapperSettings

variable {settings : MapperSettings}

/-- An answer is to be refreshed before its location is dead, and its
location is alive as it arrives. -/
theorem interpret_bounded {now : ℕ} {utc : ℤ} {wire : Wire Value}
    {maxAge : Option ℕ} {answer : Answer Value}
    (h : settings.interpret now utc wire maxAge = .ok answer) :
    answer.Bounded ∧ answer.Alive now := by
  unfold interpret at h
  obtain ⟨content, -, h⟩ := bind_eq_ok_iff.mp h
  dsimp only at h
  split at h
  · obtain rfl := Except.ok.inj h
    exact ⟨nofun, nofun⟩
  · obtain ⟨deadline, -, h⟩ := bind_eq_ok_iff.mp h
    split at h
    · cases h
    · next hpositive =>
        obtain rfl := Except.ok.inj h
        constructor
        · intro expiry hexpiry
          obtain rfl := Option.some.inj hexpiry
          dsimp only
          omega
        · intro expiry hexpiry
          obtain rfl := Option.some.inj hexpiry
          omega

theorem resolve_bounded {now : ℕ} {utc : ℤ} {known : Bool}
    {reply : Reply Value} {answer : Answer Value}
    (h : settings.resolve now utc known reply = .ok (.resolved answer)) :
    answer.Bounded ∧ answer.Alive now := by
  cases reply with
  | ok wire maxAge =>
      obtain ⟨interpreted, hinterpret, hsame⟩ := bind_eq_ok_iff.mp h
      obtain rfl := Resolution.resolved.inj (Except.ok.inj hsame)
      exact interpret_bounded hinterpret
  | notModified maxAge =>
      rw [resolve] at h
      split at h <;> cases h
  | catalog listed =>
      obtain rfl := Resolution.resolved.inj (Except.ok.inj h)
      exact ⟨nofun, nofun⟩
  | notFound => cases h
  | unavailable message => cases h
  | rejected message => cases h

/-- Only a version that was named is answered as unchanged. -/
theorem resolve_unchanged {now : ℕ} {utc : ℤ} {known : Bool}
    {reply : Reply Value} {validUntil : ℕ}
    (h : settings.resolve now utc known reply = .ok (.unchanged validUntil)) :
    known = true := by
  cases reply with
  | ok wire maxAge =>
      obtain ⟨interpreted, -, hsame⟩ := bind_eq_ok_iff.mp h
      cases hsame
  | notModified maxAge =>
      rw [resolve] at h
      split at h
      · assumption
      · cases h
  | catalog listed => cases h
  | notFound => cases h
  | unavailable message => cases h
  | rejected message => cases h

end MapperSettings

namespace AssetRegistry

/-! ## What the registry holds -/

/-- The answers a slot holds are refreshed in time. -/
def BoundedSlot (slot : Slot Value) : Prop :=
  match slot with
  | .found answer _ _ => answer.Bounded
  | .missing _ => True

/-- Every stored answer is to be revalidated before its hard expiry. -/
def SlotsBounded (registry : AssetRegistry Value) : Prop :=
  ∀ entry ∈ registry.resolutions, BoundedSlot entry.2

/-- What a task holds: bounded answers, and what it stores was alive when it
was judged. -/
def DatedTask : RegistryTask Value → Prop
  | .begun _ => True
  | .asking _ known => ∀ answer ∈ known, answer.Bounded
  | .answered now known arrived resolution =>
      (∀ answer ∈ known, answer.Bounded) ∧
        (∀ answer, resolution = .ok (.resolved answer) →
          answer.Bounded ∧ answer.Alive arrived) ∧
        ∀ validUntil, resolution = .ok (.unchanged validUntil) →
          ∀ answer ∈ known, answer.Alive now
  | .refreshing _ => True
  | .refreshed _ arrived resolution =>
      ∀ answer, resolution = .ok (.resolved answer) →
        answer.Bounded ∧ answer.Alive arrived
  | .storing _ answer judged _ => answer.Bounded ∧ answer.Alive judged
  | .forgetting => True
  | .resolved _ => True
  | .loading _ => True

structure Dated (registry : AssetRegistry Value) : Prop where
  slots : registry.SlotsBounded
  lookups : ∀ caller id now answer,
    registry.lookups caller = some (.chosen id now answer) → answer.Alive now
  tasks : ∀ id task, registry.tasks id = some task → DatedTask task

theorem dated_initial (clock : ℕ) :
    (initial clock : AssetRegistry Value).Dated where
  slots := by
    intro entry hentry
    cases hentry
  lookups := by
    intro caller id now answer h
    cases h
  tasks := by
    intro id task h
    cases h

variable {registry next : AssetRegistry Value} {settings : RegistrySettings}

theorem Dated.setTask (hdated : registry.Dated) (id : Text)
    {task : Option (RegistryTask Value)}
    (htask : ∀ set, task = some set → DatedTask set) :
    (registry.setTask id task).Dated where
  slots := hdated.slots
  lookups := hdated.lookups
  tasks := by
    intro other set hset
    change Function.update registry.tasks id task other = some set at hset
    rcases eq_or_ne other id with rfl | hother
    · rw [Function.update_self] at hset
      exact htask set hset
    · rw [Function.update_of_ne hother] at hset
      exact hdated.tasks other set hset

theorem Dated.endTask (hdated : registry.Dated) (id : Text) :
    (registry.setTask id none).Dated := by
  apply hdated.setTask
  intro set hset
  cases hset

theorem Dated.setLookup (hdated : registry.Dated) (caller : ℕ)
    {lookup : Option (Lookup Value)}
    (hlookup : ∀ id now answer, lookup = some (.chosen id now answer) →
      answer.Alive now) :
    (registry.setLookup caller lookup).Dated where
  slots := hdated.slots
  lookups := by
    intro other id now answer hset
    change Function.update registry.lookups caller lookup other = _ at hset
    rcases eq_or_ne other caller with rfl | hother
    · rw [Function.update_self] at hset
      exact hlookup id now answer hset
    · rw [Function.update_of_ne hother] at hset
      exact hdated.lookups other id now answer hset
  tasks := hdated.tasks

/-- A table that is made room in holds nothing new. -/
theorem makeRoom_subset (id victim : Text) :
    registry.makeRoom settings id victim ⊆ registry.resolutions := by
  unfold makeRoom
  split
  · dsimp only
    split
    · split
      · exact List.Subset.trans (List.filter_subset_self _)
          (List.filter_subset_self _)
      · exact List.Subset.trans (List.tail_subset _)
          (List.filter_subset_self _)
    · exact List.filter_subset_self _
  · exact List.Subset.refl _

theorem mem_putSlot {id victim : Text} {slot : Slot Value}
    {entry : Text × Slot Value}
    (h : entry ∈ (registry.putSlot settings id victim slot).resolutions) :
    entry = (id, slot) ∨ entry ∈ registry.resolutions ∧ entry.1 ≠ id := by
  rcases Table.mem_put.mp h with hnew | ⟨hold, hother⟩
  · exact .inl hnew
  · exact .inr ⟨makeRoom_subset id victim hold, hother⟩

theorem Dated.putSlot (hdated : registry.Dated) (id victim : Text)
    {slot : Slot Value} (hslot : BoundedSlot slot) :
    (registry.putSlot settings id victim slot).Dated where
  slots := by
    intro entry hentry
    rcases mem_putSlot hentry with rfl | ⟨hold, -⟩
    · exact hslot
    · exact hdated.slots entry hold
  lookups := hdated.lookups
  tasks := hdated.tasks

/-- Neither the clock, the failures nor what is loaded dates an answer. -/
theorem Dated.withRest (hdated : registry.Dated) (clock : ℕ)
    (failures : List (Text × ℕ × RegistryError))
    (loaded : LoadedCache Value) :
    ({ registry with
      clock := clock, failures := failures, loaded := loaded }).Dated where
  slots := hdated.slots
  lookups := hdated.lookups
  tasks := hdated.tasks

theorem rememberFailure_eq (registry : AssetRegistry Value)
    (settings : RegistrySettings) (id : Text) (error : RegistryError) :
    ∃ failures, registry.rememberFailure settings id error =
      { registry with failures := failures } := by
  unfold rememberFailure
  dsimp only
  split <;> split <;> exact ⟨_, rfl⟩

theorem Dated.rememberFailure (hdated : registry.Dated) (id : Text)
    (error : RegistryError) :
    (registry.rememberFailure settings id error).Dated := by
  obtain ⟨failures, heq⟩ := rememberFailure_eq registry settings id error
  rw [heq]
  exact hdated.withRest _ failures _

theorem Dated.found_bounded (hdated : registry.Dated) {id : Text}
    {answer : Answer Value} {fetchedAt : ℕ} {backoffUntil : Option ℕ}
    (h : Table.get registry.resolutions id =
      some (.found answer fetchedAt backoffUntil)) : answer.Bounded :=
  hdated.slots _ (Table.mem_of_get h)

theorem Dated.knownAnswer (hdated : registry.Dated) {id : Text}
    {answer : Answer Value} (h : registry.knownAnswer id = some answer) :
    answer.Bounded := by
  unfold AssetRegistry.knownAnswer at h
  split at h
  · next hslot =>
      obtain rfl := Option.some.inj h
      exact hdated.found_bounded hslot
  · cases h

/-- What a lookup chooses is alive at the instant the lookup sampled. -/
theorem Dated.readSlot (hdated : registry.Dated) {id : Text} {now : ℕ}
    {answer : Answer Value}
    (h : registry.readSlot settings id now = some answer) :
    answer.Alive now := by
  unfold AssetRegistry.readSlot at h
  split at h
  · next hslot =>
      dsimp only at h
      split at h
      · next hserved =>
          obtain rfl := Option.some.inj h
          rcases Bool.or_eq_true_iff.mp hserved with hfresh | hstale
          · exact (hdated.found_bounded hslot).alive (of_decide_eq_true hfresh)
          · have husable := (Bool.and_eq_true_iff.mp hstale).2
            exact Answer.alive_of_unexpired (Bool.and_eq_true_iff.mp husable).1
      · cases h
  · cases h

variable [DecidableEq Value]

theorem Dated.settleAnswer (hdated : registry.Dated) (id victim : Text)
    {now arrived : ℕ} {known : Option (Answer Value)}
    {resolution : Except ResolveError (Resolution Value)}
    (htask : DatedTask (.answered now known arrived resolution)) :
    (registry.settleAnswer settings id victim now known arrived
      resolution).Dated := by
  obtain ⟨hknown, hresolved, hunchanged⟩ := htask
  unfold AssetRegistry.settleAnswer
  split
  · next new =>
      apply (hdated.withRest _ _ _).setTask
      intro set hset
      obtain rfl := Option.some.inj hset
      exact hresolved new rfl
  · next validUntil =>
      apply hdated.setTask
      intro set hset
      obtain ⟨answer, hanswer, rfl⟩ := Option.map_eq_some_iff.mp hset
      refine ⟨?_, hunchanged validUntil rfl answer hanswer⟩
      intro expiry hexpiry
      change answer.hardExpiry = some expiry at hexpiry
      dsimp only
      rw [hexpiry]
      exact min_le_right _ _
  · have hmissing : BoundedSlot
        (.missing (registry.clock + settings.negativeTtl) : Slot Value) :=
      trivial
    apply (hdated.putSlot id victim hmissing).setTask
    intro set hset
    obtain rfl := Option.some.inj hset
    trivial
  · split
    · next answer hstale =>
        obtain ⟨hsome, husable⟩ := Option.filter_eq_some_iff.mp hstale
        apply hdated.setTask
        intro set hset
        obtain rfl := Option.some.inj hset
        exact ⟨hknown answer hsome,
          Answer.alive_of_unexpired (Bool.and_eq_true_iff.mp husable).1⟩
    · exact (hdated.rememberFailure id _).endTask id
  · exact (hdated.rememberFailure id _).endTask id

theorem Dated.step (hdated : registry.Dated) {action : RegistryStep Value}
    (h : registry.step settings action = some next) : next.Dated := by
  cases action with
  | tick elapsed =>
      obtain rfl := Option.some.inj h
      exact hdated.withRest _ _ _
  | sample caller id =>
      dsimp only [AssetRegistry.step] at h
      split at h
      · obtain rfl := Option.some.inj h
        apply hdated.setLookup
        intro id' now answer hset
        cases hset
      · cases h
  | read caller =>
      dsimp only [AssetRegistry.step] at h
      split at h
      · split at h
        · obtain rfl := Option.some.inj h
          apply hdated.setLookup
          intro id' now' answer hset
          cases hset
        · obtain rfl := Option.some.inj h
          apply (hdated.withRest _ _ _).setLookup
          intro id' now' answer hset
          obtain ⟨read, hread, hsame⟩ := Option.map_eq_some_iff.mp hset
          obtain ⟨-, rfl, rfl⟩ := Lookup.chosen.inj hsame
          exact hdated.readSlot hread
      · cases h
  | fetch caller =>
      dsimp only [AssetRegistry.step] at h
      split at h
      · obtain rfl := Option.some.inj h
        apply (hdated.withRest _ _ _).setLookup
        intro id' now' answer hset
        cases hset
      · cases h
  | start id =>
      dsimp only [AssetRegistry.step] at h
      split at h
      · obtain rfl := Option.some.inj h
        apply hdated.setTask
        intro set hset
        obtain rfl := Option.some.inj hset
        trivial
      · cases h
  | consult id =>
      dsimp only [AssetRegistry.step] at h
      split at h
      · obtain rfl := Option.some.inj h
        apply hdated.setTask
        intro set hset
        obtain rfl := Option.some.inj hset
        split
        · trivial
        · exact fun answer hanswer => hdated.knownAnswer hanswer
      · cases h
  | refresh id key =>
      dsimp only [AssetRegistry.step] at h
      split at h
      · split at h
        · split at h
          · obtain rfl := Option.some.inj h
            exact hdated
          · obtain rfl := Option.some.inj h
            apply hdated.setTask
            intro set hset
            obtain rfl := Option.some.inj hset
            trivial
        · obtain rfl := Option.some.inj h
          exact hdated
      · cases h
  | reply id utc reply =>
      dsimp only [AssetRegistry.step] at h
      split at h
      · next now known htask =>
          obtain rfl := Option.some.inj h
          apply hdated.setTask
          intro set hset
          obtain rfl := Option.some.inj hset
          refine ⟨hdated.tasks id _ htask, ?_, ?_⟩
          · exact fun answer hanswer => MapperSettings.resolve_bounded hanswer
          · intro validUntil hunchanged answer hanswer
            have hnamed := MapperSettings.resolve_unchanged hunchanged
            rw [Option.mem_def.mp hanswer] at hnamed
            exact Answer.alive_of_unexpired hnamed
      · obtain rfl := Option.some.inj h
        apply hdated.setTask
        intro set hset
        obtain rfl := Option.some.inj hset
        exact fun answer hanswer => MapperSettings.resolve_bounded hanswer
      · cases h
  | settle id victim =>
      dsimp only [AssetRegistry.step] at h
      split at h
      · next htask =>
          obtain rfl := Option.some.inj h
          exact hdated.settleAnswer id victim (hdated.tasks id _ htask)
      · next htask =>
          obtain rfl := Option.some.inj h
          apply (hdated.withRest _ _ _).setTask
          intro set hset
          obtain rfl := Option.some.inj hset
          exact hdated.tasks id _ htask _ rfl
      · obtain rfl := Option.some.inj h
        exact hdated.endTask id
      · cases h
  | store id victim =>
      dsimp only [AssetRegistry.step] at h
      split at h
      · next purpose answer judged stale htask =>
          obtain rfl := Option.some.inj h
          obtain ⟨hbounded, -⟩ := hdated.tasks id _ htask
          have hslot : BoundedSlot
              (registry.storedSlot settings answer stale) := by
            unfold storedSlot
            cases stale <;> exact hbounded
          apply (hdated.putSlot id victim hslot).setTask
          intro set hset
          cases purpose with
          | load =>
              obtain rfl := Option.some.inj hset
              trivial
          | refresh => cases hset
      · cases h
  | forget id =>
      dsimp only [AssetRegistry.step] at h
      split at h
      · obtain rfl := Option.some.inj h
        exact (hdated.withRest _ _ _).endTask id
      · cases h
  | openAsset id =>
      dsimp only [AssetRegistry.step] at h
      split at h
      · obtain rfl := Option.some.inj h
        apply (hdated.withRest _ _ _).setTask
        intro set hset
        split at hset
        · cases hset
        · obtain rfl := Option.some.inj hset
          trivial
      · cases h
  | timeout id =>
      dsimp only [AssetRegistry.step] at h
      split at h
      · obtain rfl := Option.some.inj h
        exact hdated.endTask id
      · cases h
  | finish id outcome =>
      dsimp only [AssetRegistry.step] at h
      split at h
      · obtain rfl := Option.some.inj h
        exact (hdated.withRest _ _ _).endTask id
      · obtain rfl := Option.some.inj h
        exact (hdated.rememberFailure id _).endTask id
      · cases h

/-! ## What is returned -/

/-- The answer a step returns, as a lookup's hit or of a resolution. -/
def returned (registry : AssetRegistry Value) :
    RegistryStep Value → Option (Answer Value)
  | .fetch caller =>
      match registry.lookups caller with
      | some (.chosen id _ answer) =>
          if (registry.loaded.find id answer.version).isSome then some answer
          else none
      | _ => none
  | .consult id =>
      match registry.tasks id with
      | some (.begun now) =>
          (registry.knownAnswer id).filter fun answer =>
            now < answer.validUntil
      | _ => none
  | .store id _ =>
      match registry.tasks id with
      | some (.storing .load answer _ _) => some answer
      | _ => none
  | _ => none

/-- A step returns no answer whose location is dead by then. -/
def ReturnsAlive (registry : AssetRegistry Value)
    (action : RegistryStep Value) : Prop :=
  ∀ answer, registry.returned action = some answer →
    answer.Alive registry.clock

/-- The location of an answer dies between the instant at which the lookup or
the task judged it and the step that ends it: the lookup's sampled instant,
the task's for an answer that is fresh, unchanged or kept while the mapper is
down, and the arrival of a new answer. -/
def DiesMeanwhile (registry : AssetRegistry Value) :
    RegistryStep Value → Prop
  | .fetch caller => ∃ id now answer,
      registry.lookups caller = some (.chosen id now answer) ∧
        (registry.loaded.find id answer.version).isSome ∧
        answer.DiesBetween now registry.clock
  | .consult id => ∃ now answer,
      registry.tasks id = some (.begun now) ∧
        registry.knownAnswer id = some answer ∧ now < answer.validUntil ∧
        answer.DiesBetween now registry.clock
  | .store id _ => ∃ answer judged stale,
      registry.tasks id = some (.storing .load answer judged stale) ∧
        answer.DiesBetween judged registry.clock
  | _ => False

omit [DecidableEq Value] in
/-- What is returned was alive when it was judged, so it is dead only if it
has died since. -/
theorem Dated.returnsAlive_iff (hdated : registry.Dated)
    (action : RegistryStep Value) :
    registry.ReturnsAlive action ↔ ¬ registry.DiesMeanwhile action := by
  unfold ReturnsAlive
  cases action with
  | fetch caller =>
      constructor
      · rintro halive ⟨id, now, answer, hlookup, hloaded, expiry, hexpiry, -,
          hdead⟩
        have hreturned : registry.returned (.fetch caller) = some answer := by
          dsimp only [returned]
          rw [hlookup]
          exact if_pos hloaded
        exact absurd (halive answer hreturned expiry hexpiry)
          (Nat.not_lt.mpr hdead)
      · intro hsince answer hreturned
        dsimp only [returned] at hreturned
        split at hreturned
        · next id now chosen hlookup =>
            split at hreturned
            · next hloaded =>
                obtain rfl := Option.some.inj hreturned
                rw [(hdated.lookups caller id now chosen hlookup).later_iff]
                exact fun hdies =>
                  hsince ⟨id, now, chosen, hlookup, hloaded, hdies⟩
            · cases hreturned
        · cases hreturned
  | consult id =>
      constructor
      · rintro halive ⟨now, answer, htask, hknown, hfresh, expiry, hexpiry, -,
          hdead⟩
        have hreturned : registry.returned (.consult id) = some answer := by
          dsimp only [returned]
          rw [htask]
          exact Option.filter_eq_some_iff.mpr ⟨hknown, decide_eq_true hfresh⟩
        exact absurd (halive answer hreturned expiry hexpiry)
          (Nat.not_lt.mpr hdead)
      · intro hsince answer hreturned
        dsimp only [returned] at hreturned
        split at hreturned
        · next now htask =>
            obtain ⟨hknown, hfresh⟩ := Option.filter_eq_some_iff.mp hreturned
            have hfresh := of_decide_eq_true hfresh
            have halive := (hdated.knownAnswer hknown).alive hfresh
            rw [halive.later_iff]
            exact fun hdies => hsince ⟨now, answer, htask, hknown, hfresh, hdies⟩
        · cases hreturned
  | store id victim =>
      constructor
      · rintro halive ⟨answer, judged, stale, htask, expiry, hexpiry, -, hdead⟩
        have hreturned :
            registry.returned (.store id victim) = some answer := by
          dsimp only [returned]
          rw [htask]
        exact absurd (halive answer hreturned expiry hexpiry)
          (Nat.not_lt.mpr hdead)
      · intro hsince answer hreturned
        dsimp only [returned] at hreturned
        split at hreturned
        · next stored judged stale htask =>
            obtain rfl := Option.some.inj hreturned
            rw [(hdated.tasks id _ htask).2.later_iff]
            exact fun hdies => hsince ⟨stored, judged, stale, htask, hdies⟩
        · cases hreturned
  | _ =>
      apply iff_of_true _ not_false
      intro answer hreturned
      cases hreturned

/-! ## Runs -/

/-- Whatever the steps, every stored answer is revalidated in time; and no
lookup and no resolution returns a dead location in exactly the runs in which
no location dies while a call that judged it is under way. -/
theorem hard_expiry_respected_iff (settings : RegistrySettings) (clock : ℕ)
    (actions : List (RegistryStep Value)) :
    (Throughout (step settings) SlotsBounded (initial clock) actions ∧
        EachStep (step settings) ReturnsAlive (initial clock) actions) ↔
      EachStep (step settings) (fun registry action =>
        ¬ registry.DiesMeanwhile action) (initial clock) actions := by
  have hdated : Throughout (step settings) Dated
      (initial clock : AssetRegistry Value) actions := by
    apply throughout_of_invariant (dated_initial clock)
    · intro registry action next hdated _ h
      exact hdated.step h
    · exact eachStep_true _ _
  rw [and_iff_right (hdated.mono fun _ => Dated.slots)]
  apply eachStep_congr hdated
  intro registry action hdated
  exact hdated.returnsAlive_iff action

/-! ## A mapper that fails late -/

/-- Answers are kept for ten seconds, and a minute longer while the mapper is
down; every location dies at second 67. -/
def sampleSettings : RegistrySettings where
  mapper :=
    { defaultTtlMs := 10_000
      minTtlMs := 5_000
      maxTtlMs := 3_600_000
      refreshMarginMs := 30_000
      parseExpiry := fun _ => some (67 * 10 ^ 9) }
  maxCachedResolutions := 100
  negativeTtl := 5 * 10 ^ 9
  errorTtl := 2 * 10 ^ 9
  staleIfError := 60 * 10 ^ 9
  loadedBudgetBytes := 1000

def signedAnswer : Answer ℕ where
  location := some (.file "movie.mp4".toList)
  renditions := []
  clips := []
  version := "1".toList
  validUntil := 0
  hardExpiry := none
  encryption := none
  hlsAes128 := none
  sourceEncryption := none
  tracks := none

/-- The asset is loaded; a minute later the mapper is asked again, and fails
when the location has been dead for a second. -/
def lateFailure : List (RegistryStep ℕ) :=
  let id := "movie".toList
  [.start id, .consult id,
    .reply id 0 (.ok ⟨none, some "1970-01-01T00:01:07Z".toList,
      .ok signedAnswer⟩ none),
    .settle id id, .store id id, .openAsset id, .finish id (.ok 1),
    .tick (66 * 10 ^ 9), .start id, .consult id, .tick (2 * 10 ^ 9),
    .reply id 0 (.unavailable "mapper unreachable"), .settle id id]

theorem lateFailure_returns_dead :
    ¬ EachStep (step sampleSettings) ReturnsAlive (initial 0)
      (lateFailure ++ [.store "movie".toList "movie".toList]) := by
  intro hsteps
  have hrun : (finalState (step sampleSettings) (initial 0) lateFailure).map
      (fun registry => (registry.clock,
        (registry.returned (.store "movie".toList "movie".toList)).map
          Answer.hardExpiry,
        (registry.step sampleSettings
          (.store "movie".toList "movie".toList)).isSome)) =
      some (68 * 10 ^ 9, some (some (67 * 10 ^ 9)), true) := by
    decide
  obtain ⟨reached, hreached, hsame⟩ := Option.map_eq_some_iff.mp hrun
  obtain ⟨hclock, hsame⟩ := Prod.mk.inj hsame
  obtain ⟨hreturned, hnext⟩ := Prod.mk.inj hsame
  obtain ⟨answer, hanswer, hexpiry⟩ := Option.map_eq_some_iff.mp hreturned
  obtain ⟨next, hnext⟩ := Option.isSome_iff_exists.mp hnext
  have halive := hsteps.last hreached hnext answer hanswer _ hexpiry
  rw [hclock] at halive
  exact absurd halive (by decide)

end AssetRegistry

end Segmentor
