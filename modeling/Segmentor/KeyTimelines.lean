import Segmentor.KeyTexts

/-!
# Accepted key timelines

The rules an accepted `encryption` object follows: periods that start at zero
and ascend, the first encrypted one in front, and adjacent encrypted periods
without a key ID in common.  The last holds exactly where it holds next to
periods with two IDs: only the lists of IDs are compared.
-/

namespace Segmentor.Wire

open General

/-! ## Key IDs -/

/-- The key IDs that are written for a period. -/
def Period.ids (period : Period) : List (List UInt8) :=
  period.keys.filterMap fun key => hexBytes key.keyId.toList

/-- The period has separate keys with two IDs. -/
def Period.TwoIds (period : Period) : Prop :=
  ∃ a ∈ period.ids, ∃ b ∈ period.ids, a ≠ b

/-- Encrypted periods next to each other share no ID, where one of them has
two. -/
def Encryption.TwoIdsApart (wire : Encryption) : Prop :=
  ∀ i before after, wire.periods[i]? = some before →
    wire.periods[i + 1]? = some after → before.clear = false →
    after.clear = false → before.TwoIds ∨ after.TwoIds →
    ∀ id ∈ before.ids, id ∉ after.ids

/-- One encrypted period covers everything from zero. -/
def Encryption.CoversAll (wire : Encryption) : Prop :=
  wire.periods = [] ∧
      (wire.clearLeadMs = none ∨ wire.clearLeadMs = some 0) ∨
    ∃ period, wire.periods = [period] ∧ period.startMs = 0 ∧
      period.clear = false

/-- The rules of a rotation. -/
structure FollowsRules (wire : Encryption)
    (encryption : Segmentor.Encryption) : Prop where
  whole_iff : encryption.periods = [] ↔ wire.CoversAll
  first_start : encryption.periods ≠ [] →
    ∃ first, encryption.periods.head? = some first ∧ first.startMs = 0
  increasing : (encryption.periods.map KeyPeriod.startMs).Pairwise (· < ·)
  length_le : encryption.periods.length ≤ 256
  encrypted : encryption.periods ≠ [] →
    encryption.periods.findSome? KeyPeriod.keys =
      some encryption.toPeriodKeys
  ids_apart : ∀ i before after keys next,
    encryption.periods[i]? = some before →
    encryption.periods[i + 1]? = some after → before.keys = some keys →
    after.keys = some next → ∀ id ∈ PeriodKeys.keyIds keys,
      id ∉ PeriodKeys.keyIds next

/-! ## IDs of accepted keys -/

variable {crates : Crates}

theorem contentKey_keyId {wire : Key} {key : ContentKey}
    (h : contentKey crates wire = .ok key) :
    hexBytes wire.keyId.toList = some key.keyId := by
  unfold contentKey at h
  obtain ⟨keyId, hkeyId, h⟩ := bind_eq_ok_iff.mp h
  obtain ⟨bytes, -, h⟩ := bind_eq_ok_iff.mp h
  obtain ⟨iv, -, h⟩ := bind_eq_ok_iff.mp h
  obtain rfl := Except.ok.inj h
  unfold hex16 at hkeyId
  dsimp only at hkeyId
  split at hkeyId
  · cases hkeyId
  · exact okOr_eq_ok_iff.mp hkeyId

/-- The IDs of the keys that were put in slots. -/
theorem ids_foldlM {wires : List Key} {slots final : Slots}
    (h : wires.foldlM (Slots.add crates) slots = .ok final)
    (id : List UInt8) :
    (∃ key ∈ final.list, key.keyId = id) ↔
      (∃ key ∈ slots.list, key.keyId = id) ∨
        id ∈ wires.filterMap fun key => hexBytes key.keyId.toList := by
  induction wires generalizing slots with
  | nil =>
      obtain rfl := Except.ok.inj h
      simp
  | cons wire wires ih =>
      rw [List.foldlM_cons] at h
      obtain ⟨next, hnext, hrest⟩ := bind_eq_ok_iff.mp h
      obtain ⟨key, hkey, hlist⟩ := Slots.mem_list_add hnext
      rw [ih hrest, List.filterMap_cons, contentKey_keyId hkey]
      simp only [hlist, List.mem_cons]
      constructor
      · rintro (⟨found, rfl | hfound, rfl⟩ | hid)
        · exact .inr (.inl rfl)
        · exact .inl ⟨found, hfound, rfl⟩
        · exact .inr (.inr hid)
      · rintro (⟨found, hfound, rfl⟩ | rfl | hid)
        · exact .inl ⟨found, .inr hfound, rfl⟩
        · exact .inl ⟨key, .inl rfl, rfl⟩
        · exact .inr hid

theorem mem_keyIds_iff {period : Period} {content : PeriodKeys}
    (h : singlePeriod crates period.keys period.systems = .ok content)
    (id : List UInt8) : id ∈ content.keyIds ↔ id ∈ period.ids := by
  have hkeys := (singlePeriod_eq_ok h).1
  unfold keysOf at hkeys
  obtain ⟨slots, hslots, hkeys⟩ := bind_eq_ok_iff.mp hkeys
  have hids := ids_foldlM hslots id
  simp only [← Slots.mem_list_of_keys hkeys] at hids
  simpa [PeriodKeys.keyIds, Slots.list, Period.ids] using hids

/-! ## Neighbours -/

theorem keyIds_ne_of_apart {periods : List KeyPeriod}
    (h : sameNeighbours periods = false) {i : ℕ} {before after : KeyPeriod}
    {keys next : PeriodKeys} (hbefore : periods[i]? = some before)
    (hafter : periods[i + 1]? = some after) (hkeys : before.keys = some keys)
    (hnext : after.keys = some next) : keys.keyIds ≠ next.keyIds := by
  induction periods generalizing i with
  | nil => cases hbefore
  | cons first periods ih =>
      cases periods with
      | nil => cases hafter
      | cons second rest =>
          unfold sameNeighbours at h
          rw [Bool.or_eq_false_iff] at h
          cases i with
          | zero =>
              obtain rfl := Option.some.inj hbefore
              obtain rfl := Option.some.inj hafter
              have hhead := h.1
              rw [hkeys, hnext] at hhead
              simpa using hhead
          | succ i => exact ih h.2 hbefore hafter

/-- A period without two IDs has one. -/
theorem keyIds_of_not_two {period : Period} {content : PeriodKeys}
    (h : singlePeriod crates period.keys period.systems = .ok content)
    (htwo : ¬ period.TwoIds) : ∃ id, content.keyIds = [id] := by
  have hsame : ∀ a ∈ content.keyIds, ∀ b ∈ content.keyIds, a = b := by
    intro a ha b hb
    by_contra hne
    exact htwo ⟨a, (mem_keyIds_iff h a).mp ha, b, (mem_keyIds_iff h b).mp hb,
      hne⟩
  have hnodup : content.keyIds.Nodup := List.nodup_dedup _
  have hne : content.keyIds ≠ [] := by
    unfold PeriodKeys.keyIds PeriodKeys.distinctKeys
    cases content.keys with
    | all key => simp
    | split video audio =>
        dsimp only
        split
        · simp
        · simp [List.dedup_eq_nil]
  generalize content.keyIds = ids at hsame hnodup hne
  obtain ⟨id, rest, rfl⟩ := List.exists_cons_of_ne_nil hne
  cases rest with
  | nil => exact ⟨id, rfl⟩
  | cons other rest =>
      have heq := hsame id (by simp) other (by simp)
      subst heq
      simp at hnodup

theorem periodOf_eq_ok {wire : Period} {period : KeyPeriod}
    (h : periodOf crates wire = .ok period) :
    period.startMs = wire.startMs.toNat ∧
      (wire.clear = true ∧ period.keys = none ∨
        wire.clear = false ∧ ∃ content, period.keys = some content ∧
          singlePeriod crates wire.keys wire.systems = .ok content) := by
  unfold periodOf at h
  split at h
  · next hclear =>
      split at h
      · cases h
      · obtain rfl := Except.ok.inj h
        exact ⟨rfl, .inl ⟨hclear, rfl⟩⟩
  · next hkeys =>
      obtain ⟨content, hcontent, h⟩ := bind_eq_ok_iff.mp h
      obtain rfl := Except.ok.inj h
      exact ⟨rfl, .inr ⟨Bool.eq_false_iff.mpr hkeys, content, rfl, hcontent⟩⟩

variable {wire : Encryption} {periods : List KeyPeriod}

theorem getElem?_of_forall₂ {α β : Type} {R : α → β → Prop} {l : List α}
    {r : List β} (h : List.Forall₂ R l r) {i : ℕ} {a : α}
    (ha : l[i]? = some a) : ∃ b, r[i]? = some b ∧ R a b := by
  induction h generalizing i with
  | nil => cases ha
  | cons hhead _ ih =>
      cases i with
      | zero =>
          obtain rfl := Option.some.inj ha
          exact ⟨_, rfl, hhead⟩
      | succ i => exact ih ha

theorem exists_written
    (hperiods : wire.periods.mapM (periodOf crates) = .ok periods) {i : ℕ}
    {period : KeyPeriod} {content : PeriodKeys}
    (hperiod : periods[i]? = some period)
    (hcontent : period.keys = some content) :
    ∃ written, wire.periods[i]? = some written ∧ written.clear = false ∧
      singlePeriod crates written.keys written.systems = .ok content := by
  obtain ⟨written, hwritten, hrel⟩ :=
    getElem?_of_forall₂ (mapM_forall₂ hperiods).flip hperiod
  obtain ⟨-, ⟨-, hnone⟩ | ⟨hclear, found, hfound, hsingle⟩⟩ :=
    periodOf_eq_ok hrel
  · rw [hcontent] at hnone
    cases hnone
  · rw [hcontent] at hfound
    obtain rfl := Option.some.inj hfound
    exact ⟨written, hwritten, hclear, hsingle⟩

theorem exists_period
    (hperiods : wire.periods.mapM (periodOf crates) = .ok periods) {i : ℕ}
    {written : Period} (hwritten : wire.periods[i]? = some written)
    (hclear : written.clear = false) :
    ∃ period content, periods[i]? = some period ∧
      period.keys = some content ∧
      singlePeriod crates written.keys written.systems = .ok content := by
  obtain ⟨period, hperiod, hrel⟩ :=
    getElem?_of_forall₂ (mapM_forall₂ hperiods) hwritten
  obtain ⟨-, ⟨hset, -⟩ | ⟨-, content, hcontent, hsingle⟩⟩ :=
    periodOf_eq_ok hrel
  · rw [hclear] at hset
    cases hset
  · exact ⟨period, content, hperiod, hcontent, hsingle⟩

/-- No two neighbours of the list share a key ID. -/
def NoneShared (periods : List KeyPeriod) : Prop :=
  ∀ i before after keys next, periods[i]? = some before →
    periods[i + 1]? = some after → before.keys = some keys →
    after.keys = some next → ∀ id ∈ PeriodKeys.keyIds keys,
      id ∉ PeriodKeys.keyIds next

/-- Different lists of IDs have none in common where each is of one ID. -/
theorem noneShared_iff_twoIdsApart
    (hperiods : wire.periods.mapM (periodOf crates) = .ok periods)
    (hapart : sameNeighbours periods = false) :
    NoneShared periods ↔ wire.TwoIdsApart := by
  constructor
  · intro h i before after hbefore hafter hbeforeClear hafterClear _ id hid
      hmem
    obtain ⟨period, keys, hperiod, hkeys, hsingle⟩ :=
      exists_period hperiods hbefore hbeforeClear
    obtain ⟨other, next, hother, hnext, hnextSingle⟩ :=
      exists_period hperiods hafter hafterClear
    exact h i period other keys next hperiod hother hkeys hnext id
      ((mem_keyIds_iff hsingle id).mpr hid)
      ((mem_keyIds_iff hnextSingle id).mpr hmem)
  · intro h i period other keys next hperiod hother hkeys hnext id hid hmem
    obtain ⟨before, hbefore, hbeforeClear, hsingle⟩ :=
      exists_written hperiods hperiod hkeys
    obtain ⟨after, hafter, hafterClear, hnextSingle⟩ :=
      exists_written hperiods hother hnext
    by_cases htwo : before.TwoIds ∨ after.TwoIds
    · exact h i before after hbefore hafter hbeforeClear hafterClear htwo id
        ((mem_keyIds_iff hsingle id).mp hid)
        ((mem_keyIds_iff hnextSingle id).mp hmem)
    · obtain ⟨hone, hother'⟩ := not_or.mp htwo
      obtain ⟨a, ha⟩ := keyIds_of_not_two hsingle hone
      obtain ⟨b, hb⟩ := keyIds_of_not_two hnextSingle hother'
      rw [ha, List.mem_singleton] at hid
      rw [hb, List.mem_singleton] at hmem
      apply keyIds_ne_of_apart hapart hperiod hother hkeys hnext
      rw [ha, hb, ← hid, ← hmem]

/-! ## The rules -/

theorem noneShared_of_no_pair {periods : List KeyPeriod}
    (h : ∀ i before after, periods[i]? = some before →
      periods[i + 1]? = some after → before.keys = none ∨ after.keys = none) :
    NoneShared periods := by
  intro i before after keys next hbefore hafter hkeys hnext
  rcases h i before after hbefore hafter with hnone | hnone
  · rw [hnone] at hkeys
    cases hkeys
  · rw [hnone] at hnext
    cases hnext

theorem twoIdsApart_of_nil (h : wire.periods = []) : wire.TwoIdsApart := by
  intro i before after hbefore
  rw [h] at hbefore
  cases hbefore

variable {encryption : Segmentor.Encryption}

theorem TimelineOf.periods_nil_iff (h : TimelineOf periods encryption) :
    encryption.periods = [] ↔ periods.length = 1 := by
  obtain ⟨first, hfirst, -⟩ := h.first_start
  rw [h.periods_eq]
  constructor
  · intro hnil
    split at hnil
    · assumption
    · rw [hnil] at hfirst
      cases hfirst
  · intro hone
    rw [if_pos hone]

theorem TimelineOf.followsRules (h : TimelineOf periods encryption)
    (hwhole : periods.length = 1 ↔ wire.CoversAll)
    (hlength : periods.length ≤ 256) (hshared : NoneShared periods) :
    FollowsRules wire encryption where
  whole_iff := h.periods_nil_iff.trans hwhole
  first_start hne := by
    have hmany := mt h.periods_nil_iff.mpr hne
    rw [h.periods_eq, if_neg hmany]
    exact h.first_start
  increasing := by
    rw [h.periods_eq]
    split
    · exact List.Pairwise.nil
    · exact h.increasing
  length_le := by
    rw [h.periods_eq]
    split
    · exact Nat.zero_le _
    · exact hlength
  encrypted hne := by
    have hmany := mt h.periods_nil_iff.mpr hne
    rw [h.periods_eq, if_neg hmany]
    exact h.primary
  ids_apart := by
    rw [h.periods_eq]
    split
    · intro i before after keys next hbefore
      cases hbefore
    · exact hshared

/-- A listed timeline is one encrypted period from zero exactly where one was
listed. -/
theorem TimelineOf.covers_all_iff (h : TimelineOf periods encryption)
    (hne : wire.periods ≠ [])
    (hperiods : wire.periods.mapM (periodOf crates) = .ok periods) :
    periods.length = 1 ↔ wire.CoversAll := by
  have hlength := (mapM_forall₂ hperiods).length_eq
  constructor
  · intro hone
    obtain ⟨written, hwritten⟩ := List.length_eq_one_iff.mp (hlength.trans hone)
    obtain ⟨period, rfl⟩ := List.length_eq_one_iff.mp hone
    have hforall := mapM_forall₂ hperiods
    rw [hwritten, List.forall₂_cons] at hforall
    obtain ⟨hstart, hkind⟩ := periodOf_eq_ok hforall.1
    obtain ⟨first, hfirst, hzero⟩ := h.first_start
    obtain rfl := Option.some.inj hfirst
    refine .inr ⟨written, hwritten, ?_, ?_⟩
    · apply UInt64.toNat.inj
      rw [← hstart, hzero]
      rfl
    · rcases hkind with ⟨-, hnone⟩ | ⟨hclear, -⟩
      · have hprimary := h.primary
        rw [List.findSome?_singleton, hnone] at hprimary
        cases hprimary
      · exact hclear
  · rintro (⟨hnil, -⟩ | ⟨written, hwritten, -⟩)
    · exact absurd hnil hne
    · rw [← hlength, hwritten, List.length_singleton]

/-- An accepted object follows the rules of a rotation exactly where periods
with two key IDs share none with their neighbours. -/
theorem accepted_timeline_follows_rules_iff
    (h : wire.validate crates = .ok encryption) :
    FollowsRules wire encryption ↔ wire.TwoIdsApart := by
  obtain ⟨periods, hasks, htimeline⟩ := exists_asks_of_validate h
  cases hasks with
  | whole hnil hlead hprimary =>
      have hcovers : wire.CoversAll := .inl ⟨hnil, hlead⟩
      constructor
      · intro _
        exact twoIdsApart_of_nil hnil
      · intro _
        apply htimeline.followsRules (by simp [hcovers]) (by simp)
        apply noneShared_of_no_pair
        intro i before after _ hafter
        cases hafter
  | lead hnil hlead hpositive hprimary =>
      have hcovers : ¬ wire.CoversAll := by
        rintro (⟨-, hnone | hzero⟩ | ⟨period, hperiod, -⟩)
        · rw [hlead] at hnone
          cases hnone
        · rw [hlead] at hzero
          exact hpositive (Option.some.inj hzero)
        · rw [hnil] at hperiod
          cases hperiod
      constructor
      · intro _
        exact twoIdsApart_of_nil hnil
      · intro _
        apply htimeline.followsRules (by simp [hcovers]) (by simp)
        apply noneShared_of_no_pair
        intro i before after hbefore hafter
        cases i with
        | zero =>
            obtain rfl := Option.some.inj hbefore
            exact .inl rfl
        | succ i => cases i <;> cases hafter
  | listed hne hlength hperiods =>
      have hcount := (mapM_forall₂ hperiods).length_eq
      have hshared := noneShared_iff_twoIdsApart hperiods htimeline.apart
      constructor
      · intro hrules
        apply hshared.mp
        have happart := hrules.ids_apart
        by_cases hone : periods.length = 1
        · intro i before after keys next hbefore hafter
          have hinside := (List.getElem?_eq_some_iff.mp hafter).1
          omega
        · rw [htimeline.periods_eq, if_neg hone] at happart
          exact happart
      · intro htwo
        apply htimeline.followsRules (htimeline.covers_all_iff hne hperiods)
        · rw [← hcount]
          exact hlength
        · exact hshared.mpr htwo

/-! ## Two periods that share an ID -/

def plainCrates : Crates where
  parseUrl _ := none
  decodeBase64 _ := none
  sha256 _ := List.replicate 32 0

/-- A key for the tracks named. -/
def writtenKey (tracks : String) (keyId : String) : Key where
  tracks := some tracks
  keyId := keyId
  key := "00112233445566778899aabbccddeeff"
  iv := some "00000000000000000000000000000000"

def firstId : String := "0123456789abcdef0123456789abcdef"

def secondId : String := "fedcba9876543210fedcba9876543210"

/-- One key for all tracks, and after a second the same for video alone. -/
def sharedPeriods : Encryption where
  scheme := "cbcs"
  keys := []
  systems := []
  clearLeadMs := none
  periods :=
    [{ startMs := 0, clear := false, keys := [writtenKey "all" firstId]
       systems := [] },
      { startMs := 1000, clear := false
        keys := [writtenKey "video" firstId, writtenKey "audio" secondId]
        systems := [] }]

/-- The same key with another ID. -/
def sharedKey (keyId : List UInt8) : ContentKey where
  keyId := keyId
  key := [0x00, 0x11, 0x22, 0x33, 0x44, 0x55, 0x66, 0x77, 0x88, 0x99, 0xaa,
    0xbb, 0xcc, 0xdd, 0xee, 0xff]
  iv := List.replicate 16 0

def firstKey : ContentKey :=
  sharedKey [0x01, 0x23, 0x45, 0x67, 0x89, 0xab, 0xcd, 0xef, 0x01, 0x23, 0x45,
    0x67, 0x89, 0xab, 0xcd, 0xef]

def secondKey : ContentKey :=
  sharedKey [0xfe, 0xdc, 0xba, 0x98, 0x76, 0x54, 0x32, 0x10, 0xfe, 0xdc, 0xba,
    0x98, 0x76, 0x54, 0x32, 0x10]

def readPeriods : List KeyPeriod :=
  [⟨0, some
      { keys := .all firstKey
        systems := []
        systems_once := DrmSystem.none_twice }⟩,
    ⟨1000, some
      { keys := .split firstKey secondKey
        systems := []
        systems_once := DrmSystem.none_twice }⟩]

theorem isOk_sharedPeriods :
    (sharedPeriods.validate plainCrates).isOk = true := by
  decide +kernel

theorem shared_id_accepted :
    ∃ encryption, sharedPeriods.validate plainCrates = .ok encryption ∧
      ¬ FollowsRules sharedPeriods encryption := by
  have hread : sharedPeriods.periods.mapM (periodOf plainCrates) =
      .ok readPeriods := by decide
  obtain ⟨encryption, hencryption⟩ := exists_ok_of_isOk isOk_sharedPeriods
  refine ⟨encryption, hencryption, fun hrules => ?_⟩
  obtain ⟨periods, hasks, htimeline⟩ := exists_asks_of_validate hencryption
  cases hasks with
  | whole hnil => cases hnil
  | lead hnil => cases hnil
  | listed _ _ hperiods =>
      obtain rfl := Except.ok.inj (hperiods.symm.trans hread)
      have happart := hrules.ids_apart
      rw [htimeline.periods_eq, if_neg (by decide)] at happart
      exact happart 0 _ _ _ _ rfl rfl rfl rfl firstKey.keyId (by decide)
        (by decide)

def thirdId : String := "00000000000000000000000000000001"

/-- One key for all tracks, and after a second two others. -/
def rotatedPeriods : Encryption :=
  { sharedPeriods with
    periods :=
      [{ startMs := 0, clear := false, keys := [writtenKey "all" firstId]
         systems := [] },
        { startMs := 1000, clear := false
          keys := [writtenKey "video" secondId, writtenKey "audio" thirdId]
          systems := [] }] }

/-- With two IDs of its own the second period follows the rules. -/
theorem accepted_timeline_follows_rules_iff_rotated :
    (∃ encryption, rotatedPeriods.validate plainCrates = .ok encryption ∧
      FollowsRules rotatedPeriods encryption) ∧
    ∃ encryption, sharedPeriods.validate plainCrates = .ok encryption ∧
      (FollowsRules sharedPeriods encryption ↔ sharedPeriods.TwoIdsApart) := by
  have hapart : rotatedPeriods.TwoIdsApart := by
    intro i before after hbefore hafter _ _ _
    match i with
    | 0 =>
        obtain rfl := Option.some.inj hbefore
        obtain rfl := Option.some.inj hafter
        decide
    | 1 => cases hafter
    | _ + 2 => cases hafter
  have hrotated : (rotatedPeriods.validate plainCrates).isOk = true := by
    decide +kernel
  obtain ⟨rotated, hrotated⟩ := exists_ok_of_isOk hrotated
  obtain ⟨shared, hshared⟩ := exists_ok_of_isOk isOk_sharedPeriods
  exact ⟨⟨rotated, hrotated,
    (accepted_timeline_follows_rules_iff hrotated).mpr hapart⟩,
    shared, hshared, accepted_timeline_follows_rules_iff hshared⟩

end Segmentor.Wire
