import Segmentor.EncryptedFragments
import Segmentor.KeysInForce
import Segmentor.Sequence

/-!
# Key periods

The periods of a rotating asset are placed on its segments once, and then read
in three places: the playlist gives a period's key lines before its first
segment, a segment is protected by the last period that has begun, and the
renditions of an adaptive asset are compared by where their periods begin.
-/

namespace Segmentor

open General

/-! ## Where segments start -/

def Segment.leadTime (segment : Segment) : ℕ :=
  (segment.tracks.head?.map TrackSegment.decodeTime).getD 0

/-- How long after the first segment each starts, on the clock of the track
that cuts the segments. -/
def SegmentPlan.starts (plan : SegmentPlan) : List ℕ :=
  plan.segments.map fun segment =>
    segment.leadTime -
      (plan.segments.head?.map Segment.leadTime).getD 0

/-- Segment `first` is the first that starts at or after `startMs`. -/
structure FirstFrom (timescale : ℕ) (starts : List ℕ) (startMs first : ℕ) :
    Prop where
  reached : ∃ start, starts[first]? = some start ∧
    startMs * timescale ≤ start * 1000
  before : ∀ i < first, ∀ start, starts[i]? = some start →
    start * 1000 < startMs * timescale

/-- A plan whose segments the reference leads, numbered by position. -/
structure Led (tracks : List Track) (plan : SegmentPlan) (reference : Track) :
    Prop where
  nonempty : plan.segments ≠ []
  index : ∀ (i : ℕ) (segment : Segment),
    plan.segments[i]? = some segment → segment.index = i
  start : ∀ segment ∈ plan.segments,
    startOf tracks segment = some (segment.leadTime, reference.timescale)

theorem planned_led {index : MediaIndex} {targetDurationMs : ℕ}
    {p : SegmentPlan} {reference : Track} {ticks : ℕ}
    (h : Planned index targetDurationMs p reference ticks) :
    Led index.tracks p reference := by
  obtain ⟨hlength, hget⟩ := List.forall₂_iff_get.mp h.segments
  have hsegment : ∀ i segment, p.segments[i]? = some segment →
      ∃ window, SegmentOf reference (index.followers reference) (window, i)
        segment := by
    intro i segment hsegment
    obtain ⟨hi, rfl⟩ := List.getElem?_eq_some_iff.mp hsegment
    have hwindow := hget i (by omega) hi
    rw [List.get_eq_getElem, List.get_eq_getElem, List.getElem_zipIdx,
      Nat.zero_add] at hwindow
    exact ⟨_, hwindow⟩
  constructor
  · intro hnil
    rw [hnil] at hlength
    obtain ⟨rest, hrest, hlast⟩ := referenceBoundaries_eq reference ticks
    rw [hrest] at hlength
    cases rest with
    | nil =>
        have := reference.samples_nonempty
        have hzero : 0 = reference.samples.len := by simpa using hlast
        omega
    | cons cut rest => simp at hlength
  · intro i segment hi
    obtain ⟨window, hwindow⟩ := hsegment i segment hi
    exact hwindow.index
  · intro segment hmem
    obtain ⟨i, hi⟩ := List.mem_iff_getElem?.mp hmem
    obtain ⟨window, hwindow⟩ := hsegment i segment hi
    obtain ⟨part, hpart, hid⟩ := hwindow.lead
    have hfind : index.tracks.find? (fun track => track.id == part.trackId) =
        some reference := by
      have hreference := MediaIndex.reference_mem h.found
      cases hfound : index.tracks.find?
          (fun track => track.id == part.trackId) with
      | none =>
          have := List.find?_eq_none.mp hfound reference hreference
          simp [hid] at this
      | some found =>
          have hsame : found.id = reference.id := by
            rw [← hid]
            simpa using List.find?_some hfound
          rw [index.eq_of_id_eq (List.mem_of_find?_eq_some hfound)
            hreference hsame]
    unfold startOf Segment.leadTime
    rw [hpart]
    simp only [Option.bind_eq_bind, Option.bind_some, hfind, Option.map_some,
      Option.getD_some]

namespace Led

variable {tracks : List Track} {plan : SegmentPlan} {reference : Track}

theorem startsBy_iff (h : Led tracks plan reference) {segment : Segment}
    (hsegment : segment ∈ plan.segments) (startMs : ℕ) :
    startsBy tracks (scheduleBase tracks plan) startMs segment = true ↔
      startMs * reference.timescale ≤
        (segment.leadTime -
          (plan.segments.head?.map Segment.leadTime).getD 0) * 1000 := by
  have hbase : scheduleBase tracks plan =
      (plan.segments.head?.map Segment.leadTime).getD 0 := by
    unfold scheduleBase
    cases hsegments : plan.segments with
    | nil => rfl
    | cons first rest =>
        have hfirst := h.start first (by rw [hsegments]; simp)
        simp only [List.head?_cons, Option.bind_some, hfirst, Option.map_some,
          Option.getD_some]
  unfold startsBy
  rw [h.start segment hsegment, hbase]
  simp only [Option.any_some, decide_eq_true_eq]

theorem getElem?_starts (i : ℕ) :
    plan.starts[i]? = plan.segments[i]?.map fun segment =>
      segment.leadTime - (plan.segments.head?.map Segment.leadTime).getD 0 :=
  List.getElem?_map

theorem firstFrom_of_find? (h : Led tracks plan reference) {startMs : ℕ}
    {segment : Segment}
    (hfind : plan.segments.find?
      (startsBy tracks (scheduleBase tracks plan) startMs) = some segment) :
    FirstFrom reference.timescale plan.starts startMs segment.index := by
  obtain ⟨hreached, before, after, hsegments, hbefore⟩ :=
    List.find?_eq_some_iff_append.mp hfind
  have hget : plan.segments[before.length]? = some segment := by
    rw [hsegments, List.getElem?_append_right (Nat.le_refl _), Nat.sub_self]
    rfl
  have hmem := List.mem_of_getElem? hget
  rw [h.index _ _ hget]
  constructor
  · refine ⟨_, ?_, (h.startsBy_iff hmem startMs).mp hreached⟩
    rw [getElem?_starts, hget]
    rfl
  · intro i hi start hstart
    rw [getElem?_starts, Option.map_eq_some_iff] at hstart
    obtain ⟨earlier, hearlier, rfl⟩ := hstart
    have hmemBefore : earlier ∈ before := by
      rw [hsegments, List.getElem?_append_left hi] at hearlier
      exact List.mem_of_getElem? hearlier
    have hnot := hbefore earlier hmemBefore
    rw [Bool.not_eq_true'] at hnot
    by_contra hle
    rw [(h.startsBy_iff (hsegments ▸ List.mem_append_left _ hmemBefore)
      startMs).mpr (by omega)] at hnot
    simp at hnot

theorem lt_of_find?_none (h : Led tracks plan reference) {startMs : ℕ}
    (hfind : plan.segments.find?
      (startsBy tracks (scheduleBase tracks plan) startMs) = none) :
    ∀ start ∈ plan.starts, start * 1000 < startMs * reference.timescale := by
  intro start hstart
  obtain ⟨segment, hsegment, rfl⟩ := List.mem_map.mp hstart
  have hnot := List.find?_eq_none.mp hfind segment hsegment
  rw [h.startsBy_iff hsegment] at hnot
  omega

/-- A later period begins no earlier, so it is dropped when one before it
is. -/
theorem find?_none_of_le (h : Led tracks plan reference) {startMs later : ℕ}
    (hle : startMs ≤ later)
    (hfind : plan.segments.find?
      (startsBy tracks (scheduleBase tracks plan) startMs) = none) :
    plan.segments.find?
      (startsBy tracks (scheduleBase tracks plan) later) = none := by
  rw [List.find?_eq_none] at hfind ⊢
  intro segment hsegment hlater
  apply hfind segment hsegment
  rw [h.startsBy_iff hsegment] at hlater ⊢
  have := Nat.mul_le_mul_right reference.timescale hle
  omega

end Led

/-! ## Placing the periods -/

theorem placePeriod_of_none {tracks : List Track} {plan : SegmentPlan}
    {placed : List ScheduledPeriod} {period : KeyPeriod}
    (h : plan.segments.find?
      (startsBy tracks (scheduleBase tracks plan) period.startMs) = none) :
    placePeriod tracks plan placed period = .ok placed := by
  unfold placePeriod
  rw [h]

theorem placePeriod_of_some {tracks : List Track} {plan : SegmentPlan}
    {placed next : List ScheduledPeriod} {period : KeyPeriod}
    {first : Segment}
    (hfind : plan.segments.find?
      (startsBy tracks (scheduleBase tracks plan) period.startMs) =
        some first)
    (h : placePeriod tracks plan placed period = .ok next) :
    next = placed ++ [⟨first.index, period.keys⟩] ∧
      ∀ previous ∈ placed.getLast?, previous.firstSegment < first.index := by
  unfold placePeriod at h
  rw [hfind] at h
  dsimp only at h
  split at h
  · simp at h
  · rename_i hlater
    refine ⟨(Except.ok.inj h).symm, fun previous hprevious => ?_⟩
    rw [Option.mem_def.mp hprevious, Option.any_some, decide_eq_true_eq]
      at hlater
    omega

theorem pairwise_concat_of_getLast? {α : Type*} {f : α → ℕ} {l : List α}
    {a : α} (hl : (l.map f).Pairwise (· < ·))
    (hlast : ∀ last ∈ l.getLast?, f last < f a) :
    ((l ++ [a]).map f).Pairwise (· < ·) := by
  rw [List.map_append, List.pairwise_append]
  refine ⟨hl, by simp, fun x hx y hy => ?_⟩
  obtain rfl : y = f a := by simpa using hy
  rcases List.eq_nil_or_concat l with rfl | ⟨front, last, rfl⟩
  · simp at hx
  · rw [List.concat_eq_append] at hx hl hlast
    have hlt := hlast last (by simp)
    rw [List.map_append, List.mem_append] at hx
    rw [List.map_append, List.pairwise_append] at hl
    rcases hx with hx | hx
    · have := hl.2.2 x hx (f last) (by simp)
      omega
    · obtain rfl : x = f last := by simpa using hx
      exact hlt

/-- The periods placed are the first ones, each at the first segment from its
start on; no segment starts after the others. -/
structure Placed (timescale : ℕ) (starts : List ℕ) (periods : List KeyPeriod)
    (placed : List ScheduledPeriod) : Prop where
  increasing : (placed.map ScheduledPeriod.firstSegment).Pairwise (· < ·)
  split : ∃ kept dropped, periods = kept ++ dropped ∧
    List.Forall₂ (fun period scheduled =>
      scheduled.keys = period.keys ∧
        FirstFrom timescale starts period.startMs scheduled.firstSegment)
      kept placed ∧
    ∀ period ∈ dropped, ∀ start ∈ starts,
      start * 1000 < period.startMs * timescale

theorem foldlM_placePeriod_of_none {tracks : List Track} {plan : SegmentPlan}
    {periods : List KeyPeriod} {placed : List ScheduledPeriod}
    (h : ∀ period ∈ periods, plan.segments.find?
      (startsBy tracks (scheduleBase tracks plan) period.startMs) = none) :
    periods.foldlM (placePeriod tracks plan) placed = .ok placed := by
  induction periods with
  | nil => rfl
  | cons period periods ih =>
      obtain ⟨hperiod, hperiods⟩ := List.forall_mem_cons.mp h
      rw [List.foldlM_cons, placePeriod_of_none hperiod, ok_bind, ih hperiods]

theorem Led.foldlM_placePeriod {tracks : List Track} {plan : SegmentPlan}
    {reference : Track} (hled : Led tracks plan reference)
    {done periods : List KeyPeriod} {placed result : List ScheduledPeriod}
    (hincreasing : (periods.map KeyPeriod.startMs).Pairwise (· < ·))
    (hplaced : (placed.map ScheduledPeriod.firstSegment).Pairwise (· < ·))
    (hdone : List.Forall₂ (fun period scheduled =>
      scheduled.keys = period.keys ∧ FirstFrom reference.timescale
        plan.starts period.startMs scheduled.firstSegment) done placed)
    (h : periods.foldlM (placePeriod tracks plan) placed = .ok result) :
    Placed reference.timescale plan.starts (done ++ periods) result := by
  induction periods generalizing done placed with
  | nil =>
      obtain rfl := Except.ok.inj h
      exact ⟨hplaced, done, [], rfl, hdone, by simp⟩
  | cons period periods ih =>
      rw [List.map_cons, List.pairwise_cons] at hincreasing
      cases hfind : plan.segments.find?
          (startsBy tracks (scheduleBase tracks plan) period.startMs) with
      | none =>
          have hnone : ∀ later ∈ period :: periods, plan.segments.find?
              (startsBy tracks (scheduleBase tracks plan) later.startMs) =
                none := by
            intro later hlater
            rcases List.mem_cons.mp hlater with rfl | hlater
            · exact hfind
            · exact hled.find?_none_of_le
                (hincreasing.1 _ (List.mem_map_of_mem hlater)).le hfind
          rw [foldlM_placePeriod_of_none hnone] at h
          obtain rfl := Except.ok.inj h
          exact ⟨hplaced, done, period :: periods, rfl, hdone,
            fun later hlater => hled.lt_of_find?_none (hnone later hlater)⟩
      | some first =>
          rw [List.foldlM_cons] at h
          obtain ⟨next, hnext, h⟩ := bind_eq_ok_iff.mp h
          obtain ⟨rfl, hlast⟩ := placePeriod_of_some hfind hnext
          rw [← List.singleton_append, ← List.append_assoc]
          refine ih hincreasing.2
            (pairwise_concat_of_getLast? hplaced hlast) ?_ h
          exact List.rel_append hdone
            (.cons ⟨rfl, hled.firstFrom_of_find? hfind⟩ .nil)

/-- A schedule places a first part of the periods in order, and the first of
them at segment zero. -/
theorem Led.schedule_placed {tracks : List Track} {plan : SegmentPlan}
    {reference : Track} (hled : Led tracks plan reference)
    {encryption : Encryption} {placed : List ScheduledPeriod}
    (hrotating : encryption.isRotating = true)
    (h : schedule encryption tracks plan = .ok placed) :
    Placed reference.timescale plan.starts encryption.periods placed ∧
      placed.head?.map ScheduledPeriod.firstSegment = some 0 := by
  unfold schedule at h
  rw [if_pos hrotating] at h
  have hplaced := @foldlM_placePeriod _ _ _ hled [] _ _ _
    encryption.increasing List.Pairwise.nil .nil h
  refine ⟨hplaced, ?_⟩
  obtain ⟨kept, dropped, hperiods, hkept, hdropped⟩ := hplaced.split
  obtain ⟨first, rest, hsegments⟩ := List.exists_cons_of_ne_nil hled.nonempty
  have hstart : plan.starts[0]? = some 0 := by
    unfold SegmentPlan.starts
    rw [hsegments, List.map_cons, List.getElem?_cons_zero, List.head?_cons,
      Option.map_some, Option.getD_some, Nat.sub_self]
  obtain ⟨period, periods, hcons⟩ := List.exists_cons_of_ne_nil
    (Encryption.isRotating_iff.mp hrotating)
  have hzero : period.startMs = 0 :=
    encryption.first_start period (by rw [hcons]; rfl)
  rw [List.nil_append, hcons] at hperiods
  cases hkept with
  | nil =>
      have hlt := hdropped period (by
        rw [List.nil_append] at hperiods
        rw [← hperiods]
        exact List.mem_cons_self) 0 (List.mem_of_getElem? hstart)
      rw [hzero] at hlt
      omega
  | @cons earliest scheduled _ _ hboth _ =>
      obtain ⟨-, hfirst⟩ := hboth
      obtain ⟨rfl, -⟩ := List.cons.inj hperiods
      rw [List.head?_cons, Option.map_some]
      by_contra hne
      have hlt := hfirst.before 0 (by
        have : scheduled.firstSegment ≠ 0 := fun heq => hne (by rw [heq])
        omega) 0 hstart
      rw [hzero] at hlt
      omega

/-! ## The keys in force -/

/-- The periods that have begun by segment `number`. -/
def begun (placed : List ScheduledPeriod) (number : ℕ) :
    List ScheduledPeriod :=
  placed.takeWhile fun period => decide (period.firstSegment ≤ number)

/-- The key lines in force after those of `periods`. -/
def linesAfter (kind : TrackKind) (periods : List (Option PeriodKeys)) :
    List KeyLine :=
  afterStages KeyLine.keyFormat (periods.map (keyStage kind))

theorem inForceAt_nil (kind : TrackKind) (placed : List ScheduledPeriod)
    (number : ℕ) :
    inForceAt kind [] placed number =
      linesAfter kind ((begun placed number).map ScheduledPeriod.keys) := by
  unfold inForceAt linesAfter afterStages begun
  rw [List.foldl_map (f := keyStage kind)]
  rfl

/-- Whether what is in force says how a segment is protected: no key for a
clear one, and for an encrypted one its key alone. -/
def KeysMatch (inForce : List KeyLine) : Option SegmentProtection → Prop
  | some (.encrypted protection) =>
      inForce ≠ [] ∧ ∀ line ∈ inForce, line.key = some protection.key
  | some (.clear _) => inForce = []
  | none => False

/-- The periods since the last clear one speak for the last of them: HLS can
name a system of one at least, and where no later one names a format again,
the one that did has the same key. -/
def SpeakForLast (kind : TrackKind) (periods : List (Option PeriodKeys)) :
    Prop :=
  ∀ current older, standing periods = current :: older →
    (∃ period ∈ standing periods, period.keyFormats ≠ []) ∧
      ∀ newer period rest, standing periods = newer ++ period :: rest →
        ∀ format ∈ period.keyFormats,
          (∀ later ∈ newer, format ∉ later.keyFormats) →
          period.keyFor kind = current.keyFor kind

theorem mem_linesAfter {kind : TrackKind} {periods : List (Option PeriodKeys)}
    {line : KeyLine} :
    line ∈ linesAfter kind periods ↔
      ∃ newer period older, standing periods = newer ++ period :: older ∧
        line ∈ hlsKeyLines period (period.keyFor kind) ∧
        ∀ later ∈ newer, line.keyFormat ∉ later.keyFormats := by
  unfold linesAfter
  have hstages : periods.map (keyStage kind) =
      periods.map (Option.map fun period =>
        hlsKeyLines period (period.keyFor kind)) := rfl
  rw [mem_afterStages, hstages, standing_map]
  constructor
  · rintro ⟨newer, block, older, hstanding, hmem, hnewer⟩
    obtain ⟨newer, rest, hperiods, rfl, hrest⟩ :=
      List.map_eq_append_iff.mp hstanding
    obtain ⟨period, older, rfl, rfl, rfl⟩ := List.map_eq_cons_iff.mp hrest
    refine ⟨newer, period, older, hperiods, hmem, fun later hlater => ?_⟩
    rw [← keyFormat_hlsKeyLines later (later.keyFor kind)]
    exact hnewer _ (List.mem_map_of_mem hlater)
  · rintro ⟨newer, period, older, hperiods, hmem, hnewer⟩
    refine ⟨_, _, _, by rw [hperiods, List.map_append, List.map_cons], hmem,
      ?_⟩
    intro block hblock
    obtain ⟨later, hlater, rfl⟩ := List.mem_map.mp hblock
    rw [keyFormat_hlsKeyLines]
    exact hnewer later hlater

theorem mem_keyFormats_linesAfter {kind : TrackKind}
    {periods : List (Option PeriodKeys)} {format : KeyFormat} :
    format ∈ (linesAfter kind periods).map KeyLine.keyFormat ↔
      ∃ period ∈ standing periods, format ∈ period.keyFormats := by
  unfold linesAfter
  have hstages : periods.map (keyStage kind) =
      periods.map (Option.map fun period =>
        hlsKeyLines period (period.keyFor kind)) := rfl
  rw [mem_map_afterStages, hstages, standing_map]
  constructor
  · rintro ⟨block, hblock, hformat⟩
    obtain ⟨period, hperiod, rfl⟩ := List.mem_map.mp hblock
    rw [keyFormat_hlsKeyLines] at hformat
    exact ⟨period, hperiod, hformat⟩
  · rintro ⟨period, hperiod, hformat⟩
    refine ⟨_, List.mem_map_of_mem hperiod, ?_⟩
    rwa [keyFormat_hlsKeyLines]

theorem exists_line_of_mem_keyFormats {period : PeriodKeys}
    {format : KeyFormat} (key : ContentKey) (h : format ∈ period.keyFormats) :
    ∃ line ∈ hlsKeyLines period key, line.keyFormat = format := by
  rw [← keyFormat_hlsKeyLines period key] at h
  exact List.mem_map.mp h

/-- With the last period encrypted, what is in force is for its key alone if
and only if the periods speak for it. -/
theorem linesAfter_concat_some_iff {kind : TrackKind}
    {periods : List (Option PeriodKeys)} {current : PeriodKeys} :
    (linesAfter kind (periods ++ [some current]) ≠ [] ∧
      ∀ line ∈ linesAfter kind (periods ++ [some current]),
        line.key = some (current.keyFor kind)) ↔
      SpeakForLast kind (periods ++ [some current]) := by
  have hstanding := standing_concat_some periods current
  constructor
  · rintro ⟨hne, hkeys⟩ last older hlast
    obtain ⟨rfl, -⟩ := List.cons.inj (hstanding.symm.trans hlast)
    constructor
    · obtain ⟨line, hline⟩ := List.exists_mem_of_ne_nil _ hne
      obtain ⟨period, hperiod, hformat⟩ :=
        mem_keyFormats_linesAfter.mp (List.mem_map_of_mem hline)
      exact ⟨period, hperiod, List.ne_nil_of_mem hformat⟩
    · intro newer period rest hperiods format hformat hnewer
      obtain ⟨line, hline, rfl⟩ :=
        exists_line_of_mem_keyFormats (period.keyFor kind) hformat
      have hkey := hkeys line
        (mem_linesAfter.mpr ⟨newer, period, rest, hperiods, hline, hnewer⟩)
      rw [key_of_mem_hlsKeyLines hline] at hkey
      exact Option.some.inj hkey
  · intro hspeak
    obtain ⟨⟨period, hperiod, hformats⟩, hsame⟩ := hspeak _ _ hstanding
    constructor
    · obtain ⟨format, hformat⟩ := List.exists_mem_of_ne_nil _ hformats
      intro hnil
      have hmem : format ∈ (linesAfter kind
          (periods ++ [some current])).map KeyLine.keyFormat :=
        mem_keyFormats_linesAfter.mpr ⟨period, hperiod, hformat⟩
      rw [hnil] at hmem
      simp at hmem
    · intro line hline
      obtain ⟨newer, period, older, hperiods, hmem, hnewer⟩ :=
        mem_linesAfter.mp hline
      have hformat : line.keyFormat ∈ period.keyFormats := by
        rw [← keyFormat_hlsKeyLines period (period.keyFor kind)]
        exact List.mem_map_of_mem hmem
      rw [key_of_mem_hlsKeyLines hmem,
        hsame newer period older hperiods _ hformat hnewer]

theorem linesAfter_concat_none {kind : TrackKind}
    {periods : List (Option PeriodKeys)} :
    linesAfter kind (periods ++ [none]) = [] := by
  unfold linesAfter
  rw [List.map_append, List.map_singleton, afterStages_concat]
  rfl

/-! ## How segments are protected -/

/-- How a track's segments are protected in a period. -/
def protectionIn (encryption : Encryption) (kind : TrackKind)
    (period : ScheduledPeriod) : SegmentProtection :=
  match period.keys with
  | some keys =>
      .encrypted (trackProtection keys encryption.toPeriodKeys true kind)
  | none => .clear clearRotation

theorem get_trackProtections {index : MediaIndex} {track : Track}
    (htrack : track ∈ index.tracks) (period primary : PeriodKeys)
    (rotating : Bool) :
    (trackProtections period primary index.tracks rotating).get track.id =
      some (trackProtection period primary rotating track.kind) := by
  unfold TrackProtections.get trackProtections
  rw [List.find?_map]
  have hfind : index.tracks.find? ((fun entry => entry.1 == track.id) ∘
      fun track => (track.id,
        trackProtection period primary rotating track.kind)) = some track := by
    cases hfound : index.tracks.find? ((fun entry => entry.1 == track.id) ∘
        fun track => (track.id,
          trackProtection period primary rotating track.kind)) with
    | none =>
        have := List.find?_eq_none.mp hfound track htrack
        simp at this
    | some found =>
        have hsame : found.id = track.id := by
          simpa using List.find?_some hfound
        rw [index.eq_of_id_eq (List.mem_of_find?_eq_some hfound) htrack hsame]
  rw [hfind]
  rfl

/-- A segment is protected by the last period that has begun. -/
theorem forSegment_of_scheduled {index : MediaIndex} {plan : SegmentPlan}
    {protection : AssetProtection} {placed : List ScheduledPeriod}
    {track : Track}
    (hnew : AssetProtection.new protection.encryption index.tracks plan =
      .ok protection)
    (hrotating : protection.encryption.isRotating = true)
    (hplaced : schedule protection.encryption index.tracks plan = .ok placed)
    (htrack : track ∈ index.tracks) {number : ℕ}
    (hbegun : begun placed number ≠ []) :
    protection.forSegment number track.id =
      (begun placed number).getLast?.map
        (protectionIn protection.encryption track.kind) := by
  have hperiods : protection.periods = placed.map
      (periodProtection protection.encryption.toPeriodKeys index.tracks) := by
    unfold AssetProtection.new at hnew
    rw [if_pos hrotating, hplaced] at hnew
    exact (congrArg AssetProtection.periods (Except.ok.inj hnew)).symm
  have hpositive : 0 < (begun placed number).length :=
    List.length_pos_iff.mpr hbegun
  have hnext : partitionPoint
      (fun period => decide (period.firstSegment ≤ number))
      protection.periods = (begun placed number).length := by
    unfold partitionPoint begun
    rw [hperiods, List.takeWhile_map, List.length_map]
    rfl
  have hlast : placed[(begun placed number).length - 1]? =
      (begun placed number).getLast? := by
    have hprefix : begun placed number <+: placed := List.takeWhile_prefix _
    rw [List.getLast?_eq_getElem?]
    exact (List.prefix_iff_getElem?.mp hprefix _ (by omega)).trans
      (List.getElem?_eq_getElem _).symm
  have hne : protection.periods.isEmpty = false := by
    rw [hperiods, List.isEmpty_eq_false_iff, ne_eq, List.map_eq_nil_iff]
    intro hnil
    rw [hnil] at hbegun
    exact hbegun rfl
  unfold AssetProtection.forSegment
  rw [hne, hnext]
  have hsub : checkedSub (begun placed number).length 1 =
      some ((begun placed number).length - 1) :=
    checkedSub_eq_some_iff.mpr ⟨hpositive, rfl⟩
  simp only [Bool.false_eq_true, if_false, hsub, Option.bind_eq_bind,
    Option.bind_some, hperiods, List.getElem?_map, hlast]
  cases (begun placed number).getLast? with
  | none => rfl
  | some period =>
      unfold periodProtection protectionIn
      simp only [Option.map_some, Option.bind_some]
      cases period.keys with
      | none => rfl
      | some keys =>
          dsimp only
          rw [get_trackProtections htrack]
          rfl

/-! ## Assets whose keys change -/

/-- An asset whose keys change, with its periods placed.  The mapper refuses
an answer that also asks for whole-segment encryption. -/
structure PackagedAsset.Rotates (asset : PackagedAsset)
    (protection : AssetProtection) (placed : List ScheduledPeriod) : Prop where
  built : asset.protection = some protection
  rotating : protection.encryption.isRotating = true
  scheduled : schedule protection.encryption asset.index.tracks asset.plan =
    .ok placed
  exclusive : asset.aes128 = none

namespace PackagedAsset.Rotates

variable {asset : PackagedAsset} {protection : AssetProtection}
  {placed : List ScheduledPeriod}

theorem schedule_placed (h : asset.Rotates protection placed) :
    ∃ reference, asset.index.reference = some reference ∧
      Placed reference.timescale asset.plan.starts
        protection.encryption.periods placed ∧
      placed.head?.map ScheduledPeriod.firstSegment = some 0 := by
  obtain ⟨targetDurationMs, hplan⟩ := asset.planned
  obtain ⟨reference, ticks, hplanned⟩ := plan_spec hplan
  exact ⟨reference, hplanned.found,
    (planned_led hplanned).schedule_placed h.rotating h.scheduled⟩

theorem exists_eq_cons (h : asset.Rotates protection placed) :
    ∃ first rest, placed = first :: rest ∧ first.firstSegment = 0 := by
  obtain ⟨reference, -, -, hzero⟩ := h.schedule_placed
  cases placed with
  | nil => simp at hzero
  | cons first rest => exact ⟨first, rest, rfl, by simpa using hzero⟩

theorem begun_ne_nil (h : asset.Rotates protection placed) (number : ℕ) :
    begun placed number ≠ [] := by
  obtain ⟨first, rest, rfl, hzero⟩ := h.exists_eq_cons
  unfold begun
  rw [List.takeWhile_cons, if_pos (decide_eq_true (by omega))]
  exact List.cons_ne_nil _ _

theorem keySchedule_eq (h : asset.Rotates protection placed) :
    asset.presentation.keySchedule = placed := by
  have hencryption : asset.presentation.encryption =
      some protection.encryption := by
    change asset.protection.map AssetProtection.encryption = _
    rw [h.built]
    rfl
  have hscheduled : schedule protection.encryption asset.presentation.tracks
      asset.presentation.plan = .ok placed := h.scheduled
  unfold Presentation.keySchedule
  rw [hencryption]
  dsimp only
  rw [if_pos h.rotating, hscheduled]

/-- Each segment listed is read with the lines of the periods that have
begun. -/
theorem keysListed_mediaPlaylist (h : asset.Rotates protection placed)
    {key : TrackKey} {track : Track} {lines : List PlaylistLine}
    (htrack : asset.track key = .ok track)
    (hlines : mediaPlaylist asset.presentation key = .ok lines) :
    keysListed [] lines =
      (List.range (asset.plan.trackSegments track.id).length).map
        fun number => (number, linesAfter track.kind
          ((begun placed number).map ScheduledPeriod.keys)) := by
  obtain ⟨reference, -, hplaced, -⟩ := h.schedule_placed
  obtain ⟨first, rest, rfl, hzero⟩ := h.exists_eq_cons
  obtain ⟨entries, hentries, rfl⟩ := (mediaPlaylist_eq_ok_iff htrack).mp hlines
  have hopening : readLines [] (keyLinesOf
      ([.opening (targetDuration asset.presentation track)] ++
        keyLines asset.presentation track ++ [.map none] ++
        writeAes128Key asset.presentation)) =
      enterKeys track.kind [] first.keys := by
    have haes : asset.presentation.aes128 = none := h.exclusive
    unfold keyLines writeAes128Key
    rw [h.keySchedule_eq, haes]
    simp only [keyLinesOf_append, List.head?_cons, Option.map_some,
      Option.getD_some, Option.toList_none, List.map_nil]
    cases hkeys : first.keys with
    | none => rfl
    | some keys =>
        change readLines [] (keyLinesOf
          ((hlsKeyLines keys (keys.keyFor track.kind)).map .key) ++ [] ++ []) =
            _
        rw [keyLinesOf_map_key, List.append_nil, List.append_nil,
          readLines_hlsKeyLines]
        rfl
  have hnone : listedNumbers
      ([.opening (targetDuration asset.presentation track)] ++
        keyLines asset.presentation track ++ [.map none] ++
        writeAes128Key asset.presentation) = [] := by
    simp only [listedNumbers_append, listedNumbers_writeAes128Key, keyLines,
      listedNumbers_keyTransitionLines, List.append_nil]
    rfl
  have hincreasing := hplaced.increasing
  rw [List.map_cons, List.pairwise_cons] at hincreasing
  unfold writeSegmentEntries at hentries
  rw [h.keySchedule_eq, List.drop_one, List.tail_cons] at hentries
  rw [List.append_assoc, keysListed_append_of_listedNumbers hnone, hopening,
    keysListed_append,
    keysListed_segmentEntries hincreasing.2 (by simp) hentries]
  have hend : ∀ inForce, keysListed inForce [.endList] = [] := fun _ => rfl
  rw [hend, List.append_nil, List.range_eq_range']
  refine List.map_congr_left fun number _ => ?_
  rw [← inForceAt_nil, inForceAt_cons_of_le (by omega)]

theorem forSegment_eq (h : asset.Rotates protection placed) {track : Track}
    (htrack : track ∈ asset.index.tracks) (number : ℕ) :
    protection.forSegment number track.id =
      (begun placed number).getLast?.map
        (protectionIn protection.encryption track.kind) :=
  forSegment_of_scheduled (asset.protection_built protection h.built)
    h.rotating h.scheduled htrack (h.begun_ne_nil number)

/-- What is in force at a segment says how it is protected if and only if the
periods that have begun speak for the last of them. -/
theorem keysMatch_iff (h : asset.Rotates protection placed) {track : Track}
    (htrack : track ∈ asset.index.tracks) (number : ℕ) :
    KeysMatch
        (linesAfter track.kind
          ((begun placed number).map ScheduledPeriod.keys))
        (protection.forSegment number track.id) ↔
      SpeakForLast track.kind
        ((begun placed number).map ScheduledPeriod.keys) := by
  rw [h.forSegment_eq htrack]
  rcases List.eq_nil_or_concat (begun placed number) with hnil |
    ⟨earlier, last, hbegun⟩
  · exact absurd hnil (h.begun_ne_nil number)
  rw [hbegun, List.concat_eq_append, List.getLast?_concat, Option.map_some,
    List.map_append, List.map_singleton]
  unfold protectionIn
  cases last.keys with
  | none =>
      rw [linesAfter_concat_none]
      refine iff_of_true rfl fun current older hstanding => ?_
      rw [standing_concat_none] at hstanding
      simp at hstanding
  | some keys => exact linesAfter_concat_some_iff

end PackagedAsset.Rotates

/-! ## Groups of fragments -/

/-- Whether the fragments written under a protection carry a `seig` group just
when they are clear or under another key than the declared one. -/
def SeigFollows (declared : TrackProtection) : SegmentProtection → Prop
  | .encrypted protection =>
      ∀ trackId kind samples decodeTime sequenceNumber subsamples
        payloadLength header,
        encryptedFragmentHeader trackId kind samples decodeTime sequenceNumber
          subsamples payloadLength protection.rotation = .ok header →
        carriesSeig header = .ok (decide (protection.key ≠ declared.key))
  | .clear rotation =>
      ∀ trackId kind samples decodeTime sequenceNumber payloadLength header,
        clearFragmentHeader trackId kind samples decodeTime sequenceNumber
          rotation payloadLength = .ok header →
        carriesSeig header = .ok true

theorem seigFollows_protectionIn (encryption : Encryption) (kind : TrackKind)
    (period : ScheduledPeriod) (rotating : Bool) :
    SeigFollows
      (trackProtection encryption.toPeriodKeys encryption.toPeriodKeys rotating
        kind)
      (protectionIn encryption kind period) := by
  unfold protectionIn
  cases period.keys with
  | none =>
      intro trackId kind samples decodeTime sequenceNumber payloadLength header
        h
      exact carriesSeig_clearFragmentHeader wholePssh_clearRotation h
  | some keys =>
      intro trackId _ samples decodeTime sequenceNumber subsamples
        payloadLength header h
      rw [carriesSeig_encryptedFragmentHeader
        (fun _ => wholePssh_trackProtection) h]
      unfold trackProtection
      dsimp only
      rw [if_pos rfl, Option.bind_some]
      by_cases hsame : keys.keyFor kind = encryption.keyFor kind
      · rw [if_neg (not_not.mpr hsame), decide_eq_false (not_not.mpr hsame)]
        rfl
      · rw [if_pos hsame, decide_eq_true hsame]
        rfl

theorem PackagedAsset.Rotates.seigFollows {asset : PackagedAsset}
    {protection : AssetProtection} {placed : List ScheduledPeriod}
    (h : asset.Rotates protection placed) {track : Track}
    (htrack : track ∈ asset.index.tracks) (number : ℕ) :
    ∃ declared found, protection.tracks.get track.id = some declared ∧
      protection.forSegment number track.id = some found ∧
      SeigFollows declared found := by
  have htracks : protection.tracks = trackProtections
      protection.encryption.toPeriodKeys protection.encryption.toPeriodKeys
      asset.index.tracks protection.encryption.isRotating := by
    have hnew := asset.protection_built protection h.built
    unfold AssetProtection.new at hnew
    obtain ⟨periods, -, hnew⟩ := bind_eq_ok_iff.mp hnew
    exact (congrArg AssetProtection.tracks (Except.ok.inj hnew)).symm
  have hlast := List.getLast?_eq_some_getLast (h.begun_ne_nil number)
  generalize (begun placed number).getLast _ = last at hlast
  refine ⟨_, _, ?_, ?_, seigFollows_protectionIn protection.encryption
    track.kind last protection.encryption.isRotating⟩
  · rw [htracks, get_trackProtections htrack]
  · rw [h.forSegment_eq htrack, hlast]
    rfl

/-! ## Renditions -/

structure VideoEntry where
  id : String
  asset : PackagedAsset

/-- Numbers as a list is printed. -/
def debugList (l : List ℕ) : String :=
  "[" ++ String.intercalate ", " (l.map toString) ++ "]"

/-- The first segment of every key period must be the same for all. -/
def periodsAgree : List (String × List ℕ) → Result Unit
  | [] => .ok ()
  | (firstId, first) :: rest =>
      match rest.find? fun other => other.2 != first with
      | none => .ok ()
      | some (id, other) => .error (.invalidMedia
          ("renditions `" ++ firstId ++ "` and `" ++ id ++
            "` begin their key periods at different segments (" ++
            debugList first ++ " vs " ++ debugList other ++ ")"))

/-- Every video rendition must begin each key period at the same segment. -/
def checkKeyPeriods (video : List VideoEntry) : Result Unit :=
  periodsAgree (video.map fun entry =>
    (entry.id, entry.asset.presentation.keySchedule.map
      ScheduledPeriod.firstSegment))

theorem eq_of_periodsAgree {starts : List (String × List ℕ)}
    (h : periodsAgree starts = .ok ()) {a b : String × List ℕ}
    (ha : a ∈ starts) (hb : b ∈ starts) : a.2 = b.2 := by
  cases starts with
  | nil => simp at ha
  | cons first rest =>
      obtain ⟨firstId, first⟩ := first
      unfold periodsAgree at h
      dsimp only at h
      split at h
      · rename_i hnone
        have hsame : ∀ entry ∈ (firstId, first) :: rest, entry.2 = first := by
          intro entry hentry
          rcases List.mem_cons.mp hentry with rfl | hentry
          · rfl
          · have := List.find?_eq_none.mp hnone entry hentry
            simpa using this
        rw [hsame a ha, hsame b hb]
      · simp at h

/-- The periods placed are told by where they begin. -/
theorem Placed.eq_of_firstSegments {timescale otherTimescale : ℕ}
    {starts otherStarts : List ℕ} {periods : List KeyPeriod}
    {placed other : List ScheduledPeriod}
    (h : Placed timescale starts periods placed)
    (hother : Placed otherTimescale otherStarts periods other)
    (hsame : placed.map ScheduledPeriod.firstSegment =
      other.map ScheduledPeriod.firstSegment) : placed = other := by
  have hkeys : ∀ {timescale starts placed},
      Placed timescale starts periods placed →
      placed.map ScheduledPeriod.keys =
        (periods.take placed.length).map KeyPeriod.keys := by
    intro timescale starts placed h
    obtain ⟨kept, dropped, hperiods, hkept, -⟩ := h.split
    rw [hperiods, List.take_left' hkept.length_eq]
    clear hperiods h
    induction hkept with
    | nil => rfl
    | cons hboth _ ih => rw [List.map_cons, List.map_cons, hboth.1, ih]
  have hlength : placed.length = other.length := by
    simpa using congrArg List.length hsame
  have hkeysSame : placed.map ScheduledPeriod.keys =
      other.map ScheduledPeriod.keys := by
    rw [hkeys h, hkeys hother, hlength]
  refine List.ext_getElem hlength fun i hi hi' => ?_
  have hfirst := List.getElem_of_eq hsame (by simpa using hi)
  have hkey := List.getElem_of_eq hkeysSame (by simpa using hi)
  rw [List.getElem_map, List.getElem_map] at hfirst hkey
  cases hplaced : placed[i] with
  | mk first keys =>
      cases hothers : other[i] with
      | mk otherFirst otherKeys =>
          rw [hplaced, hothers] at hfirst hkey
          obtain rfl : first = otherFirst := hfirst
          obtain rfl : keys = otherKeys := hkey
          rfl

/-- Two renditions whose periods begin alike protect each segment alike. -/
theorem forSegment_eq_of_checkKeyPeriods {video : List VideoEntry}
    (hcheck : checkKeyPeriods video = .ok ()) {entry other : VideoEntry}
    (hentry : entry ∈ video) (hother : other ∈ video)
    {protection otherProtection : AssetProtection}
    {placed otherPlaced : List ScheduledPeriod}
    (h : entry.asset.Rotates protection placed)
    (h' : other.asset.Rotates otherProtection otherPlaced)
    (hsame : protection.encryption = otherProtection.encryption)
    {track otherTrack : Track} (htrack : track ∈ entry.asset.index.tracks)
    (hotherTrack : otherTrack ∈ other.asset.index.tracks)
    (hkind : track.kind = otherTrack.kind) (number : ℕ) :
    protection.forSegment number track.id =
      otherProtection.forSegment number otherTrack.id := by
  have hstarts := eq_of_periodsAgree hcheck
    (List.mem_map_of_mem hentry) (List.mem_map_of_mem hother)
  dsimp only at hstarts
  rw [h.keySchedule_eq, h'.keySchedule_eq] at hstarts
  obtain ⟨reference, -, hplaced, -⟩ := h.schedule_placed
  obtain ⟨otherReference, -, hotherPlaced, -⟩ := h'.schedule_placed
  rw [← hsame] at hotherPlaced
  obtain rfl := hplaced.eq_of_firstSegments hotherPlaced hstarts
  rw [h.forSegment_eq htrack, h'.forSegment_eq hotherTrack, hsame, hkind]

/-! ## Periods read alike -/

/-- The periods are placed in order, the first at segment zero; the lines in
force at each segment listed say how it is protected if and only if the periods
begun by then speak for the last; fragments carry groups where they must; and
two renditions that are accepted protect each segment alike. -/
theorem key_periods_read_alike {asset : PackagedAsset}
    {protection : AssetProtection} {placed : List ScheduledPeriod}
    (h : asset.Rotates protection placed) :
    (∃ reference, asset.index.reference = some reference ∧
      Placed reference.timescale asset.plan.starts
        protection.encryption.periods placed ∧
      placed.head?.map ScheduledPeriod.firstSegment = some 0) ∧
    (∀ key track lines, asset.track key = .ok track →
      mediaPlaylist asset.presentation key = .ok lines →
      ((∀ entry ∈ keysListed [] lines,
          KeysMatch entry.2 (protection.forSegment entry.1 track.id)) ↔
        ∀ number ∈ listedNumbers lines, SpeakForLast track.kind
          ((begun placed number).map ScheduledPeriod.keys))) ∧
    (∀ track ∈ asset.index.tracks, ∀ number,
      ∃ declared found, protection.tracks.get track.id = some declared ∧
        protection.forSegment number track.id = some found ∧
        SeigFollows declared found) ∧
    (∀ video, checkKeyPeriods video = .ok () →
      ∀ entry ∈ video, entry.asset = asset →
        ∀ other ∈ video, ∀ otherProtection otherPlaced,
          other.asset.Rotates otherProtection otherPlaced →
          protection.encryption = otherProtection.encryption →
          ∀ track ∈ asset.index.tracks, ∀ otherTrack ∈
            other.asset.index.tracks, track.kind = .video →
            otherTrack.kind = .video → ∀ number,
              protection.forSegment number track.id =
                otherProtection.forSegment number otherTrack.id) := by
  refine ⟨h.schedule_placed, ?_, fun track htrack => h.seigFollows htrack, ?_⟩
  · intro key track lines htrack hlines
    have hmem := (Presentation.track_eq_ok htrack).1
    rw [← keysListed_map_fst [] lines,
      h.keysListed_mediaPlaylist htrack hlines, List.map_map,
      List.forall_mem_map, List.forall_mem_map]
    exact forall₂_congr fun number _ => h.keysMatch_iff hmem number
  · intro video hcheck entry hentry hasset other hother otherProtection
      otherPlaced h' hsame track htrack otherTrack hotherTrack hvideo
      hotherVideo number
    subst hasset
    exact forSegment_eq_of_checkKeyPeriods hcheck hentry hother h h' hsame
      htrack hotherTrack (hvideo.trans hotherVideo.symm) number

/-! ## A period without the first one's system -/

def fairPlaySystem : DrmSystem where
  systemId := DrmSystem.fairPlay
  pssh := none
  licenseUrl := none
  hlsUri := some "skd://a"
  pssh_named := DrmSystem.no_pssh DrmSystem.fairPlay

def fairPlayPeriod : PeriodKeys where
  keys := .all ⟨List.replicate 16 0x01, List.replicate 16 0x11,
    List.replicate 16 0xa1⟩
  systems := [fairPlaySystem]
  systems_once := DrmSystem.once fairPlaySystem

def clearKeySystem : DrmSystem where
  systemId := DrmSystem.clearKey
  pssh := none
  licenseUrl := some "https://l.example.net/ck"
  hlsUri := none
  pssh_named := DrmSystem.no_pssh DrmSystem.clearKey

def clearKeyPeriod : PeriodKeys where
  keys := .all ⟨List.replicate 16 0xfe, List.replicate 16 0xff,
    List.replicate 16 0xb2⟩
  systems := [clearKeySystem]
  systems_once := DrmSystem.once clearKeySystem

/-- FairPlay for a second, then Clear Key. -/
def rotatingEncryption : Encryption where
  toPeriodKeys := fairPlayPeriod
  periods := [⟨0, some fairPlayPeriod⟩, ⟨1000, some clearKeyPeriod⟩]
  first_start := by simp
  increasing := by simp
  primary := fun _ => rfl

def rotatingPlaced : List ScheduledPeriod :=
  [⟨0, some fairPlayPeriod⟩, ⟨1, some clearKeyPeriod⟩]

def rotatingProtection : AssetProtection where
  encryption := rotatingEncryption
  tracks := trackProtections fairPlayPeriod fairPlayPeriod
    (shortAudioIndex unshifted).tracks true
  pssh := []
  periods := rotatingPlaced.map
    (periodProtection fairPlayPeriod (shortAudioIndex unshifted).tracks)

def rotatingAsset : PackagedAsset :=
  { shortAudioAsset unshifted with
    protection := some rotatingProtection
    aes128 := none
    protection_built := by
      intro built hbuilt
      obtain rfl := Option.some.inj hbuilt
      decide }

theorem rotatingAsset_rotates :
    rotatingAsset.Rotates rotatingProtection rotatingPlaced where
  built := rfl
  rotating := rfl
  scheduled := by decide
  exclusive := rfl

/-- The FairPlay line of the first period stays in force at the second, whose
segment is encrypted under another key. -/
theorem fairPlay_stays_after_rotation :
    (mediaPlaylist rotatingAsset.presentation .video).map (keysListed []) =
        .ok
          [(0, hlsKeyLines fairPlayPeriod (fairPlayPeriod.keyFor .video)),
           (1, hlsKeyLines fairPlayPeriod (fairPlayPeriod.keyFor .video) ++
            hlsKeyLines clearKeyPeriod (clearKeyPeriod.keyFor .video))] ∧
      (rotatingProtection.forSegment 1 1).map
          (fun
            | .encrypted found => some found.key
            | .clear _ => none) =
        some (some (clearKeyPeriod.keyFor .video)) ∧
      ∀ lines, mediaPlaylist rotatingAsset.presentation .video = .ok lines →
        ¬ ∀ entry ∈ keysListed [] lines,
          KeysMatch entry.2 (rotatingProtection.forSegment entry.1 1) := by
  have hlisted : (mediaPlaylist rotatingAsset.presentation .video).map
      (keysListed []) = .ok
        [(0, hlsKeyLines fairPlayPeriod (fairPlayPeriod.keyFor .video)),
         (1, hlsKeyLines fairPlayPeriod (fairPlayPeriod.keyFor .video) ++
          hlsKeyLines clearKeyPeriod (clearKeyPeriod.keyFor .video))] := by
    decide
  refine ⟨hlisted, by decide, fun lines hlines hmatch => ?_⟩
  rw [hlines] at hlisted
  rw [Except.ok.inj hlisted] at hmatch
  have hsecond := hmatch _ (List.mem_cons_of_mem _ List.mem_cons_self)
  have hfound : rotatingProtection.forSegment 1 1 = some (.encrypted
      (trackProtection clearKeyPeriod fairPlayPeriod true .video)) := by
    decide
  rw [hfound] at hsecond
  have hkey := hsecond.2 (.sampleAes ⟨"skd://a", none, .fairPlay⟩
    (fairPlayPeriod.keyFor .video)) (by decide)
  exact absurd hkey (by decide)

theorem key_periods_read_alike_rotating :
    ∃ lines, mediaPlaylist rotatingAsset.presentation .video = .ok lines ∧
      ((∀ entry ∈ keysListed [] lines,
          KeysMatch entry.2 (rotatingProtection.forSegment entry.1 1)) ↔
        ∀ number ∈ listedNumbers lines, SpeakForLast .video
          ((begun rotatingPlaced number).map ScheduledPeriod.keys)) := by
  obtain ⟨lines, hlines⟩ := exists_ok_of_isOk
    (x := mediaPlaylist rotatingAsset.presentation .video) (by decide)
  have htrack : rotatingAsset.track .video =
      .ok ((shortAudioIndex 0).tracks.head (by decide)) := rfl
  exact ⟨lines, hlines, (key_periods_read_alike rotatingAsset_rotates).2.1
    .video _ lines htrack hlines⟩

end Segmentor
