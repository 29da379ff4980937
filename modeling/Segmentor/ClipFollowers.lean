import Segmentor.ClipTimeline

/-!
# The followers of a trimmed clip

Trimming places a follower's samples by rescaling the clip's start and its
lead apart; the segment planner then rescales the reference's first decode
time, which holds both.  Where the parts rounded off carry, the planner cuts
the follower a tick later than trimming did.
-/

namespace Segmentor.Clip

open General

/-- Every sample of the track is in a segment: the first one starts at its
sample zero. -/
structure ServedFromStart (p : SegmentPlan) (track : Track) : Prop where
  first : (p.trackSegments track.id).head?.map TrackSegment.firstSample = some 0
  tiled : Tiles 0 (p.spans track.id) track.samples.len

theorem servedFromStart_iff {p : SegmentPlan} {reference track : Track}
    (h : Tiles (firstServed reference track) (p.spans track.id)
      track.samples.len) :
    ServedFromStart p track ↔ firstServed reference track = 0 := by
  constructor
  · intro hserved
    exact (tiles_zero_iff h).mp hserved.tiled
  · intro hzero
    have htiled := (tiles_zero_iff h).mpr hzero
    refine ⟨?_, htiled⟩
    have hpos := track.samples_nonempty
    unfold SegmentPlan.spans at htiled
    cases hparts : p.trackSegments track.id with
    | nil =>
        rw [hparts, List.map_nil, tiles_nil] at htiled
        omega
    | cons part parts =>
        rw [hparts, List.map_cons, tiles_cons] at htiled
        exact congrArg some htiled.1

/-- The reference's clock and the follower's round the clip's start to one
tick, and what they round off of it and of the lead makes up another. -/
def LeadCarries (start : TimelinePosition) (lead fromTimescale toTimescale : ℕ) :
    Prop :=
  rescaled (rescaled start.nanos nanosPerSecond fromTimescale) fromTimescale
      toTimescale =
    rescaled start.nanos nanosPerSecond toTimescale ∧
  fromTimescale ≤
    rescaled start.nanos nanosPerSecond fromTimescale * toTimescale %
        fromTimescale +
      lead * toTimescale % fromTimescale

/-- The planner leaves out the follower's sample at the start of the kept
span. -/
def BoundaryMissed (cut : ReferenceCut) (start : TimelinePosition)
    (track : Track) : Prop :=
  LeadCarries start cut.lead cut.reference.timescale track.timescale ∧
    ∃ i < track.samples.len,
      track.samples.decodeTime i =
        rescaled cut.origin cut.reference.timescale track.timescale

theorem rescale_eq_ok {value fromTimescale toTimescale scaled : ℕ}
    (h : rescale value fromTimescale toTimescale = .ok scaled) :
    scaled = rescaled value fromTimescale toTimescale := by
  unfold rescale at h
  obtain ⟨ticks, hticks, h⟩ := bind_eq_ok_iff.mp h
  obtain ⟨-, rfl⟩ := checkedDiv_eq_some_iff.mp (okOr_eq_ok_iff.mp hticks)
  exact (toWord_eq_ok_iff.mp h).2.symm

/-- A follower keeps its samples from the start of the reference's span. -/
theorem trackCut_follower {cut : ReferenceCut} {toTheEnd : Bool}
    {track : Track} {part : TrackCut} (hid : track.id ≠ cut.reference.id)
    (h : trackCut cut toTheEnd track = .ok part) :
    ∃ stop,
      part =
        ⟨track,
          followerWindow track
            (rescaled cut.origin cut.reference.timescale track.timescale) stop
            toTheEnd,
          rescaled cut.origin cut.reference.timescale track.timescale,
          rescaled cut.lead cut.reference.timescale track.timescale⟩ := by
  rw [trackCut, if_neg hid] at h
  obtain ⟨origin, horigin, h⟩ := bind_eq_ok_iff.mp h
  obtain ⟨stop, -, h⟩ := bind_eq_ok_iff.mp h
  obtain ⟨lead, hlead, h⟩ := bind_eq_ok_iff.mp h
  obtain rfl := Except.ok.inj h
  obtain rfl := rescale_eq_ok horigin
  obtain rfl := rescale_eq_ok hlead
  exact ⟨stop, rfl⟩

/-- The first sample at or after a time decodes at that time exactly when some
sample does. -/
theorem decodeTime_partition_eq_iff {track : Track} {time : ℕ}
    (hlt : track.samples.partitionByDecodeTime time < track.samples.len) :
    track.samples.decodeTime (track.samples.partitionByDecodeTime time) = time ↔
      ∃ i < track.samples.len, track.samples.decodeTime i = time := by
  constructor
  · intro heq
    exact ⟨_, hlt, heq⟩
  · rintro ⟨i, hi, rfl⟩
    have hnot := (track.samples_valid.lt_partitionByDecodeTime_iff
      hi (track.samples.decodeTime i)).not.mpr (Nat.lt_irrefl _)
    have hfirst := (track.samples_valid.lt_partitionByDecodeTime_iff
      hlt (track.samples.decodeTime i)).not.mp (Nat.lt_irrefl _)
    have hmono := track.samples_valid.decodeTime_mono (Nat.not_lt.mp hnot) hi
    omega

section Followers

variable {index : TimedIndex} {window : ClipWindow}
  {start : TimelinePosition} {trailing : Trailing} {trimmed : Trimmed}
  {cut : ReferenceCut} {length : ℕ}

theorem Placed.firstServed_eq_zero_iff {toTheEnd : Bool}
    {track moved reference : Track} {part : TrackCut} {ticks referenceTicks : ℕ}
    (h : Placed cut start toTheEnd track moved part ticks)
    (hid : track.id ≠ cut.reference.id)
    (horigin :
      cut.origin = cut.reference.samples.decodeTime cut.range.first)
    (hticks : start.inTicks cut.reference.timescale = .ok referenceTicks)
    (hreference : Moved cut.reference cut.range cut.origin
      (referenceTicks + cut.lead) reference) :
    firstServed reference moved = 0 ↔ ¬BoundaryMissed cut start track := by
  obtain ⟨stop, hpart⟩ := trackCut_follower hid h.cut_eq
  obtain ⟨hcut, hown, hmoved⟩ := h
  subst hpart
  dsimp only at hown hmoved
  obtain ⟨-, rfl⟩ := inTicks_eq_ok_iff.mp hticks
  obtain ⟨-, rfl⟩ := inTicks_eq_ok_iff.mp hown
  set origin := rescaled cut.origin cut.reference.timescale track.timescale
  set first := track.samples.partitionByDecodeTime origin
  have hfirst : first < track.samples.len :=
    Nat.lt_of_lt_of_le hmoved.nonempty
      (followerWindow track origin stop toTheEnd).stop_le
  have hstart := hreference.decodeTime 0 reference.samples_nonempty
  have htime := hmoved.decodeTime 0 moved.samples_nonempty
  have hle := hmoved.origin_le
  have hinstant : cutInstant reference moved 0 =
      rescaled
        (rescaled start.nanos nanosPerSecond cut.reference.timescale + cut.lead)
        cut.reference.timescale track.timescale := by
    have hbase : reference.samples.decodeTime 0 =
        rescaled start.nanos nanosPerSecond cut.reference.timescale +
          cut.lead := by
      rw [Nat.add_zero, ← horigin] at hstart
      omega
    unfold cutInstant
    rw [hreference.timescale, hmoved.timescale, hbase]
    rfl
  have hserved : firstServed reference moved = 0 ↔
      cutInstant reference moved 0 ≤ moved.samples.decodeTime 0 := by
    have hne : moved.id ≠ reference.id := by
      rw [hmoved.id, hreference.id]
      exact hid
    have hlt := @lt_firstServed_iff reference moved 0
      moved.samples_nonempty
    have hzero : firstServed reference moved = 0 ↔
        ¬0 < firstServed reference moved := by omega
    rw [hzero, hlt]
    simp [hne]
  have hdetour := rescaled_detour_add_le_iff (s := track.timescale)
    (show 0 < nanosPerSecond by decide) cut.reference.timescale_pos
    start.nanos cut.lead
  have hsucc := rescaled_detour_add_le_succ (s := track.timescale)
    (show 0 < nanosPerSecond by decide) cut.reference.timescale_pos
    start.nanos cut.lead
  have hexact : track.samples.decodeTime first = origin ↔
      ∃ i < track.samples.len, track.samples.decodeTime i = origin :=
    decodeTime_partition_eq_iff hfirst
  rw [hserved, hinstant]
  unfold BoundaryMissed LeadCarries
  rw [← hexact, not_and']
  change origin ≤ track.samples.decodeTime first at hle
  change moved.samples.decodeTime 0 + origin =
    track.samples.decodeTime first + _ at htime
  constructor
  · intro hserved hexact
    apply hdetour.mp
    omega
  · intro hmissed
    rcases Nat.lt_or_eq_of_le hle with hlater | hexact
    · omega
    · have := hdetour.mpr (hmissed hexact.symm)
      omega

theorem Trims.servedFromStart_iff
    (h : Trims index window start trailing trimmed cut length)
    {targetDurationMs : ℕ} {limits : LimitsConfig} {p : SegmentPlan}
    (hplan : plan trimmed.index.toMediaIndex targetDurationMs limits = .ok p) :
    List.Forall₂
      (fun track moved =>
        moved.id = track.id ∧
          (track.id ≠ cut.reference.id →
            (ServedFromStart p moved ↔ ¬BoundaryMissed cut start track)))
      index.tracks trimmed.index.tracks := by
  obtain ⟨reference, ticks, hplanned⟩ := plan_spec hplan
  obtain ⟨found, referenceTicks, hfound, hticks, hmoved⟩ := h.reference
  obtain rfl := Option.some.inj (hplanned.found.symm.trans hfound)
  have hmem : List.Forall₂
      (fun track moved => moved ∈ trimmed.index.tracks ∧
        ∃ part ticks,
          Placed cut start (cut.toTheEnd trailing) track moved part ticks ∧
            part.track = track)
      index.tracks trimmed.index.tracks :=
    ((List.forall₂_and_left _ _).mpr
      ⟨fun moved hmoved => hmoved, h.placed.flip⟩).flip
  apply hmem.imp
  rintro track moved ⟨htrack, part, ownTicks, hplaced, rfl⟩
  refine ⟨hplaced.moved.id, fun hid => ?_⟩
  rw [Clip.servedFromStart_iff (hplanned.spans_tile htrack)]
  exact hplaced.firstServed_eq_zero_iff hid h.referenced.origin hticks hmoved

/-- Every sample kept of every follower is served exactly where no follower
has a sample at the start of the kept span that the planner misses. -/
theorem trimmed_followers_served_iff
    (htrim : trim index window start trailing = .ok trimmed)
    {targetDurationMs : ℕ} {limits : LimitsConfig} {p : SegmentPlan}
    (hplan : plan trimmed.index.toMediaIndex targetDurationMs limits = .ok p) :
    ∃ cut, referenceCut index window = .ok cut ∧
      ((∀ moved ∈ trimmed.index.tracks, moved.id ≠ cut.reference.id →
          ServedFromStart p moved) ↔
        ∀ track ∈ index.tracks, track.id ≠ cut.reference.id →
          ¬BoundaryMissed cut start track) := by
  obtain ⟨cut, length, htrims⟩ := trim_spec htrim
  have htracks := htrims.servedFromStart_iff hplan
  refine ⟨cut, htrims.cut_eq, ?_, ?_⟩
  · intro hserved track htrack hid
    obtain ⟨moved, hmoved, heq, hiff⟩ := exists_mem_of_forall₂ htracks htrack
    exact (hiff hid).mp (hserved moved hmoved (by rwa [heq]))
  · intro hagree moved hmoved hid
    obtain ⟨track, htrack, heq, hiff⟩ :=
      exists_mem_of_forall₂ htracks.flip hmoved
    rw [heq] at hid
    exact (hiff hid).mpr (hagree track htrack hid)

end Followers

/-- The file played a second time starts at 200.2 ms. -/
def repeatStart : TimelinePosition where
  nanos := 200200000
  nanos_lt := by decide

theorem trimmed_followers_served_repeated :
    ∃ trimmed p cut,
      trim reorderedFile ⟨0, none⟩ repeatStart .keep = .ok trimmed ∧
      plan trimmed.index.toMediaIndex 1000 {} = .ok p ∧
      ((∀ moved ∈ trimmed.index.tracks, moved.id ≠ cut.reference.id →
          ServedFromStart p moved) ↔
        ∀ track ∈ reorderedFile.tracks, track.id ≠ cut.reference.id →
          ¬BoundaryMissed cut repeatStart track) := by
  obtain ⟨p, hrun⟩ := exists_ok_of_isOk
    (show (do
      let trimmed ← trim reorderedFile ⟨0, none⟩ repeatStart .keep
      plan trimmed.index.toMediaIndex 1000 {} : Result SegmentPlan).isOk =
        true by
      decide)
  obtain ⟨trimmed, htrim, hplan⟩ := bind_eq_ok_iff.mp hrun
  obtain ⟨cut, -, hiff⟩ := trimmed_followers_served_iff htrim hplan
  exact ⟨trimmed, p, cut, htrim, hplan, hiff⟩

/-- The second time, the planner leaves out the first audio frame. -/
theorem repeatedFile_loses_first_frame :
    ∃ trimmed p,
      trim reorderedFile ⟨0, none⟩ repeatStart .keep = .ok trimmed ∧
      plan trimmed.index.toMediaIndex 1000 {} = .ok p ∧
      ∃ moved ∈ trimmed.index.tracks, moved.kind = .audio ∧
        (p.trackSegments moved.id).head?.map TrackSegment.firstSample =
          some 1 ∧
        ¬ServedFromStart p moved := by
  have hrun : (do
      let trimmed ← trim reorderedFile ⟨0, none⟩ repeatStart .keep
      let p ← plan trimmed.index.toMediaIndex 1000 {}
      .ok (trimmed.index.tracks.any fun moved =>
        moved.kind == .audio &&
          (p.trackSegments moved.id).head?.map TrackSegment.firstSample ==
            some 1)) = Except.ok true := by
    decide
  obtain ⟨trimmed, htrim, hrun⟩ := bind_eq_ok_iff.mp hrun
  obtain ⟨p, hplan, hany⟩ := bind_eq_ok_iff.mp hrun
  obtain ⟨moved, hmoved, hfound⟩ := List.any_eq_true.mp (Except.ok.inj hany)
  rw [Bool.and_eq_true, beq_iff_eq, beq_iff_eq] at hfound
  refine ⟨trimmed, p, htrim, hplan, moved, hmoved, hfound.1, hfound.2, ?_⟩
  intro hserved
  rw [hserved.first] at hfound
  exact absurd hfound.2 (by decide)

end Segmentor.Clip
