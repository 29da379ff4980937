import Segmentor.PreparedSegments
import Segmentor.SegmentTimes

/-!
# Decode times in fragments

A fragment states when its first sample decodes and lists how long each sample
lasts.  A reader adds the durations up, so a gap that the source left before a
sample inside the segment is lost.
-/

namespace Segmentor

open General

/-! ## Times from durations -/

/-- Each sample decodes when the one before it ends, the first at `time`. -/
def Consecutive : ℕ → List Sample → Prop
  | _, [] => True
  | time, sample :: rest =>
      sample.decodeTime = time ∧ Consecutive (time + sample.duration) rest

theorem map_decodeTime_readBack_iff (kind : TrackKind) (offset : ℕ)
    {time : ℕ} {samples : List Sample} :
    (readBack kind offset time samples).map Sample.decodeTime =
        samples.map Sample.decodeTime ↔ Consecutive time samples := by
  induction samples generalizing offset time with
  | nil => exact iff_of_true rfl trivial
  | cons sample samples ih =>
      rw [readBack, List.map_cons, List.map_cons, List.cons.injEq, ih,
        Consecutive, eq_comm]

/-- Nothing separates the samples from `first` up to `stop`. -/
def SampleIndex.Gapless (x : SampleIndex) (first stop : ℕ) : Prop :=
  ∀ i, first ≤ i → i + 1 < stop →
    x.decodeTime i + (x.get i).duration = x.decodeTime (i + 1)

theorem SampleIndex.consecutive_iff {x : SampleIndex} {first count : ℕ} :
    Consecutive (x.decodeTime first)
        ((List.range' first (count + 1)).map x.get) ↔
      x.Gapless first (first + count + 1) := by
  induction count generalizing first with
  | zero =>
      refine iff_of_true ⟨rfl, trivial⟩ fun i hi hi' => ?_
      omega
  | succ count ih =>
      have hrest := @ih (first + 1)
      rw [List.range'_succ, List.map_cons, Consecutive, x.get_decodeTime,
        eq_self, true_and]
      constructor
      · intro h
        have hnext : x.decodeTime first + (x.get first).duration =
            x.decodeTime (first + 1) := by
          rw [List.range'_succ, List.map_cons] at h
          exact h.1.symm
        rw [hnext, hrest] at h
        intro i hi hi'
        rcases hi.lt_or_eq with hlt | rfl
        · exact h i hlt (by omega)
        · exact hnext
      · intro h
        rw [h first (Nat.le_refl _) (by omega), hrest]
        exact fun i hi hi' => h i (by omega) (by omega)

theorem SampleIndex.Valid.consecutive_toVec_iff {x : SampleIndex}
    (h : x.Valid) {first stop : ℕ} (hfirst : first < stop)
    (hstop : stop ≤ x.len) :
    Consecutive (x.decodeTime first) (x.toVec first stop) ↔
      x.Gapless first stop := by
  obtain ⟨count, rfl⟩ := Nat.exists_eq_add_of_lt hfirst
  rw [← consecutive_iff, h.toVec_eq hfirst.le hstop, all, ← List.map_take,
    ← List.map_drop, List.take_range, Nat.min_eq_left hstop,
    List.range_eq_range', List.drop_range', Nat.zero_add, Nat.mul_one,
    show first + count + 1 - first = count + 1 by omega]

/-! ## Fragments -/

/-- Reading the fragment back for `track` gives the samples of the part at
the times they have in the index. -/
def DecodeTimesKept (limits : LimitsConfig) (defaults : TrackDefaults)
    (prepared : PreparedSegment) (track : Track) (part : TrackSegment) :
    Prop :=
  ∃ found,
    trackSamples [⟨0, prepared.header⟩]
      { trackId := track.id
        defaults := defaults
        sourceLen := prepared.contentLength
        limits := limits } = .ok found ∧
    found.map Sample.decodeTime =
      (track.samples.toVec part.firstSample part.endSample).map
        Sample.decodeTime

/-- The fragment of a planned part keeps its decode times exactly where the
source leaves no gap between two of its samples. -/
theorem decode_times_kept_iff {index : MediaIndex} {targetDurationMs : ℕ}
    {limits : LimitsConfig} {p : SegmentPlan} {track : Track}
    {part : TrackSegment} {sequenceNumber : ℕ} {prepared : PreparedSegment}
    (hplan : plan index targetDurationMs limits = .ok p)
    (htrack : track ∈ index.tracks)
    (hcount : track.samples.len ≤ limits.maxSamplesPerTrack)
    (hpart : part ∈ p.trackSegments track.id)
    (hprepared : prepareMediaSegment track part sequenceNumber limits =
      .ok prepared) (defaults : TrackDefaults) :
    DecodeTimesKept limits defaults prepared track part ↔
      track.samples.Gapless part.firstSample part.endSample := by
  have htimed := trackSegments_timed hplan htrack part hpart
  obtain ⟨hsamples, hend, hwritten, -⟩ := prepareMediaSegment_written hprepared
  have hfirst : part.firstSample < part.endSample := by
    simpa [hasSamples] using hsamples
  have hlength := track.samples_valid.length_toVec hfirst.le hend
  have hstart : part.decodeTime = track.samples.decodeTime part.firstSample :=
    htimed.start.trans (Track.cutTime_of_lt htimed.first_lt)
  have hstop : part.decodeTime + totalDuration
      (track.samples.toVec part.firstSample part.endSample) < 2 ^ 64 :=
    hstart ▸ track.samples_valid.totalDuration_toVec_lt hfirst hend
  have hmod : part.decodeTime % 2 ^ 64 = part.decodeTime :=
    Nat.mod_eq_of_lt (by omega)
  have hread : ∀ found, trackSamples [⟨0, prepared.header⟩]
      ⟨track.id, defaults, prepared.contentLength, limits⟩ = .ok found ↔
        found = readBack track.kind prepared.header.length part.decodeTime
          (track.samples.toVec part.firstSample part.endSample) := by
    intro found
    have hmax : (expand (track, part)).samples.length ≤
        limits.maxSamplesPerTrack := by
      change (track.samples.toVec part.firstSample
        part.endSample).length ≤ _
      omega
    rw [@trackSamples_written_eq_ok_iff
      ⟨track.id, defaults, prepared.contentLength, limits⟩ _ [] []
      (expand (track, part)) found hwritten (List.nodup_singleton _) rfl
      (Nat.le_refl _) hmax]
    unfold ExpandedPart.stopTime
    change (part.decodeTime % 2 ^ 64 + totalDuration
      (track.samples.toVec part.firstSample part.endSample) < 2 ^ 64 ∧ _) ∧
        found = readBack track.kind (prepared.header.length + 0)
          (part.decodeTime % 2 ^ 64) _ ↔ _
    rw [hmod, Nat.add_zero]
    exact and_iff_right ⟨hstop, by simp⟩
  unfold DecodeTimesKept
  rw [← track.samples_valid.consecutive_toVec_iff hfirst hend, ← hstart,
    ← map_decodeTime_readBack_iff track.kind prepared.header.length]
  constructor
  · rintro ⟨found, hfound, htimes⟩
    rwa [← (hread found).mp hfound]
  · intro htimes
    exact ⟨_, (hread _).mpr rfl, htimes⟩

/-- Two frames of one tick, ten ticks apart. -/
def apartTrack : Track :=
  .checked 1 .video 1
    (.new ⟨[1, 1], [⟨0, 112⟩, ⟨1, 225⟩], [⟨0, 0, 1⟩, ⟨1, 10, 1⟩], [], none⟩)
    (by decide)

def apartIndex : MediaIndex where
  tracks := [apartTrack]
  ids_unique := by decide

/-- A fragment of the frames from `first` up to `stop`. -/
def apartSegment (first stop decodeTime duration : ℕ) : PreparedSegment :=
  (prepareMediaSegment apartTrack ⟨1, first, stop, decodeTime, duration⟩
    (first + 1) {}).toOption.getD ⟨[], [], 0⟩

/-- The source of the two frames: a fragment of each. -/
def apartFragments : List Fragment :=
  [⟨0, (apartSegment 0 1 0 1).header.take 104⟩,
    ⟨113, (apartSegment 1 2 10 1).header.take 104⟩]

def apartPlan : SegmentPlan where
  segments := [⟨0, [⟨1, 0, 2, 0, 11⟩]⟩]

/-- In one segment the second frame follows the first at once. -/
theorem gap_not_kept :
    trackSamples apartFragments ⟨1, {}, 226, {}⟩ =
        .ok apartTrack.samples.all ∧
      plan apartIndex 20000 {} = .ok apartPlan ∧
      prepareMediaSegment apartTrack ⟨1, 0, 2, 0, 11⟩ 1 {} =
        .ok (apartSegment 0 2 0 11) ∧
      ¬ DecodeTimesKept {} {} (apartSegment 0 2 0 11) apartTrack
        ⟨1, 0, 2, 0, 11⟩ := by
  have hread : (trackSamples [⟨0, (apartSegment 0 2 0 11).header⟩]
      ⟨1, {}, (apartSegment 0 2 0 11).contentLength, {}⟩).map
        (List.map Sample.decodeTime) = .ok [0, 1] := by
    decide +kernel
  have hindex : (apartTrack.samples.toVec 0 2).map Sample.decodeTime =
      [0, 10] := by
    decide
  refine ⟨by decide +kernel, by decide +kernel, by decide +kernel, ?_⟩
  rintro ⟨found, hfound, htimes⟩
  change trackSamples [⟨0, (apartSegment 0 2 0 11).header⟩]
    ⟨1, {}, (apartSegment 0 2 0 11).contentLength, {}⟩ = .ok found at hfound
  change found.map Sample.decodeTime =
    (apartTrack.samples.toVec 0 2).map Sample.decodeTime at htimes
  rw [hfound] at hread
  rw [Except.ok.inj hread, hindex] at htimes
  simp at htimes

/-- Two frames of one tick, the second as the first ends. -/
def closeTrack : Track :=
  .checked 1 .video 1
    (.new ⟨[1, 1], [⟨0, 112⟩, ⟨1, 225⟩], [⟨0, 0, 1⟩], [], none⟩) (by decide)

def closeIndex : MediaIndex where
  tracks := [closeTrack]
  ids_unique := by decide

def closeSegment : PreparedSegment :=
  (prepareMediaSegment closeTrack ⟨1, 0, 2, 0, 2⟩ 1 {}).toOption.getD
    ⟨[], [], 0⟩

/-- In one segment both keep their times. -/
theorem decode_times_kept_iff_close :
    DecodeTimesKept {} {} closeSegment closeTrack ⟨1, 0, 2, 0, 2⟩ := by
  have hplan : plan closeIndex 20000 {} =
      .ok ⟨[⟨0, [⟨1, 0, 2, 0, 2⟩]⟩]⟩ := by
    decide +kernel
  have hprepared : prepareMediaSegment closeTrack ⟨1, 0, 2, 0, 2⟩ 1 {} =
      .ok closeSegment := by
    decide +kernel
  refine (decode_times_kept_iff hplan (List.mem_singleton_self _) (by decide)
    (by decide) hprepared {}).mpr fun i hi hi' => ?_
  dsimp only at hi hi'
  obtain rfl : i = 0 := by omega
  decide

end Segmentor
