import Segmentor.Manifests
import Segmentor.PreparedSegments
import Segmentor.SegmentTimes

/-!
# The three timelines of a track

A segment's time is told by the `tfdt` of its fragment, by the segment
timeline of the manifest, where only the first entry states its start, and by
the durations of the playlist.  All three are the times of the cuts.
-/

namespace Segmentor

open General

/-! ## The segment timeline -/

/-- When each entry starts and ends, one with no start of its own where the
entry before it ends. -/
def walkTimeline : ℕ → List TimelineEntry → List (ℕ × ℕ)
  | _, [] => []
  | time, entry :: rest =>
      let start := entry.start.getD time
      (start, start + entry.duration) ::
        walkTimeline (start + entry.duration) rest

def TrackSegment.span (part : TrackSegment) : ℕ × ℕ :=
  (part.firstSample, part.endSample)

def TrackSegment.interval (part : TrackSegment) : ℕ × ℕ :=
  (part.decodeTime, part.decodeTime + part.duration)

section

variable {track : Track} {parts : List TrackSegment} {first stop : ℕ}

/-- Durations alone lead from the time of the first cut to each part's. -/
theorem walkTimeline_durations
    (htiles : Tiles first (parts.map TrackSegment.span) stop)
    (htimed : ∀ part ∈ parts, Timed track part) :
    walkTimeline (track.cutTime first)
        (parts.map fun part => ⟨none, part.duration⟩) =
      parts.map TrackSegment.interval := by
  induction parts generalizing first with
  | nil => rfl
  | cons part parts ih =>
      obtain ⟨hfirst, -, hrest⟩ := tiles_cons.mp htiles
      obtain ⟨hpart, hparts⟩ := List.forall_mem_cons.mp htimed
      have hstart : track.cutTime first = part.decodeTime := by
        rw [hpart.start, ← hfirst]
        rfl
      rw [List.map_cons, List.map_cons, walkTimeline]
      dsimp only [Option.getD_none]
      rw [hstart, hpart.stop]
      unfold TrackSegment.span at hrest
      rw [ih hrest hparts]
      unfold TrackSegment.interval
      rw [hpart.stop]

theorem timeline_eq (presentation : Presentation) (track : Track)
    (addressing : Addressing) :
    (writeSegmentTemplate presentation track addressing).timeline =
      match presentation.trackSegments track.id with
      | [] => []
      | part :: parts => ⟨some part.decodeTime, part.duration⟩ ::
          parts.map fun part => ⟨none, part.duration⟩ := by
  unfold writeSegmentTemplate
  dsimp only
  cases presentation.trackSegments track.id with
  | nil => rfl
  | cons part parts =>
      rw [List.zipIdx_cons, List.map_cons]
      congr 1
      rw [Nat.zero_add]
      refine List.ext_getElem (by simp) fun i hi hi' => ?_
      simp

/-- What walking the timeline of a tiled track gives. -/
theorem walkTimeline_writeSegmentTemplate {presentation : Presentation}
    (addressing : Addressing)
    (htiles : Tiles first
      ((presentation.trackSegments track.id).map TrackSegment.span) stop)
    (htimed : ∀ part ∈ presentation.trackSegments track.id,
      Timed track part) :
    walkTimeline 0
        (writeSegmentTemplate presentation track addressing).timeline =
      (presentation.trackSegments track.id).map TrackSegment.interval := by
  rw [timeline_eq]
  cases hparts : presentation.trackSegments track.id with
  | nil => rfl
  | cons part parts =>
      rw [hparts] at htiles htimed
      obtain ⟨hfirst, -, hrest⟩ := tiles_cons.mp htiles
      obtain ⟨hpart, htimed⟩ := List.forall_mem_cons.mp htimed
      rw [List.map_cons, walkTimeline]
      dsimp only [Option.getD_some]
      rw [hpart.stop]
      unfold TrackSegment.span at hrest
      rw [walkTimeline_durations hrest htimed]
      unfold TrackSegment.interval
      rw [hpart.stop]

end

/-! ## The fragments -/

/-- The decode time that a fragment's first `tfdt` gives. -/
def fragmentDecodeTime (header : List UInt8) : Result ℕ := do
  let moof ← boxPayload header 0
  let traf ← requiredChild moof.payload (code 't' 'r' 'a' 'f')
  let tfdt ← requiredChild traf.payload (code 't' 'f' 'd' 't')
  parseDecodeTime.run' tfdt.payload

theorem requiredChild_eq_ok {data name : List UInt8} {children : List RawBox}
    {child : RawBox} (hchildren : childBoxes data = .ok children)
    (hfind : children.find? (fun child => child.name == name) = some child) :
    requiredChild data name = .ok child := by
  unfold requiredChild optionalChild
  rw [hchildren, ok_bind, ok_bind, hfind]
  rfl

theorem fragmentDecodeTime_written {prepared : PreparedSegment}
    {part : ExpandedPart} (h : prepared.Written [part])
    (htime : part.segment.decodeTime < 2 ^ 64) :
    fragmentDecodeTime prepared.header = .ok part.segment.decodeTime := by
  obtain ⟨mfhd, rest, hmfhd, hsize, hheader⟩ := h.header_eq
  have hplaced : ∀ item ∈ [(part, prepared.header.length)],
      item.1.Placed item.2 := h.placed
  have hchildren := childBoxes_placed hplaced
  have htraf := childBoxes_trafPayload
    (hplaced _ (List.mem_singleton_self _)).size_lt
  change (boxBytes (code 'm' 'f' 'h' 'd') mfhd ++
    List.flatMap placedTrafBytes
      [(part, prepared.header.length)]).length + 8 < 2 ^ 32 at hsize
  change prepared.header = boxBytes (code 'm' 'o' 'o' 'f')
    (boxBytes (code 'm' 'f' 'h' 'd') mfhd ++
      List.flatMap placedTrafBytes [(part, prepared.header.length)]) ++ rest
    at hheader
  have hmoof := @boxPayload_append (code 'm' 'o' 'o' 'f') _ (by rfl) hsize
    rest
  rw [← hheader] at hmoof
  unfold fragmentDecodeTime
  rw [hmoof, ok_bind]
  dsimp only
  rw [@requiredChild_eq_ok _ _ _ (placedTraf (part, prepared.header.length))
    (by rw [childBoxes_append (by rfl) (by omega), hchildren]; rfl)
    (by rfl), ok_bind]
  change (requiredChild (part.trafPayload _) _ >>= _) = _
  rw [requiredChild_eq_ok htraf (by rfl), ok_bind]
  exact (parseDecodeTime_tfdt part).trans
    (by rw [Nat.mod_eq_of_lt htime])

/-! ## The playlist -/

/-- A segment's listed duration is at most the target. -/
theorem milliseconds_le_targetDuration {presentation : Presentation}
    {track : Track} {part : TrackSegment}
    (hpart : part ∈ presentation.trackSegments track.id) :
    part.duration * 1000 / track.timescale ≤
      targetDuration presentation track * 1000 := by
  have hpos := track.timescale_pos
  have hmax : (part.duration + track.timescale - 1) / track.timescale ≤
      targetDuration presentation track :=
    List.le_max?_getD_of_mem (List.mem_map_of_mem hpart)
  have hceil : part.duration ≤
      track.timescale * targetDuration presentation track := by
    have hdiv := Nat.div_add_mod (part.duration + track.timescale - 1)
      track.timescale
    have hmod := Nat.mod_lt (part.duration + track.timescale - 1) hpos
    have hmul := Nat.mul_le_mul_left track.timescale hmax
    omega
  refine Nat.div_le_of_le_mul ?_
  calc part.duration * 1000
      ≤ track.timescale * targetDuration presentation track * 1000 :=
        Nat.mul_le_mul_right _ hceil
    _ = track.timescale * (targetDuration presentation track * 1000) :=
        Nat.mul_assoc ..

/-- The entries are refused exactly where a duration in milliseconds does not
fit a word. -/
theorem exists_segmentEntries_iff {track : Track} {firstNumber offset : ℕ}
    {periods : List ScheduledPeriod} {segments : List TrackSegment}
    (hnumbers : firstNumber + offset + segments.length ≤ 2 ^ 64) :
    (∃ lines, segmentEntries track firstNumber offset periods segments =
        .ok lines) ↔
      ∀ segment ∈ segments, segment.duration * 1000 < 2 ^ 64 := by
  induction segments generalizing offset periods with
  | nil => exact iff_of_true ⟨_, rfl⟩ (by simp)
  | cons segment segments ih =>
      rw [List.length_cons] at hnumbers
      have hrest := fun periods => @ih (offset + 1) periods (by omega)
      rw [List.forall_mem_cons, segmentEntries]
      constructor
      · rintro ⟨lines, h⟩
        obtain ⟨milliseconds, hmilliseconds, h⟩ := bind_eq_ok_iff.mp h
        obtain ⟨number, -, h⟩ := bind_eq_ok_iff.mp h
        dsimp only at h
        obtain ⟨entries, hentries, -⟩ := bind_eq_ok_iff.mp h
        exact ⟨(segmentMilliseconds_eq_ok_iff.mp hmilliseconds).1,
          (hrest _).mp ⟨entries, hentries⟩⟩
      · rintro ⟨hsegment, hsegments⟩
        obtain ⟨entries, hentries⟩ :=
          (hrest (dueLines track.kind (offset + firstNumber) periods).2).mpr
            hsegments
        have hnumber : okOr (checkedAdd (2 ^ 64) offset firstNumber)
            (Error.invalidMedia "segment number overflow") =
              .ok (offset + firstNumber) :=
          okOr_eq_ok_iff.mpr (checkedAdd_eq_some_iff.mpr ⟨by omega, rfl⟩)
        exact ⟨_, bind_eq_ok_iff.mpr
          ⟨_, segmentMilliseconds_eq_ok_iff.mpr ⟨hsegment, rfl⟩,
            bind_eq_ok_iff.mpr ⟨_, hnumber,
              bind_eq_ok_iff.mpr ⟨entries, hentries, rfl⟩⟩⟩⟩

/-! ## Agreement -/

/-- What a player reads of a track's segment timeline is when the parts start
and end, and the last part ends with the track. -/
structure TimelineOf (track : Track) (parts : List TrackSegment)
    (timeline : List TimelineEntry) : Prop where
  walk : walkTimeline 0 timeline = parts.map TrackSegment.interval
  stop : ∀ interval, (walkTimeline 0 timeline).getLast? = some interval →
    interval.2 = track.endTime

/-- What a media playlist says of the same parts. -/
structure PlaylistOf (track : Track) (parts : List TrackSegment)
    (lines : List PlaylistLine) : Prop where
  entries : listedEntries lines = parts.zipIdx.map fun (part, number) =>
    (part.duration * 1000 / track.timescale, number)
  target : ∃ target rest, lines = .opening target :: rest ∧
    ∀ entry ∈ listedEntries lines, entry.1 ≤ target * 1000

theorem length_trackSegments_le (p : SegmentPlan) (trackId : ℕ) :
    (p.trackSegments trackId).length ≤ p.segments.length :=
  List.length_filterMap_le ..

/-- The manifest and the `tfdt`s tell the same times of every planned track;
its playlist is refused exactly where a duration in milliseconds does not fit
a word, and otherwise lists the same segments with durations cut down to a
millisecond, none above the target. -/
theorem timelines_agree {index : MediaIndex} {targetDurationMs : ℕ}
    {limits : LimitsConfig} {presentation : Presentation} {key : TrackKey}
    {track : Track}
    (hplan : plan index targetDurationMs limits = .ok presentation.plan)
    (htracks : presentation.tracks = index.tracks)
    (htrack : presentation.track key = .ok track) :
    (∀ addressing, TimelineOf track (presentation.trackSegments track.id)
      (writeSegmentTemplate presentation track addressing).timeline) ∧
    (∀ part ∈ presentation.trackSegments track.id, ∀ sequenceNumber prepared,
      prepareMediaSegment track part sequenceNumber limits = .ok prepared →
        fragmentDecodeTime prepared.header = .ok part.decodeTime) ∧
    ((∃ lines, mediaPlaylist presentation key = .ok lines) ↔
      ∀ part ∈ presentation.trackSegments track.id,
        part.duration * 1000 < 2 ^ 64) ∧
    ∀ lines, mediaPlaylist presentation key = .ok lines →
      PlaylistOf track (presentation.trackSegments track.id) lines := by
  have hmem : track ∈ index.tracks :=
    htracks ▸ (Presentation.track_eq_ok htrack).1
  have htimed := trackSegments_timed hplan hmem
  obtain ⟨reference, ticks, hplanned⟩ := plan_spec hplan
  have htiles := hplanned.spans_tile hmem
  change ∀ part ∈ presentation.trackSegments track.id, _ at htimed
  refine ⟨fun addressing => ?_, fun part hpart sequenceNumber prepared
    hprepared => ?_, ?_, fun lines hlines => ?_⟩
  · have hwalk := walkTimeline_writeSegmentTemplate addressing htiles htimed
    refine ⟨hwalk, fun interval hlast => ?_⟩
    rw [hwalk, List.getLast?_map, Option.map_eq_some_iff] at hlast
    obtain ⟨part, hlast, rfl⟩ := hlast
    have hend : part.endSample = track.samples.len :=
      htiles.snd_of_getLast? (by
        unfold SegmentPlan.spans
        rw [List.getLast?_map]
        exact congrArg _ hlast)
    have hpart := htimed part (List.mem_of_getLast? hlast)
    rw [← track.cutTime_len, ← hend, ← hpart.stop]
    rfl
  · have hpartTimed := htimed part hpart
    refine fragmentDecodeTime_written
      (prepareMediaSegment_written hprepared).2.2.1 ?_
    change part.decodeTime < 2 ^ 64
    rw [hpartTimed.start]
    exact Track.cutTime_lt _
  · have hlength := length_trackSegments_le presentation.plan track.id
    have hcount := (plan_timed hplan).1
    simp only [mediaPlaylist_eq_ok_iff htrack]
    rw [← exists_segmentEntries_iff (by
      change 0 + 0 + (presentation.plan.trackSegments track.id).length ≤ _
      omega)]
    constructor
    · rintro ⟨lines, entries, hentries, -⟩
      exact ⟨entries, hentries⟩
    · rintro ⟨entries, hentries⟩
      exact ⟨_, entries, hentries, rfl⟩
  · have hentries := listedEntries_mediaPlaylist htrack hlines
    refine ⟨hentries, ?_⟩
    rw [hentries]
    obtain ⟨entries, -, rfl⟩ := (mediaPlaylist_eq_ok_iff htrack).mp hlines
    refine ⟨targetDuration presentation track, _, rfl, fun entry hentry => ?_⟩
    obtain ⟨⟨part, number⟩, hpart, rfl⟩ := List.mem_map.mp hentry
    exact milliseconds_le_targetDuration (List.fst_mem_of_mem_zipIdx hpart)

/-- A video track whose second frame comes a very long time after the first. -/
def longIndex : MediaIndex where
  tracks :=
    [.checked 1 .video 1
       (.new ⟨[9, 9], [⟨0, 0⟩], [⟨0, 0, 1⟩, ⟨1, 2 ^ 60, 1⟩], [], none⟩)
       (by decide)]
  ids_unique := by decide

def longPresentation : Presentation where
  tracks := longIndex.tracks
  plan := ⟨[⟨0, [⟨1, 0, 1, 0, 2 ^ 60⟩]⟩, ⟨1, [⟨1, 1, 2, 2 ^ 60, 1⟩]⟩]⟩
  version := "0"
  encryption := none
  aes128 := none

/-- A plan is made, but no playlist. -/
theorem long_segment_not_listed :
    plan longIndex 1000 {} = .ok longPresentation.plan ∧
      mediaPlaylist longPresentation .video =
        .error (invalidMedia "segment duration overflow") ∧
      ¬ ∃ lines, mediaPlaylist longPresentation .video = .ok lines := by
  have hrefused : mediaPlaylist longPresentation .video =
      .error (invalidMedia "segment duration overflow") := by
    decide
  refine ⟨by decide, hrefused, ?_⟩
  rintro ⟨lines, hlines⟩
  simp [hrefused] at hlines

def leadingAudioPresentation : Presentation where
  tracks := leadingAudio.tracks
  plan := leadingAudioPlan
  version := "0"
  encryption := none
  aes128 := none

theorem timelines_agree_leadingAudio :
    ∃ track, leadingAudioPresentation.track (.audio 1) = .ok track ∧
      TimelineOf track
        (leadingAudioPresentation.trackSegments track.id)
        (writeSegmentTemplate leadingAudioPresentation track
          .plain).timeline := by
  obtain ⟨track, htrack⟩ := exists_ok_of_isOk
    (x := leadingAudioPresentation.track (.audio 1)) (by decide)
  have hplan : plan leadingAudio 1000 {} = .ok leadingAudioPlan := by
    decide +kernel
  exact ⟨track, htrack, (timelines_agree hplan rfl htrack).1 .plain⟩

end Segmentor
