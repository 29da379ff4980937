import Segmentor.PackagedAsset
import Segmentor.PackagedFiles
import Segmentor.SegmentTimes
import Segmentor.General.Stretch

/-!
# The streams of an asset

A player downloads a track, or the video with its audio, as an init segment
and one fragment for each segment with a part of it.  The parts of a track
follow each other in time and hold its samples, so that they can be read from
the fragments one after another.
-/

namespace Segmentor

open General

/-! ## Streams -/

/-- What a player asks for: one track, or the video with its audio. -/
inductive StreamName
  | single (key : TrackKey)
  | muxed
  deriving DecidableEq, Repr

namespace PackagedAsset

/-- The tracks a stream carries. -/
def streamTracks (asset : PackagedAsset) : StreamName → Result (List Track)
  | .single key => (asset.track key).map fun track => [track]
  | .muxed => do
      let muxed ← asset.muxedKeys
      [muxed.video, muxed.audio].mapM asset.track

/-- The answer to a request for segment `segmentIndex` of a stream. -/
def streamSegment (asset : PackagedAsset) (stream : StreamName)
    (segmentIndex : ℕ) : Result PendingSegment :=
  match stream with
  | .single key => asset.prepareMediaSegment key segmentIndex
  | .muxed => asset.prepareMuxedSegment segmentIndex

end PackagedAsset

/-- The parts of a segment that are of one of the tracks. -/
def Segment.partsOf (segment : Segment) (tracks : List Track) :
    List (Track × TrackSegment) :=
  tracks.filterMap fun track =>
    (segment.part track.id).map fun part => (track, part)

/-- The segments that hold a part of one of the tracks, with their indexes. -/
def SegmentPlan.streamSegments (plan : SegmentPlan) (tracks : List Track) :
    List (Segment × ℕ) :=
  plan.segments.zipIdx.filter fun entry => !(entry.1.partsOf tracks).isEmpty

/-- The fragment holds what the parts list. -/
structure StreamFragment.Holds (fragment : StreamFragment)
    (prepared : PreparedSegment) (parts : List (Track × TrackSegment)) :
    Prop where
  prepared_eq : fragment.prepared = prepared
  parts_eq : fragment.parts = (parts.filter hasSamples).map expand

theorem prepareMediaSegment_holds {track : Track} {segment : TrackSegment}
    {sequenceNumber : ℕ} {limits : LimitsConfig} {prepared : PreparedSegment}
    (h : prepareMediaSegment track segment sequenceNumber limits =
      .ok prepared) :
    ∃ fragment : StreamFragment, fragment.Holds prepared [(track, segment)] := by
  obtain ⟨hsamples, -, hwritten, hranges⟩ := prepareMediaSegment_written h
  obtain ⟨payload, hframed⟩ := prepareMediaSegment_framed h
  refine ⟨⟨prepared, [expand (track, segment)], payload, hwritten, hframed,
    fun source => ?_⟩, rfl, ?_⟩
  · rw [List.flatMap_singleton]
    exact hranges source
  · rw [List.filter_cons_of_pos hsamples]
    rfl

theorem prepareMuxedSegment_holds {parts : List (Track × TrackSegment)}
    {sequenceNumber : ℕ} {limits : LimitsConfig} {prepared : PreparedSegment}
    (h : prepareMuxedSegment parts sequenceNumber limits = .ok prepared) :
    ∃ fragment : StreamFragment, fragment.Holds prepared parts := by
  obtain ⟨-, hwritten, hranges⟩ := prepareMuxedSegment_written h
  obtain ⟨payload, hframed⟩ := prepareMuxedSegment_framed h
  exact ⟨⟨prepared, _, payload, hwritten, hframed, hranges⟩, rfl, rfl⟩

namespace PackagedAsset

variable {asset : PackagedAsset} {stream : StreamName} {tracks : List Track}
  {segment : Segment} {segmentIndex : ℕ} {pending : PendingSegment}

/-- What is answered is a fragment of the stream's parts of the segment. -/
theorem streamSegment_holds (htracks : asset.streamTracks stream = .ok tracks)
    (hsegment : asset.plan.segments[segmentIndex]? = some segment)
    (h : asset.streamSegment stream segmentIndex = .ok pending) :
    ∃ fragment : StreamFragment,
      fragment.Holds pending.prepared (segment.partsOf tracks) := by
  cases stream with
  | single key =>
      unfold streamSegment prepareMediaSegment prepareNumberedSegment at h
      dsimp only at h
      obtain ⟨track, htrack, h⟩ := bind_eq_ok_iff.mp h
      unfold streamTracks at htracks
      dsimp only at htracks
      rw [htrack] at htracks
      obtain rfl := Except.ok.inj htracks
      obtain ⟨found, hfound, h⟩ := bind_eq_ok_iff.mp h
      obtain rfl := Option.some.inj (hsegment.symm.trans (okOr_eq_ok_iff.mp hfound))
      obtain ⟨part, hpart, h⟩ := bind_eq_ok_iff.mp h
      obtain ⟨prepared, hprepared, h⟩ := bind_eq_ok_iff.mp h
      obtain rfl := Except.ok.inj h
      have hparts : segment.partsOf [track] = [(track, part)] := by
        unfold Segment.partsOf
        rw [List.filterMap_cons, okOr_eq_ok_iff.mp hpart]
        rfl
      rw [hparts]
      exact prepareMediaSegment_holds hprepared
  | muxed =>
      unfold streamSegment prepareMuxedSegment at h
      dsimp only at h
      obtain ⟨muxed, hmuxed, h⟩ := bind_eq_ok_iff.mp h
      unfold streamTracks at htracks
      dsimp only at htracks
      rw [hmuxed, ok_bind] at htracks
      obtain ⟨found, hfound, h⟩ := bind_eq_ok_iff.mp h
      obtain rfl := Option.some.inj (hsegment.symm.trans (okOr_eq_ok_iff.mp hfound))
      obtain ⟨parts, hparts, h⟩ := bind_eq_ok_iff.mp h
      split at h
      · cases h
      obtain ⟨prepared, hprepared, h⟩ := bind_eq_ok_iff.mp h
      obtain rfl := Except.ok.inj h
      have hlisted : parts.filterMap id = segment.partsOf tracks := by
        have htracks' := mapM_forall₂ htracks
        have hparts' := mapM_forall₂ hparts
        generalize [muxed.video, muxed.audio] = keys at htracks' hparts'
        clear * - htracks' hparts'
        unfold Segment.partsOf
        induction hparts' generalizing tracks with
        | nil =>
            obtain rfl := List.forall₂_nil_left_iff.mp htracks'
            rfl
        | @cons key part keys parts hpart _ ih =>
            cases htracks' with
            | @cons _ track _ rest htrack hrest =>
                unfold muxedPart at hpart
                rw [htrack, ok_bind] at hpart
                obtain rfl := Except.ok.inj hpart
                rw [List.filterMap_cons, List.filterMap_cons, ih hrest]
                cases segment.part track.id <;> rfl
      rw [hlisted] at hprepared
      exact prepareMuxedSegment_holds hprepared

end PackagedAsset

/-! ## The parts of a stream -/

/-- The parts of the tracks, in the order they are served. -/
def SegmentPlan.streamParts (plan : SegmentPlan) (tracks : List Track) :
    List (Track × TrackSegment) :=
  plan.segments.flatMap fun segment => segment.partsOf tracks

/-- Each segment of the stream is served as it is prepared. -/
def PackagedAsset.Serves (asset : PackagedAsset) (stream : StreamName)
    (tracks : List Track) (served : List PreparedSegment) : Prop :=
  List.Forall₂ (fun entry prepared =>
    asset.streamSegment stream entry.2 = .ok ⟨prepared, none⟩)
    (asset.plan.streamSegments tracks) served

section

variable {plan : SegmentPlan} {tracks : List Track} {track : Track}
  {segment : Segment}

theorem flatMap_streamSegments (plan : SegmentPlan) (tracks : List Track) :
    ((plan.streamSegments tracks).flatMap fun entry =>
      entry.1.partsOf tracks) = plan.streamParts tracks := by
  have hskip : ∀ entries : List (Segment × ℕ),
      ((entries.filter fun entry =>
        !(entry.1.partsOf tracks).isEmpty).flatMap fun entry =>
          entry.1.partsOf tracks) =
        (entries.map Prod.fst).flatMap fun segment =>
          segment.partsOf tracks := by
    intro entries
    induction entries with
    | nil => rfl
    | cons entry entries ih =>
        rw [List.map_cons, List.flatMap_cons, ← ih]
        by_cases hempty : (entry.1.partsOf tracks).isEmpty = true
        · rw [List.filter_cons_of_neg (by simp [hempty]),
            List.isEmpty_iff.mp hempty, List.nil_append]
        · rw [List.filter_cons_of_pos (by simpa using hempty),
            List.flatMap_cons]
  unfold SegmentPlan.streamSegments SegmentPlan.streamParts
  rw [hskip, List.zipIdx_map_fst]

/-- What is served of a stream holds the parts of its tracks, in order. -/
theorem PackagedAsset.Serves.fragments {asset : PackagedAsset}
    {stream : StreamName} {served : List PreparedSegment}
    (htracks : asset.streamTracks stream = .ok tracks)
    (h : asset.Serves stream tracks served) :
    ∃ fragments : List StreamFragment,
      fragments.map StreamFragment.prepared = served ∧
      fragments.flatMap StreamFragment.parts =
        ((asset.plan.streamParts tracks).filter hasSamples).map expand := by
  have heach : List.Forall₂ (fun entry prepared =>
      ∃ fragment : StreamFragment,
        fragment.Holds prepared (entry.1.partsOf tracks))
      (asset.plan.streamSegments tracks) served := by
    refine List.Forall₂.imp ?_ ((List.forall₂_and_left _ _).mpr
      ⟨fun _ hmem => hmem, h⟩)
    rintro ⟨segment, segmentIndex⟩ prepared ⟨hmem, hserved⟩
    have hsegment := List.mem_zipIdx_iff_getElem?.mp (List.mem_filter.mp hmem).1
    exact streamSegment_holds htracks hsegment hserved
  rw [← flatMap_streamSegments]
  clear h
  generalize asset.plan.streamSegments tracks = entries at heach
  induction heach with
  | nil => exact ⟨[], rfl, rfl⟩
  | cons hfirst _ ih =>
      obtain ⟨fragment, hprepared, hparts⟩ := hfirst
      obtain ⟨fragments, hserved, hrest⟩ := ih
      refine ⟨fragment :: fragments, ?_, ?_⟩
      · rw [List.map_cons, hprepared, hserved]
      · rw [List.flatMap_cons, hparts, hrest, List.flatMap_cons,
          List.filter_append, List.map_append]

theorem filter_partsOf (hunique : (tracks.map Track.id).Nodup)
    (htrack : track ∈ tracks) (segment : Segment) :
    (segment.partsOf tracks).filter (fun part => part.1.id == track.id) =
      ((segment.part track.id).map fun part => (track, part)).toList := by
  unfold Segment.partsOf
  induction tracks with
  | nil => cases htrack
  | cons other tracks ih =>
      obtain ⟨hfresh, hunique⟩ := List.nodup_cons.mp hunique
      have hnone : ∀ others : List Track, track.id ∉ others.map Track.id →
          (others.filterMap fun other => (segment.part other.id).map
            fun part => (other, part)).filter
              (fun part => part.1.id == track.id) = [] := by
        intro others hothers
        rw [List.filter_eq_nil_iff]
        intro part hpart hsame
        obtain ⟨other, hother, hfound⟩ := List.mem_filterMap.mp hpart
        obtain ⟨found, -, rfl⟩ := Option.map_eq_some_iff.mp hfound
        exact hothers (List.mem_map.mpr ⟨other, hother, beq_iff_eq.mp hsame⟩)
      rcases List.mem_cons.mp htrack with rfl | hmem
      · rw [List.filterMap_cons]
        cases segment.part track.id with
        | none => exact hnone tracks hfresh
        | some part =>
            dsimp only [Option.map_some]
            rw [List.filter_cons_of_pos (by simp), hnone tracks hfresh]
            rfl
      · have hother : other.id ≠ track.id := fun hsame =>
          hfresh (hsame ▸ List.mem_map_of_mem hmem)
        rw [List.filterMap_cons]
        cases segment.part other.id with
        | none => exact ih hunique hmem
        | some part =>
            dsimp only [Option.map_some]
            rw [List.filter_cons_of_neg (by simpa using hother)]
            exact ih hunique hmem

/-- The parts of a track in a stream are its parts in the plan. -/
theorem filter_streamParts (hunique : (tracks.map Track.id).Nodup)
    (htrack : track ∈ tracks) :
    (plan.streamParts tracks).filter (fun part => part.1.id == track.id) =
      (plan.trackSegments track.id).map fun part => (track, part) := by
  unfold SegmentPlan.streamParts SegmentPlan.trackSegments
  rw [List.filter_flatMap, List.map_filterMap,
    List.filterMap_eq_flatMap_toList]
  refine List.flatMap_congr fun segment _ => ?_
  exact filter_partsOf hunique htrack segment

theorem mem_streamParts {part : Track × TrackSegment}
    (hpart : part ∈ plan.streamParts tracks) :
    part.1 ∈ tracks ∧ part.2 ∈ plan.trackSegments part.1.id := by
  obtain ⟨segment, hsegment, hpart⟩ := List.mem_flatMap.mp hpart
  obtain ⟨track, htrack, hfound⟩ := List.mem_filterMap.mp hpart
  obtain ⟨found, hpartOf, rfl⟩ := Option.map_eq_some_iff.mp hfound
  exact ⟨htrack, List.mem_filterMap.mpr ⟨segment, hsegment, hpartOf⟩⟩

/-- What is read for a track of a stream. -/
theorem wantedOf_streamParts {query : TrackQuery}
    (hunique : (tracks.map Track.id).Nodup) (htrack : track ∈ tracks)
    (hquery : query.trackId = track.id) :
    query.wantedOf (((plan.streamParts tracks).filter hasSamples).map expand) =
      (((plan.trackSegments track.id).map fun part =>
        (track, part)).filter hasSamples).map expand := by
  unfold TrackQuery.wantedOf
  rw [List.filter_map, List.filter_comm, hquery]
  change (List.filter hasSamples (List.filter
    (fun part => part.1.id == track.id) _)).map expand = _
  rw [filter_streamParts hunique htrack]

end

/-! ## The times of the parts -/

section

variable {track : Track} {first stop : ℕ}

theorem Track.cutTime_add_duration_le {cut : ℕ}
    (hcut : cut < track.samples.len) :
    track.cutTime cut + (track.samples.get cut).duration ≤
      track.cutTime (cut + 1) := by
  rw [cutTime_of_lt hcut]
  by_cases hnext : cut + 1 < track.samples.len
  · rw [cutTime_of_lt hnext]
    exact track.samples_valid.decodeTime_add_duration_le hnext
  · obtain rfl : cut = track.samples.len - 1 := by omega
    rw [show track.samples.len - 1 + 1 = track.samples.len by omega,
      cutTime_len]
    exact Nat.le_refl _

theorem Track.cutTime_add_totalDuration_le (hfirst : first ≤ stop)
    (hstop : stop ≤ track.samples.len) :
    track.cutTime first + totalDuration (stretch track.samples.all first stop) ≤
      track.cutTime stop := by
  induction stop, hfirst using Nat.le_induction with
  | base =>
      rw [stretch_eq_nil (Nat.le_refl _), totalDuration_nil]
      exact Nat.le_refl _
  | succ stop hfirst ih =>
      have hbefore := ih (by omega)
      have hstep := @cutTime_add_duration_le track stop hstop
      have hlast : stretch track.samples.all stop (stop + 1) =
          [track.samples.get stop] := by
        unfold stretch
        rw [List.take_add_one, track.samples.getElem?_all hstop,
          List.drop_append_of_le_length (by simp; omega),
          List.drop_eq_nil_of_le (by simp)]
        rfl
      rw [← stretch_append_stretch hfirst (Nat.le_succ stop), hlast]
      unfold totalDuration at hbefore ⊢
      rw [List.map_append, List.sum_append, List.map_singleton,
        List.sum_singleton]
      omega

end

/-- A part of a track with samples, timed by its cuts. -/
structure StreamPart (tracks : List Track) (part : Track × TrackSegment) :
    Prop where
  mem : part.1 ∈ tracks
  timed : Timed part.1 part.2
  hasSamples : hasSamples part = true

section

variable {tracks : List Track} {part : Track × TrackSegment}

theorem StreamPart.samples_eq (h : StreamPart tracks part) :
    (expand part).samples =
      stretch part.1.samples.all part.2.firstSample part.2.endSample :=
  part.1.samples_valid.toVec_eq h.timed.first_le h.timed.end_le

theorem StreamPart.decodeTime_mod (h : StreamPart tracks part) :
    part.2.decodeTime % 2 ^ 64 = part.1.cutTime part.2.firstSample := by
  rw [h.timed.start]
  exact Nat.mod_eq_of_lt (Track.cutTime_lt _)

theorem StreamPart.stopTime_le (h : StreamPart tracks part) :
    (expand part).stopTime ≤ part.1.cutTime part.2.endSample := by
  have hcuts := Track.cutTime_add_totalDuration_le h.timed.first_le
    h.timed.end_le
  unfold ExpandedPart.stopTime
  rw [h.samples_eq]
  change part.2.decodeTime % 2 ^ 64 + _ ≤ _
  rw [h.decodeTime_mod]
  exact hcuts

theorem StreamPart.stopTime_le_endTime (h : StreamPart tracks part) :
    (expand part).stopTime ≤ part.1.endTime := by
  rw [← Track.cutTime_len]
  exact h.stopTime_le.trans
    (Track.cutTime_mono h.timed.end_le (Nat.le_refl _))

end

/-- The tracks of a stream, as a plan cuts them. -/
structure Streamed (index : MediaIndex) (plan : SegmentPlan)
    (tracks : List Track) : Prop where
  unique : (tracks.map Track.id).Nodup
  mem : ∀ track ∈ tracks, track ∈ index.tracks
  planned : ∃ targetDurationMs limits,
    Segmentor.plan index targetDurationMs limits = .ok plan

namespace Streamed

variable {index : MediaIndex} {plan : SegmentPlan} {tracks : List Track}
  {track : Track}

theorem part (h : Streamed index plan tracks) :
    ∀ part ∈ (plan.streamParts tracks).filter hasSamples,
      StreamPart tracks part := by
  intro part hpart
  obtain ⟨hlisted, hsamples⟩ := List.mem_filter.mp hpart
  obtain ⟨hmem, hsegment⟩ := mem_streamParts hlisted
  obtain ⟨targetDurationMs, limits, hplan⟩ := h.planned
  exact ⟨hmem, trackSegments_timed hplan (h.mem _ hmem) _ hsegment, hsamples⟩

theorem tiles (h : Streamed index plan tracks) (htrack : track ∈ tracks) :
    ∃ first, Tiles first (plan.spans track.id) track.samples.len := by
  obtain ⟨targetDurationMs, limits, hplan⟩ := h.planned
  obtain ⟨reference, ticks, hplanned⟩ := plan_spec hplan
  exact ⟨_, hplanned.spans_tile (h.mem track htrack)⟩

theorem samples_eq {first : ℕ}
    (htiles : Tiles first (plan.spans track.id) track.samples.len) :
    ((((plan.trackSegments track.id).map fun part =>
        (track, part)).filter hasSamples).map expand).flatMap
          ExpandedPart.samples =
      track.samples.all.drop first := by
  have hbounds := fun span => @Tiles.mem_bounds _ _ _ htiles span
  have hjoined := @flatMap_stretch_of_tiles _ track.samples.all _ _ _ htiles
  unfold stretch at hjoined
  rw [List.take_of_length_le (by rw [SampleIndex.length_all])] at hjoined
  rw [← hjoined]
  unfold SegmentPlan.spans at hbounds ⊢
  generalize plan.trackSegments track.id = parts at hbounds
  clear htiles hjoined
  induction parts with
  | nil => rfl
  | cons part parts ih =>
      obtain ⟨hpart, hparts⟩ := List.forall_mem_cons.mp hbounds
      rw [List.map_cons, List.map_cons, List.flatMap_cons, ← ih hparts]
      by_cases hsamples : hasSamples (track, part) = true
      · rw [List.filter_cons_of_pos hsamples, List.map_cons, List.flatMap_cons]
        exact congrArg (· ++ _)
          (track.samples_valid.toVec_eq hpart.2.1 hpart.2.2)
      · have hnone : part.endSample ≤ part.firstSample := by
          simpa [hasSamples] using hsamples
        rw [List.filter_cons_of_neg hsamples]
        have hempty := @stretch_eq_nil _ track.samples.all _ _ hnone
        unfold stretch at hempty
        rw [hempty, List.nil_append]

/-- When the samples of a track in a stream decode. -/
def times (plan : SegmentPlan) (track : Track) : List ℕ :=
  (plan.trackSegments track.id).flatMap fun part =>
    decodeTimes part.decodeTime
      (track.samples.toVec part.firstSample part.endSample)

theorem times_eq (h : Streamed index plan tracks) (htrack : track ∈ tracks) :
    ((((plan.trackSegments track.id).map fun part =>
        (track, part)).filter hasSamples).map expand).flatMap
          ExpandedPart.times =
      times plan track := by
  obtain ⟨targetDurationMs, limits, hplan⟩ := h.planned
  have htimed := trackSegments_timed hplan (h.mem track htrack)
  unfold times
  generalize plan.trackSegments track.id = parts at htimed
  induction parts with
  | nil => rfl
  | cons part parts ih =>
      obtain ⟨hpart, hparts⟩ := List.forall_mem_cons.mp htimed
      rw [List.map_cons, List.flatMap_cons, ← ih hparts]
      by_cases hsamples : hasSamples (track, part) = true
      · have hmod : part.decodeTime % 2 ^ 64 = part.decodeTime := by
          rw [hpart.start]
          exact Nat.mod_eq_of_lt (Track.cutTime_lt _)
        rw [List.filter_cons_of_pos hsamples, List.map_cons, List.flatMap_cons]
        unfold ExpandedPart.times expand
        dsimp only
        rw [hmod]
      · have hnone : part.endSample ≤ part.firstSample := by
          simpa [hasSamples] using hsamples
        have hempty : track.samples.toVec part.firstSample part.endSample =
            [] := by
          rw [track.samples_valid.toVec_eq hpart.first_le hpart.end_le]
          exact stretch_eq_nil hnone
        rw [List.filter_cons_of_neg hsamples, hempty]
        rfl

variable {query : TrackQuery}

theorem wanted (h : Streamed index plan tracks) (htrack : track ∈ tracks)
    (hquery : query.trackId = track.id) {part : Track × TrackSegment}
    (hpart : StreamPart tracks part) (hwanted : part.1.id = query.trackId) :
    part.1 = track :=
  index.eq_of_id_eq (h.mem _ hpart.mem) (h.mem track htrack)
    (hwanted.trans hquery)

/-- The parts of a track follow each other. -/
theorem chained (h : Streamed index plan tracks) (htrack : track ∈ tracks)
    (hquery : query.trackId = track.id) :
    (((plan.streamParts tracks).filter hasSamples).map expand).Pairwise
      fun part later => part.track.id = query.trackId →
        later.track.id = query.trackId →
          part.stopTime ≤ later.segment.decodeTime % 2 ^ 64 := by
  have hparts := h.part
  obtain ⟨first, htiles⟩ := h.tiles htrack
  have hspans := htiles.pairwise
  unfold SegmentPlan.spans at hspans
  rw [List.pairwise_map] at hspans ⊢
  have hown : (((plan.streamParts tracks).filter hasSamples).filter
      fun part => part.1.id == track.id).Pairwise fun part later =>
        part.2.endSample ≤ later.2.firstSample := by
    rw [List.filter_comm, filter_streamParts h.unique htrack]
    exact (List.pairwise_map.mpr hspans).filter _
  rw [List.pairwise_filter] at hown
  refine hown.imp_of_mem fun hpart hlater hafter hwanted hsame => ?_
  have hfirst := hparts _ hpart
  have hnext := hparts _ hlater
  have hcut := hafter (beq_iff_eq.mpr (hwanted.trans hquery))
    (beq_iff_eq.mpr (hsame.trans hquery))
  change _ ≤ _ % 2 ^ 64
  refine hfirst.stopTime_le.trans ?_
  change _ ≤ (expand _).segment.decodeTime % 2 ^ 64
  have hmod := hnext.decodeTime_mod
  unfold expand
  dsimp only
  rw [hmod, h.wanted htrack hquery hfirst hwanted,
    h.wanted htrack hquery hnext hsame]
  refine Track.cutTime_mono hcut ?_
  have hstop := hnext.timed.first_le.trans hnext.timed.end_le
  rwa [h.wanted htrack hquery hnext hsame] at hstop

/-- The stream can be read from its start, as long as no two of its tracks
reach past a word together. -/
theorem ahead (h : Streamed index plan tracks) (htrack : track ∈ tracks)
    (hquery : query.trackId = track.id)
    (hcount : track.samples.len ≤ query.limits.maxSamplesPerTrack)
    (hbeside : ∀ other ∈ tracks, other.id ≠ track.id →
      track.endTime + other.endTime < 2 ^ 64) :
    query.Ahead ⟨[], 0, 0⟩
      (((plan.streamParts tracks).filter hasSamples).map expand) := by
  have hparts := h.part
  obtain ⟨first, htiles⟩ := h.tiles htrack
  have hlast : ∀ part, StreamPart tracks part →
      totalDuration (expand part).samples ≤ part.1.endTime := by
    intro part hpart
    have hstop := hpart.stopTime_le_endTime
    unfold ExpandedPart.stopTime at hstop
    omega
  refine ⟨?_, ?_, ?_, h.chained htrack hquery, ?_, ?_⟩
  · have hwanted := @wantedOf_streamParts plan _ _ _ h.unique htrack hquery
    unfold TrackQuery.wantedOf at hwanted
    have hlength := congrArg List.length (samples_eq htiles)
    rw [hwanted]
    rw [List.length_flatMap, List.length_drop, SampleIndex.length_all]
      at hlength
    rw [hlength, List.length_nil]
    omega
  · intro part _ _
    exact Nat.zero_le _
  · intro part hpart hwanted
    obtain ⟨found, hfound, rfl⟩ := List.mem_map.mp hpart
    refine (hparts found hfound).stopTime_le.trans_lt ?_
    exact Track.cutTime_lt _
  · intro other hother hdiffers
    obtain ⟨found, hfound, rfl⟩ := List.mem_map.mp hother
    have hend := hbeside found.1 (hparts found hfound).mem
      (fun hsame => hdiffers (hsame.trans hquery.symm))
    have := hlast found (hparts found hfound)
    dsimp only
    omega
  · intro part hpart hwanted other hother hdiffers
    obtain ⟨own, hown, rfl⟩ := List.mem_map.mp hpart
    obtain ⟨found, hfound, rfl⟩ := List.mem_map.mp hother
    have hstop := (hparts own hown).stopTime_le_endTime
    rw [h.wanted htrack hquery (hparts own hown) hwanted] at hstop
    have hend := hbeside found.1 (hparts found hfound).mem
      (fun hsame => hdiffers (hsame.trans hquery.symm))
    have := hlast found (hparts found hfound)
    omega

end Streamed

/-! ## The samples of a stream -/

section

variable {index : MediaIndex} {plan : SegmentPlan} {tracks : List Track}
  {track : Track} {source before : List UInt8} {limits : LimitsConfig}
  {fragments : List StreamFragment} {query : TrackQuery}

theorem Streamed.partsInside (h : Streamed index plan tracks)
    (hloaded : ∀ track ∈ tracks, Loaded source limits track) :
    PartsInside source
      (((plan.streamParts tracks).filter hasSamples).map expand) := by
  intro part hpart
  obtain ⟨found, hfound, rfl⟩ := List.mem_map.mp hpart
  have hof := h.part found hfound
  exact (hloaded _ hof.mem).toVec_inside hof.timed.first_le hof.timed.end_le

theorem Streamed.trackSamples_eq_ok (h : Streamed index plan tracks)
    (htrack : track ∈ tracks) (hquery : query.trackId = track.id)
    (hloaded : ∀ track ∈ tracks, Loaded source query.limits track)
    (hbeside : ∀ other ∈ tracks, other.id ≠ track.id →
      track.endTime + other.endTime < 2 ^ 64)
    (hparts : fragments.flatMap StreamFragment.parts =
      ((plan.streamParts tracks).filter hasSamples).map expand)
    (hlength : query.sourceLen =
      (packagedFile source before fragments).length)
    (hword : query.sourceLen < 2 ^ 64) {first : ℕ}
    (htiles : Tiles first (plan.spans track.id) track.samples.len) :
    ∃ found, trackSamples ((placedFragments before.length fragments).map
        fun item => item.2.moofAt item.1) query = .ok found ∧
      List.Forall₂ (SameSample source (packagedFile source before fragments)
        track.kind) (track.samples.all.drop first) found ∧
      found.map Sample.decodeTime = Streamed.times plan track := by
  have hinside := h.partsInside hloaded
  rw [← hparts] at hinside
  have hahead := h.ahead htrack hquery (hloaded track htrack).count_le hbeside
  rw [← hparts] at hahead
  have htotal : (packagedFile source before fragments).length =
      before.length + streamLength fragments := by
    unfold packagedFile streamLength
    rw [List.length_append, List.length_flatMap]
    congr 2
    refine List.map_congr_left fun fragment hfragment => ?_
    exact fragment.length_served fun part hpart => hinside part
      (List.mem_flatMap.mpr ⟨fragment, hfragment, hpart⟩)
  obtain ⟨found, hfound, hsame, htimes⟩ := @TrackQuery.readStream_found source
    (packagedFile source before fragments) track.kind query ⟨[], 0, 0⟩
    fragments before.length before [] (by
      intro part hpart hwanted
      rw [hparts] at hpart
      obtain ⟨own, hown, rfl⟩ := List.mem_map.mp hpart
      exact congrArg Track.kind (h.wanted htrack hquery (h.part own hown)
        hwanted))
    hinside (by rw [List.append_nil]; rfl) rfl
  rw [hparts, wantedOf_streamParts h.unique htrack hquery] at hsame htimes
  rw [Streamed.samples_eq htiles] at hsame
  rw [h.times_eq htrack] at htimes
  refine ⟨found, ?_, hsame, htimes⟩
  unfold trackSamples
  rw [TrackQuery.foldlM_readFragment_ahead hahead
    (by rw [hlength, htotal]) hword (by decide), ok_bind, hfound,
    List.nil_append]

end

end Segmentor
