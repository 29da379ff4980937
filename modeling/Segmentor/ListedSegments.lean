import Segmentor.PackagedAsset
import Segmentor.SegmentPlannerTiling

/-!
# The segments that are listed

A playlist and a manifest list one number for each segment of a track, so a
listed number names a part of the plan.  The part holds samples wherever the
track has one between the two instants the segment is cut at; the planner
leaves a track out of the segments after its end, but not out of those before
its start or inside a gap.
-/

namespace Segmentor

open General

/-! ## Errors other than the empty fragment's -/

def emptyFragment : Error :=
  .invalidMedia "segment contains no samples"

theorem writeBox_ne_emptyFragment (name payload : List UInt8) :
    writeBox name payload ≠ .error emptyFragment := by
  unfold writeBox writeBoxHeader
  refine bind_ne_error (okOr_ne_error (by decide)) fun size _ => ?_
  split <;> simp [emptyFragment]

theorem buildMoof_ne_emptyFragment (trackId : ℕ) (kind : TrackKind)
    (samples : List Sample) (decodeTime sequenceNumber : ℕ) (dataOffset : ℤ)
    (extra moofExtra : List UInt8) :
    buildMoof trackId kind samples decodeTime sequenceNumber dataOffset extra
      moofExtra ≠ .error emptyFragment := by
  unfold buildMoof buildTraf moofOf
  refine bind_ne_error ?_ fun traf _ =>
    bind_ne_error (writeBox_ne_emptyFragment _ _) fun mfhd _ =>
      writeBox_ne_emptyFragment _ _
  dsimp only
  split
  · simp [emptyFragment]
  · exact bind_ne_error (writeBox_ne_emptyFragment _ _) fun tfhd _ =>
      bind_ne_error (writeBox_ne_emptyFragment _ _) fun tfdt _ =>
        bind_ne_error (writeBox_ne_emptyFragment _ _) fun trun _ =>
          writeBox_ne_emptyFragment _ _

theorem coalesce_ne_emptyFragment (ranges : List ByteRange)
    (sample : Sample) : coalesce ranges sample ≠ .error emptyFragment := by
  unfold coalesce
  split
  · split
    · exact bind_ne_error (okOr_ne_error (by decide)) fun length _ => by simp
    · simp
  · simp

/-- A segment that holds samples is not refused as empty. -/
theorem prepareMediaSegment_ne_emptyFragment {track : Track}
    {segment : TrackSegment} (hsamples : segment.firstSample <
      segment.endSample) (hend : segment.endSample ≤ track.samples.len)
    (sequenceNumber : ℕ) (limits : LimitsConfig) :
    prepareMediaSegment track segment sequenceNumber limits ≠
      .error emptyFragment := by
  have hlength : (track.samples.toVec segment.firstSample
      segment.endSample).isEmpty = false := by
    rw [track.samples_valid.toVec_eq hsamples.le hend, List.isEmpty_eq_false_iff,
      ← List.length_pos_iff, List.length_drop, List.length_take,
      SampleIndex.length_all]
    omega
  unfold prepareMediaSegment
  rw [if_neg (by omega)]
  dsimp only
  rw [hlength, if_neg (by simp)]
  refine bind_ne_error (buildMoof_ne_emptyFragment _ _ _ _ _ _ _ _) fun provisional _ => ?_
  refine bind_ne_error ?_ fun dataOffset _ => ?_
  · unfold signedOffset
    split <;> simp [emptyFragment]
  refine bind_ne_error (buildMoof_ne_emptyFragment _ _ _ _ _ _ _ _) fun moof _ => ?_
  refine bind_ne_error ?_ fun payload _ => ?_
  · exact foldlM_ne_error (fun total sample =>
      okOr_ne_error (show Error.invalidMedia _ ≠ emptyFragment by decide)) _ _
  split
  · simp [emptyFragment]
  refine bind_ne_error ?_ fun closed _ => ?_
  · unfold closeHeader writeBoxHeader
    refine bind_ne_error ?_ fun mdat _ => ?_
    · split <;> simp [emptyFragment]
    · exact bind_ne_error (okOr_ne_error (by decide)) fun length _ => by simp
  exact bind_ne_error (foldlM_ne_error coalesce_ne_emptyFragment _ _)
    fun ranges _ => by simp

/-! ## What a listed number names -/

/-- A number in the media playlist or the segment template of a track. -/
def Listed (presentation : Presentation) (key : TrackKey) (track : Track)
    (number : ℕ) : Prop :=
  (∃ lines, mediaPlaylist presentation key = .ok lines ∧
    number ∈ listedNumbers lines) ∨
  number ∈ (writeSegmentTemplate presentation track .plain).numbers

theorem listed_iff {presentation : Presentation} {key : TrackKey}
    {track : Track} (htrack : presentation.track key = .ok track)
    {number : ℕ} :
    Listed presentation key track number ↔
      number < (presentation.trackSegments track.id).length := by
  unfold Listed
  rw [numbers_writeSegmentTemplate, List.mem_range]
  constructor
  · rintro (⟨lines, hlines, hnumber⟩ | hnumber)
    · rw [listedNumbers_mediaPlaylist htrack hlines, List.mem_range] at hnumber
      exact hnumber
    · exact hnumber
  · exact .inr

/-- A follower that has ended stays ended, so the parts a track has are those
of the first segments of the plan. -/
theorem Planned.getElem?_trackSegments {index : MediaIndex}
    {targetDurationMs : ℕ} {p : SegmentPlan} {reference track : Track}
    {ticks : ℕ} (h : Planned index targetDurationMs p reference ticks)
    (htrack : track ∈ index.tracks) (number : ℕ) :
    (p.trackSegments track.id)[number]? =
      p.segments[number]?.bind fun segment => segment.part track.id := by
  refine getElem?_filterMap_of_pairwise ?_ number
  have hfirsts : ((pairs (referenceBoundaries reference ticks)).zipIdx.map
      (Prod.fst ∘ Prod.fst)).Pairwise (· < ·) := by
    rw [← List.map_map, List.zipIdx_map_fst, map_fst_pairs]
    exact (referenceBoundaries_pairwise reference ticks).sublist
      (List.dropLast_sublist _)
  have hcuts : (pairs (referenceBoundaries reference ticks)).zipIdx.Pairwise
      fun a b => a.1.1 < b.1.1 ∧ b.1.1 < reference.samples.len :=
    (List.pairwise_map.mp hfirsts).imp_of_mem fun _ hb hlt =>
      ⟨hlt, (mem_pairs_referenceBoundaries
        (List.fst_mem_of_mem_zipIdx hb)).2.1⟩
  refine pairwise_of_forall₂ h.segments hcuts ?_
  rintro a b segment later hsegment hlater ⟨hlt, hinside⟩ hnone
  rcases index.eq_reference_or_mem_followers h.videos h.found htrack with
    rfl | ⟨-, hfollower⟩
  · obtain ⟨part, hpart, -⟩ := hsegment.own
    rw [hpart] at hnone
    simp at hnone
  · have hfirst := hsegment.follower track hfollower
    have hsecond := hlater.follower track hfollower
    unfold followerPart at hfirst hsecond
    have hended : followerCut reference track a.1.1 = track.samples.len := by
      by_contra hlive
      rw [if_neg hlive] at hfirst
      obtain ⟨part, hpart, -⟩ := hfirst
      rw [hpart] at hnone
      simp at hnone
    have hmono := @followerCut_mono _ track _ _ hlt hinside.le
    have hle := followerCut_le reference track b.1.1
    rwa [if_pos (by omega)] at hsecond

/-- The number names a part of the track that holds samples, and preparing it
does not fail with the empty fragment's error. -/
def ServesSamples (asset : PackagedAsset) (key : TrackKey) (track : Track)
    (number : ℕ) : Prop :=
  (∃ segment part, asset.plan.segments[number]? = some segment ∧
    segment.part track.id = some part ∧
    part.firstSample < part.endSample) ∧
  ∀ sequenceNumber,
    asset.prepareNumberedSegment key number sequenceNumber ≠
      .error emptyFragment

/-- Wherever the track is still to have samples when the reference is cut, it
has one before the next cut. -/
def SamplesBetweenCuts (reference track : Track) (ticks : ℕ) : Prop :=
  ∀ cut ∈ pairs (referenceBoundaries reference ticks),
    cut.2 ≠ reference.samples.len →
    (∃ i < track.samples.len,
      cutInstant reference track cut.1 ≤ track.samples.decodeTime i) →
    ∃ i < track.samples.len,
      cutInstant reference track cut.1 ≤ track.samples.decodeTime i ∧
        track.samples.decodeTime i < cutInstant reference track cut.2

/-- A follower's cut is before its end exactly where it has a sample at or
after the instant of the cut. -/
theorem followerCut_ne_len_iff {reference track : Track} {cut : ℕ}
    (hcut : cut ≠ reference.samples.len) :
    followerCut reference track cut ≠ track.samples.len ↔
      ∃ i < track.samples.len,
        cutInstant reference track cut ≤ track.samples.decodeTime i := by
  have hle := followerCut_le reference track cut
  have hlt := fun i (hi : i < track.samples.len) =>
    track.samples_valid.lt_partitionByDecodeTime_iff hi
      (cutInstant reference track cut)
  unfold followerCut at hle ⊢
  rw [if_neg hcut] at hle ⊢
  constructor
  · intro hne
    refine ⟨_, lt_of_le_of_ne hle hne, ?_⟩
    by_contra hbefore
    exact absurd ((hlt _ (lt_of_le_of_ne hle hne)).mpr (by omega))
      (Nat.lt_irrefl _)
  · rintro ⟨i, hi, hinstant⟩ heq
    have := (hlt i hi).mp (by omega)
    omega

/-- A follower has a part between two cuts exactly where it has a sample
between their instants. -/
theorem followerCut_lt_iff {reference track : Track} {first stop : ℕ}
    (hfirst : first ≠ reference.samples.len)
    (hstop : stop ≠ reference.samples.len) :
    followerCut reference track first < followerCut reference track stop ↔
      ∃ i < track.samples.len,
        cutInstant reference track first ≤ track.samples.decodeTime i ∧
          track.samples.decodeTime i < cutInstant reference track stop := by
  have hle := followerCut_le reference track stop
  have hlt := fun cut i (hi : i < track.samples.len) =>
    track.samples_valid.lt_partitionByDecodeTime_iff hi
      (cutInstant reference track cut)
  unfold followerCut at hle ⊢
  rw [if_neg hfirst]
  rw [if_neg hstop] at hle ⊢
  constructor
  · intro hparts
    have hi := lt_of_lt_of_le hparts hle
    refine ⟨_, hi, ?_, (hlt stop _ hi).mp hparts⟩
    by_contra hbefore
    exact absurd ((hlt first _ hi).mpr (by omega)) (Nat.lt_irrefl _)
  · rintro ⟨i, hi, hafter, hbefore⟩
    have h₁ := (hlt stop i hi).mpr hbefore
    have h₂ := mt (hlt first i hi).mp (by omega)
    omega

theorem Planned.spans_nonempty_iff {index : MediaIndex}
    {targetDurationMs : ℕ} {p : SegmentPlan} {reference track : Track}
    {ticks : ℕ} (h : Planned index targetDurationMs p reference ticks)
    (htrack : track ∈ index.tracks) :
    (∀ span ∈ p.spans track.id, span.1 < span.2) ↔
      track.id = reference.id ∨ SamplesBetweenCuts reference track ticks := by
  have hmem := fun pair => @mem_pairs_referenceBoundaries reference ticks pair
  rcases index.eq_reference_or_mem_followers h.videos h.found htrack with
    rfl | ⟨hid, hfollower⟩
  · have hspans : p.spans track.id = _ := spans_reference h.segments
    rw [hspans, List.zipIdx_map_fst]
    simp only [true_or, iff_true]
    exact fun span hspan => (hmem span hspan).1
  · have hspans : p.spans track.id = _ := spans_follower hfollower h.segments
    rw [hspans, List.zipIdx_map_fst]
    simp only [hid, false_or, List.mem_filter, List.mem_map, bne_iff_ne]
    unfold SamplesBetweenCuts
    constructor
    · intro hall cut hcut hlast hlive
      have hbounds := hmem cut hcut
      rw [← followerCut_ne_len_iff (by omega)] at hlive
      exact (followerCut_lt_iff (by omega) hlast).mp
        (hall _ ⟨⟨cut, hcut, rfl⟩, hlive⟩)
    · rintro hall _ ⟨⟨cut, hcut, rfl⟩, hlive⟩
      have hbounds := hmem cut hcut
      dsimp only at hlive ⊢
      by_cases hlast : cut.2 = reference.samples.len
      · have hend : followerCut reference track cut.2 = track.samples.len := by
          simp [followerCut, hlast]
        rw [hend]
        exact lt_of_le_of_ne (followerCut_le reference track cut.1) hlive
      · exact (followerCut_lt_iff (by omega) hlast).mpr
          (hall cut hcut hlast
            ((followerCut_ne_len_iff (by omega)).mp hlive))

/-- Every number listed for a track names a part with samples exactly where
the track is the reference, or has a sample between every two cuts until it
ends. -/
theorem listed_segments_serve_samples {asset : PackagedAsset}
    {targetDurationMs : ℕ}
    (hplan : plan asset.index targetDurationMs asset.limits =
      .ok asset.plan) :
    ∃ reference ticks, asset.index.reference = some reference ∧
      targetTicks reference targetDurationMs = .ok ticks ∧
      ∀ key track, asset.track key = .ok track →
        ((∀ number, Listed asset.presentation key track number →
          ServesSamples asset key track number) ↔
          track.id = reference.id ∨
            SamplesBetweenCuts reference track ticks) := by
  obtain ⟨reference, ticks, h⟩ := plan_spec hplan
  refine ⟨reference, ticks, h.found, h.target, fun key track hkey => ?_⟩
  have htrack := (Presentation.track_eq_ok hkey).1
  rw [← h.spans_nonempty_iff htrack]
  have hget := h.getElem?_trackSegments htrack
  have hlisted := fun number => @listed_iff _ _ _ hkey number
  simp only [hlisted]
  constructor
  · intro hserved span hspan
    obtain ⟨part, hpart, rfl⟩ := List.mem_map.mp hspan
    obtain ⟨number, hnumber⟩ := List.mem_iff_getElem?.mp hpart
    obtain ⟨segment, other, hsegment, hother, hlt⟩ := (hserved number
      (List.getElem?_eq_some_iff.mp hnumber).1).1
    rw [hget, hsegment] at hnumber
    obtain rfl : other = part :=
      Option.some.inj (hother.symm.trans hnumber)
    exact hlt
  · intro hspans number hnumber
    obtain ⟨part, hpart⟩ : ∃ part,
        (asset.plan.trackSegments track.id)[number]? = some part :=
      ⟨_, List.getElem?_eq_getElem hnumber⟩
    have hspan : (part.firstSample, part.endSample) ∈
        asset.plan.spans track.id :=
      List.mem_map_of_mem (List.mem_of_getElem? hpart)
    have hlt := hspans _ hspan
    have hend := ((h.spans_tile htrack).mem_bounds hspan).2.2
    rw [hget, Option.bind_eq_some_iff] at hpart
    obtain ⟨segment, hsegment, hpart⟩ := hpart
    refine ⟨⟨segment, part, hsegment, hpart, hlt⟩, fun sequenceNumber => ?_⟩
    unfold PackagedAsset.prepareNumberedSegment
    rw [hkey, ok_bind, hsegment, okOr_some, ok_bind, hpart, okOr_some, ok_bind]
    exact bind_ne_error (prepareMediaSegment_ne_emptyFragment hlt hend _ _)
      fun prepared _ => by simp

/-- Three keyframes a second apart, and audio with one long sample in front
of a short one. -/
def gappedIndex : MediaIndex where
  tracks :=
    [.checked 1 .video 1000
       (.new ⟨[9, 9, 9], [⟨0, 0⟩], [⟨0, 0, 1000⟩], [], none⟩) (by decide),
     .checked 2 (.audio 1) 1000
       (.new ⟨[5, 5], [⟨0, 27⟩], [⟨0, 0, 2500⟩, ⟨1, 2500, 10⟩], [], none⟩)
       (by decide)]
  ids_unique := by decide

def gappedPlan : SegmentPlan where
  segments :=
    [⟨0, [⟨1, 0, 1, 0, 1000⟩, ⟨2, 0, 1, 0, 2500⟩]⟩,
     ⟨1, [⟨1, 1, 2, 1000, 1000⟩, ⟨2, 1, 1, 2500, 0⟩]⟩,
     ⟨2, [⟨1, 2, 3, 2000, 1000⟩, ⟨2, 1, 2, 2500, 10⟩]⟩]

theorem plan_gappedIndex : plan gappedIndex 1000 {} = .ok gappedPlan := by
  decide

def gappedAsset : PackagedAsset where
  index := gappedIndex
  plan := gappedPlan
  limits := {}
  version := "0123456789abcdef"
  protection := none
  aes128 := none
  decryption := []
  muxed := none
  planned := ⟨1000, plan_gappedIndex⟩
  protection_built := by simp

/-- The audio's second segment is listed and refused as empty. -/
theorem listed_gap_refused :
    plan gappedIndex 1000 {} = .ok gappedPlan ∧
      (mediaPlaylist gappedAsset.presentation (.audio 1)).map
        listedNumbers = .ok [0, 1, 2] ∧
      gappedAsset.prepareMediaSegment (.audio 1) 1 = .error emptyFragment ∧
      ¬ ∀ key track, gappedAsset.track key = .ok track →
        ∀ number, Listed gappedAsset.presentation key track number →
          ServesSamples gappedAsset key track number := by
  have hrefused : gappedAsset.prepareMediaSegment (.audio 1) 1 =
      .error emptyFragment := rfl
  refine ⟨plan_gappedIndex, by decide, hrefused, fun hall => ?_⟩
  have hserved := hall (.audio 1) _ rfl 1
    ((listed_iff rfl).mpr (by decide))
  exact hserved.2 2 hrefused

theorem listed_segments_serve_samples_gapped :
    ∃ reference ticks, gappedAsset.index.reference = some reference ∧
      targetTicks reference 1000 = .ok ticks ∧
      ∀ key track, gappedAsset.track key = .ok track →
        ((∀ number, Listed gappedAsset.presentation key track number →
          ServesSamples gappedAsset key track number) ↔
          track.id = reference.id ∨
            SamplesBetweenCuts reference track ticks) :=
  listed_segments_serve_samples plan_gappedIndex

end Segmentor
