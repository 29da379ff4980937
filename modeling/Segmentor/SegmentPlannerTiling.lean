import Segmentor.SegmentPlanner

/-!
# Segments tile every track

The cuts of the reference ascend from its first sample to its end.  A follower
is cut at the same instants, so the samples it holds at or after the first
instant are tiled by its segments, in order.
-/

namespace Segmentor

open General

/-! ## The cuts of the reference -/

theorem cutsAnywhere_pairwise {samples : SampleIndex} {targetTicks : ℕ}
    (fuel current target : ℕ) :
    (current :: cutsAnywhere samples targetTicks fuel current target).Pairwise
        (· < ·) ∧
      ∀ cut ∈ cutsAnywhere samples targetTicks fuel current target,
        cut < samples.len := by
  induction fuel generalizing current target with
  | zero => simp [cutsAnywhere]
  | succ fuel ih =>
      unfold cutsAnywhere
      dsimp only
      split
      · simp
      · rename_i hnext
        obtain ⟨hpairwise, hlt⟩ := ih
          (max (samples.partitionByDecodeTime target) (current + 1))
          (saturatingAdd (2 ^ 64)
            (samples.decodeTime
              (max (samples.partitionByDecodeTime target) (current + 1)))
            targetTicks)
        refine ⟨List.pairwise_cons.mpr ⟨?_, hpairwise⟩, ?_⟩
        · intro cut hcut
          rcases List.mem_cons.mp hcut with rfl | hmem
          · omega
          · have := (List.pairwise_cons.mp hpairwise).1 cut hmem
            omega
        · intro cut hcut
          rcases List.mem_cons.mp hcut with rfl | hmem
          · omega
          · exact hlt cut hmem

theorem cutsAtSync_sublist (samples : SampleIndex) (targetTicks : ℕ)
    (indices : List ℕ) (target : ℕ) :
    (cutsAtSync samples targetTicks indices target).Sublist indices := by
  induction indices generalizing target with
  | nil => exact List.Sublist.slnil
  | cons next rest ih =>
      unfold cutsAtSync
      split
      · exact (ih _).cons_cons next
      · exact (ih _).cons next

/-- Cuts ascend from the first sample to the end of the track. -/
theorem referenceBoundaries_pairwise (reference : Track) (ticks : ℕ) :
    (referenceBoundaries reference ticks).Pairwise (· < ·) := by
  have hcuts : ∀ cuts : List ℕ, (0 :: cuts).Pairwise (· < ·) →
      (∀ cut ∈ cuts, cut < reference.samples.len) →
      (0 :: cuts ++ [reference.samples.len]).Pairwise (· < ·) := by
    intro cuts hpairwise hlt
    rw [List.pairwise_append]
    refine ⟨hpairwise, by simp, ?_⟩
    intro a ha b hb
    obtain rfl : b = reference.samples.len := by simpa using hb
    rcases List.mem_cons.mp ha with rfl | hmem
    · exact reference.samples_nonempty
    · exact hlt a hmem
  unfold referenceBoundaries
  dsimp only
  split
  · obtain ⟨hpairwise, hlt⟩ := @cutsAnywhere_pairwise reference.samples ticks
      reference.samples.len 0 (saturatingAdd (2 ^ 64)
        (reference.samples.decodeTime 0) ticks)
    exact hcuts _ hpairwise hlt
  · have hsublist := cutsAtSync_sublist reference.samples ticks
      (reference.samples.syncIndices.filter fun index => decide (0 < index))
      (saturatingAdd (2 ^ 64) (reference.samples.decodeTime 0) ticks)
    have hmem := fun cut hcut =>
      List.mem_filter.mp (hsublist.subset (a := cut) hcut)
    refine hcuts _ (List.pairwise_cons.mpr ⟨?_, ?_⟩) ?_
    · intro cut hcut
      simpa using (hmem cut hcut).2
    · exact ((SampleIndex.syncIndices_pairwise
        reference.samples_valid.readable).sublist List.filter_sublist).sublist hsublist
    · intro cut hcut
      exact ((SampleIndex.mem_syncIndices reference.samples_valid.readable).mp
        (hmem cut hcut).1).1

theorem referenceBoundaries_eq (reference : Track) (ticks : ℕ) :
    ∃ rest, referenceBoundaries reference ticks = 0 :: rest ∧
      (0 :: rest).getLast? = some reference.samples.len := by
  unfold referenceBoundaries
  dsimp only
  rw [List.cons_append]
  exact ⟨_, rfl, by rw [← List.cons_append, List.getLast?_concat]⟩

theorem mem_pairs_referenceBoundaries {reference : Track} {ticks : ℕ}
    {pair : ℕ × ℕ} (hpair : pair ∈ pairs (referenceBoundaries reference ticks)) :
    pair.1 < pair.2 ∧ pair.1 < reference.samples.len ∧
      pair.2 ≤ reference.samples.len := by
  have hpairwise := referenceBoundaries_pairwise reference ticks
  obtain ⟨rest, hrest, hlast⟩ := referenceBoundaries_eq reference ticks
  obtain ⟨hlt, -, hmem⟩ := mem_pairs_of_pairwise hpairwise hpair
  have hle : pair.2 ≤ reference.samples.len := by
    obtain ⟨front, hfront⟩ := List.getLast?_eq_some_iff.mp hlast
    rw [hrest, hfront] at hpairwise hmem
    rcases List.mem_append.mp hmem with hold | hend
    · exact ((List.pairwise_append.mp hpairwise).2.2 _ hold _ (by simp)).le
    · exact le_of_eq (by simpa using hend)
  exact ⟨hlt, by omega, hle⟩

/-! ## Followers -/

theorem rescale_eq_ok_iff {value fromTimescale toTimescale scaled : ℕ} :
    rescale value fromTimescale toTimescale = .ok scaled ↔
      value * toTimescale < 2 ^ 64 ∧ fromTimescale ≠ 0 ∧
        value * toTimescale / fromTimescale = scaled := by
  unfold rescale
  rw [okOr_eq_ok_iff, Option.bind_eq_some_iff]
  constructor
  · rintro ⟨product, hmul, hdiv⟩
    obtain ⟨hlt, rfl⟩ := checkedMul_eq_some_iff.mp hmul
    exact ⟨hlt, checkedDiv_eq_some_iff.mp hdiv⟩
  · rintro ⟨hlt, hdiv⟩
    exact ⟨_, checkedMul_eq_some_iff.mpr ⟨hlt, rfl⟩,
      checkedDiv_eq_some_iff.mpr hdiv⟩

/-- The instant of the reference's sample `cut` on a follower's clock. -/
def cutInstant (reference audio : Track) (cut : ℕ) : ℕ :=
  reference.samples.decodeTime cut * audio.timescale / reference.timescale

/-- Where a follower is cut when the reference is cut at `cut`. -/
def followerCut (reference audio : Track) (cut : ℕ) : ℕ :=
  if cut = reference.samples.len then audio.samples.len
  else audio.samples.partitionByDecodeTime (cutInstant reference audio cut)

theorem followerCut_le (reference audio : Track) (cut : ℕ) :
    followerCut reference audio cut ≤ audio.samples.len := by
  unfold followerCut
  split
  · exact Nat.le_refl _
  · exact SampleIndex.partitionByDecodeTime_le audio.samples_valid.readable _

theorem followerCut_mono {reference audio : Track} {first stop : ℕ}
    (hlt : first < stop) (hstop : stop ≤ reference.samples.len) :
    followerCut reference audio first ≤ followerCut reference audio stop := by
  by_cases hend : stop = reference.samples.len
  · rw [show followerCut reference audio stop = audio.samples.len by
      simp [followerCut, hend]]
    exact followerCut_le reference audio first
  · unfold followerCut
    rw [if_neg (by omega), if_neg hend]
    refine audio.samples_valid.partitionByDecodeTime_mono ?_
    exact Nat.div_le_div_right (Nat.mul_le_mul_right _
      (reference.samples_valid.decodeTime_mono hlt.le (by omega)))

theorem audioSegment_spec {reference audio : Track} {first stop : ℕ}
    {referenceEnd : ℕ} {part : TrackSegment}
    (hfirst : first < reference.samples.len)
    (hpart : audioSegment audio reference (reference.samples.decodeTime first)
      (referenceTime reference referenceEnd stop)
      (stop = reference.samples.len) = .ok part) :
    part.trackId = audio.id ∧
      part.firstSample = followerCut reference audio first ∧
      part.endSample = followerCut reference audio stop := by
  unfold audioSegment at hpart
  obtain ⟨start, hstart, hpart⟩ := bind_eq_ok_iff.mp hpart
  obtain ⟨finish, hfinish, hpart⟩ := bind_eq_ok_iff.mp hpart
  dsimp only at hpart
  obtain ⟨actualEnd, -, hpart⟩ := bind_eq_ok_iff.mp hpart
  obtain ⟨-, -, rfl⟩ := rescale_eq_ok_iff.mp hstart
  obtain ⟨-, -, rfl⟩ := rescale_eq_ok_iff.mp hfinish
  obtain rfl := Except.ok.inj hpart
  refine ⟨rfl, ?_, ?_⟩
  · dsimp only
    rw [followerCut, if_neg (by omega)]
    rfl
  · dsimp only
    unfold followerCut referenceTime
    by_cases hend : stop = reference.samples.len
    · simp [hend]
    · simp only [hend, decide_false, Bool.false_eq_true, if_false]
      rfl

private theorem find?_append_of_ne {tracks : List TrackSegment}
    {part : TrackSegment} {id : ℕ} (hid : part.trackId ≠ id) :
    (tracks ++ [part]).find? (fun candidate => candidate.trackId == id) =
      tracks.find? fun candidate => candidate.trackId == id := by
  have hnot : (part.trackId == id) = false := by simpa using hid
  rw [List.find?_append, List.find?_cons, hnot]
  simp

/-- What one follower adds to a segment: its part, unless the part starts
where the follower ends. -/
theorem addFollower_spec {reference audio : Track} {first stop : ℕ}
    {referenceEnd : ℕ} {tracks extended : List TrackSegment}
    (hfirst : first < reference.samples.len)
    (hrun : addFollower reference (reference.samples.decodeTime first)
      (referenceTime reference referenceEnd stop)
      (stop = reference.samples.len) tracks audio = .ok extended) :
    ∃ part : TrackSegment, part.trackId = audio.id ∧
      part.firstSample = followerCut reference audio first ∧
      part.endSample = followerCut reference audio stop ∧
      extended = if part.firstSample = audio.samples.len then tracks
        else tracks ++ [part] := by
  unfold addFollower at hrun
  obtain ⟨part, hpart, hadd⟩ := bind_eq_ok_iff.mp hrun
  obtain ⟨hid, hstart, hend⟩ := audioSegment_spec hfirst hpart
  refine ⟨part, hid, hstart, hend, ?_⟩
  split at hadd <;> rename_i hlen
  · rw [if_pos hlen, Except.ok.inj hadd]
  · rw [if_neg hlen, Except.ok.inj hadd]

theorem addFollower_keeps {reference audio : Track} {first stop : ℕ}
    {referenceEnd : ℕ} {tracks extended : List TrackSegment} {id : ℕ}
    (hfirst : first < reference.samples.len)
    (hrun : addFollower reference (reference.samples.decodeTime first)
      (referenceTime reference referenceEnd stop)
      (stop = reference.samples.len) tracks audio = .ok extended)
    (hid : audio.id ≠ id) :
    extended.find? (fun candidate => candidate.trackId == id) =
      tracks.find? fun candidate => candidate.trackId == id := by
  obtain ⟨part, hpart, -, -, rfl⟩ := addFollower_spec hfirst hrun
  split
  · rfl
  · exact find?_append_of_ne (by omega)

/-- The part a follower has in the segment between two cuts, if any. -/
def followerPart (reference audio : Track) (first stop : ℕ)
    (found : Option TrackSegment) : Prop :=
  if followerCut reference audio first = audio.samples.len then found = none
  else ∃ part : TrackSegment, found = some part ∧ part.trackId = audio.id ∧
    part.firstSample = followerCut reference audio first ∧
    part.endSample = followerCut reference audio stop

theorem addFollowers_spec {reference : Track} {first stop : ℕ}
    {referenceEnd : ℕ} {followers : List Track}
    {tracks extended : List TrackSegment}
    (hfirst : first < reference.samples.len)
    (hids : (followers.map Track.id).Nodup)
    (hrun : followers.foldlM
      (addFollower reference (reference.samples.decodeTime first)
        (referenceTime reference referenceEnd stop)
        (stop = reference.samples.len)) tracks = .ok extended) :
    (∀ id, id ∉ followers.map Track.id →
      extended.find? (fun candidate => candidate.trackId == id) =
        tracks.find? fun candidate => candidate.trackId == id) ∧
    ∀ audio ∈ followers,
      tracks.find? (fun candidate => candidate.trackId == audio.id) = none →
      followerPart reference audio first stop
        (extended.find? fun candidate => candidate.trackId == audio.id) := by
  induction followers generalizing tracks with
  | nil =>
      obtain rfl : tracks = extended := by
        simpa [pure, Except.pure] using hrun
      simp
  | cons head rest ih =>
      rw [List.foldlM_cons, bind_eq_ok_iff] at hrun
      obtain ⟨middle, hhead, hrest⟩ := hrun
      rw [List.map_cons, List.nodup_cons] at hids
      obtain ⟨hkeep, hparts⟩ := ih hids.2 hrest
      constructor
      · intro id hid
        rw [List.map_cons, List.mem_cons, not_or] at hid
        rw [hkeep id hid.2,
          addFollower_keeps hfirst hhead (Ne.symm hid.1)]
      · intro audio haudio hnone
        rcases List.mem_cons.mp haudio with rfl | hmem
        · rw [hkeep audio.id hids.1]
          obtain ⟨part, hid, hstart, hend, rfl⟩ :=
            addFollower_spec hfirst hhead
          unfold followerPart
          rw [← hstart]
          by_cases hlen : part.firstSample = audio.samples.len
          · rw [if_pos hlen, if_pos hlen, hnone]
          · rw [if_neg hlen, if_neg hlen]
            refine ⟨part, ?_, hid, rfl, hend⟩
            rw [List.find?_append, hnone]
            simp [hid]
        · have hne : head.id ≠ audio.id := by
            intro heq
            exact hids.1 (heq ▸ List.mem_map_of_mem hmem)
          refine hparts audio hmem ?_
          rw [addFollower_keeps hfirst hhead hne, hnone]

/-! ## The plan -/

/-- What a planned segment holds for the reference and for each follower. -/
structure SegmentOf (reference : Track) (followers : List Track)
    (window : (ℕ × ℕ) × ℕ) (segment : Segment) : Prop where
  index : segment.index = window.2
  lead : ∃ part, segment.tracks.head? = some part ∧
    part.trackId = reference.id
  own : ∃ part : TrackSegment,
    segment.tracks.find? (fun candidate => candidate.trackId == reference.id) =
      some part ∧
    part.firstSample = window.1.1 ∧ part.endSample = window.1.2
  follower : ∀ audio ∈ followers,
    followerPart reference audio window.1.1 window.1.2
      (segment.tracks.find? fun candidate => candidate.trackId == audio.id)

theorem head?_addFollower {reference : Track} {decodeTime endTime : ℕ}
    {isFinal : Bool} {tracks next : List TrackSegment} {audio : Track}
    {part : TrackSegment} (hhead : tracks.head? = some part)
    (h : addFollower reference decodeTime endTime isFinal tracks audio =
      .ok next) : next.head? = some part := by
  unfold addFollower at h
  obtain ⟨added, -, h⟩ := bind_eq_ok_iff.mp h
  split at h
  · obtain rfl := Except.ok.inj h
    exact hhead
  · obtain rfl := Except.ok.inj h
    rw [List.head?_append, hhead]
    rfl

theorem planSegment_spec {reference : Track} {followers : List Track}
    {referenceEnd : ℕ} {limits : LimitsConfig} {window : (ℕ × ℕ) × ℕ}
    {segment : Segment} (hfirst : window.1.1 < reference.samples.len)
    (hids : (followers.map Track.id).Nodup)
    (hreference : reference.id ∉ followers.map Track.id)
    (hrun : planSegment reference followers referenceEnd limits window =
      .ok segment) :
    SegmentOf reference followers window segment := by
  obtain ⟨⟨first, stop⟩, number⟩ := window
  unfold planSegment at hrun
  dsimp only at hrun hfirst
  obtain ⟨duration, -, hrun⟩ := bind_eq_ok_iff.mp hrun
  obtain ⟨tracks, htracks, hrun⟩ := bind_eq_ok_iff.mp hrun
  obtain ⟨hkeep, hparts⟩ := addFollowers_spec hfirst hids htracks
  split at hrun
  · simp at hrun
  split at hrun
  · simp at hrun
  obtain rfl := Except.ok.inj hrun
  refine ⟨rfl, ?_, ?_, fun audio haudio => hparts audio haudio ?_⟩
  · exact ⟨⟨reference.id, first, stop, reference.samples.decodeTime first,
      duration⟩, @foldlM_invariant _ _ _ _
      (fun _ tracks => tracks.head? = some _)
      (fun _ _ _ _ hhead hadd => head?_addFollower hhead hadd) _ _ _ rfl
      htracks, rfl⟩
  · rw [hkeep reference.id hreference]
    exact ⟨⟨reference.id, first, stop, reference.samples.decodeTime first,
      duration⟩, by simp, rfl, rfl⟩
  · have hne : reference.id ≠ audio.id := by
      intro heq
      exact hreference (heq ▸ List.mem_map_of_mem haudio)
    simp [hne]

theorem MediaIndex.reference_mem {index : MediaIndex} {reference : Track}
    (href : index.reference = some reference) : reference ∈ index.tracks := by
  unfold MediaIndex.reference at href
  cases hvideo : index.videoTracks.head? with
  | some video =>
      rw [hvideo] at href
      obtain rfl : video = reference := by simpa using href
      exact List.mem_of_mem_filter (List.mem_of_mem_head? hvideo)
  | none =>
      rw [hvideo] at href
      have haudio : index.audioTracks.head? = some reference := by
        simpa using href
      exact List.mem_of_mem_filter (List.mem_of_mem_head? haudio)

/-- With at most one video track, every track is the reference or follows
it. -/
theorem MediaIndex.eq_reference_or_mem_followers {index : MediaIndex}
    {reference track : Track} (hvideos : index.videoTracks.length ≤ 1)
    (href : index.reference = some reference)
    (htrack : track ∈ index.tracks) :
    track = reference ∨
      track.id ≠ reference.id ∧ track ∈ index.followers reference := by
  by_cases hid : track.id = reference.id
  · exact .inl (index.eq_of_id_eq htrack (reference_mem href) hid)
  right
  refine ⟨hid, List.mem_filter.mpr ⟨List.mem_filter.mpr ⟨htrack, ?_⟩, ?_⟩⟩
  · cases hkind : track.kind with
    | audio => rfl
    | video =>
        have hmem : track ∈ index.videoTracks :=
          List.mem_filter.mpr ⟨htrack, by simp [hkind]⟩
        obtain ⟨only, honly⟩ : ∃ only, index.videoTracks = [only] := by
          refine List.length_eq_one_iff.mp ?_
          have := List.length_pos_of_mem hmem
          omega
        unfold MediaIndex.reference at href
        rw [honly] at href hmem
        obtain rfl : only = reference := by simpa using href
        obtain rfl : track = only := by simpa using hmem
        exact absurd rfl hid
  · simpa using hid

theorem MediaIndex.followers_ids {index : MediaIndex} {reference : Track} :
    ((index.followers reference).map Track.id).Nodup ∧
      reference.id ∉ (index.followers reference).map Track.id := by
  constructor
  · exact index.ids_unique.sublist
      ((List.filter_sublist.trans List.filter_sublist).map Track.id)
  · intro hmem
    obtain ⟨track, htrack, heq⟩ := List.mem_map.mp hmem
    have := (List.mem_filter.mp htrack).2
    simp [heq] at this

/-- A plan cuts every track at the boundaries of the reference. -/
structure Planned (index : MediaIndex) (targetDurationMs : ℕ)
    (p : SegmentPlan) (reference : Track) (ticks : ℕ) : Prop where
  found : index.reference = some reference
  videos : index.videoTracks.length ≤ 1
  target : targetTicks reference targetDurationMs = .ok ticks
  segments : List.Forall₂
    (SegmentOf reference (index.followers reference))
    (pairs (referenceBoundaries reference ticks)).zipIdx p.segments

theorem plan_spec {index : MediaIndex} {targetDurationMs : ℕ}
    {limits : LimitsConfig} {p : SegmentPlan}
    (hplan : plan index targetDurationMs limits = .ok p) :
    ∃ reference ticks, Planned index targetDurationMs p reference ticks := by
  unfold plan at hplan
  split at hplan
  · simp at hplan
  rename_i hvideos
  obtain ⟨reference, href, hplan⟩ := bind_eq_ok_iff.mp hplan
  split at hplan
  · simp at hplan
  obtain ⟨ticks, hticks, hplan⟩ := bind_eq_ok_iff.mp hplan
  obtain ⟨referenceEnd, -, hplan⟩ := bind_eq_ok_iff.mp hplan
  obtain ⟨segments, hsegments, hplan⟩ := bind_eq_ok_iff.mp hplan
  obtain rfl := Except.ok.inj hplan
  have hmem : ∀ window ∈
      (pairs (referenceBoundaries reference ticks)).zipIdx,
      window.1.1 < reference.samples.len := by
    intro window hwindow
    exact (mem_pairs_referenceBoundaries
      (List.fst_mem_of_mem_zipIdx hwindow)).2.1
  obtain ⟨hids, hreference⟩ :=
    @MediaIndex.followers_ids index reference
  refine ⟨reference, ticks, okOr_eq_ok_iff.mp href, by omega, hticks, ?_⟩
  have hboth := (List.forall₂_and_left _ _).mpr
    ⟨hmem, mapM_forall₂ hsegments⟩
  exact hboth.imp fun window segment ⟨hfirst, hsegment⟩ =>
    planSegment_spec hfirst hids hreference hsegment

/-- The sample ranges of a track's segments, in playback order. -/
def SegmentPlan.spans (p : SegmentPlan) (trackId : ℕ) : List (ℕ × ℕ) :=
  (p.trackSegments trackId).map fun part => (part.firstSample, part.endSample)

theorem spans_reference {reference : Track} {followers : List Track}
    {windows : List ((ℕ × ℕ) × ℕ)} {segments : List Segment}
    (h : List.Forall₂ (SegmentOf reference followers) windows segments) :
    SegmentPlan.spans ⟨segments⟩ reference.id = windows.map Prod.fst := by
  unfold SegmentPlan.spans SegmentPlan.trackSegments
  induction h with
  | nil => rfl
  | cons hsegment _ ih =>
      obtain ⟨part, hfound, hfirst, hend⟩ := hsegment.own
      rw [List.filterMap_cons, hfound, List.map_cons, List.map_cons, ih,
        hfirst, hend]

theorem spans_follower {reference audio : Track} {followers : List Track}
    {windows : List ((ℕ × ℕ) × ℕ)} {segments : List Segment}
    (haudio : audio ∈ followers)
    (h : List.Forall₂ (SegmentOf reference followers) windows segments) :
    SegmentPlan.spans ⟨segments⟩ audio.id =
      ((windows.map Prod.fst).map fun window =>
        (followerCut reference audio window.1,
          followerCut reference audio window.2)).filter
        fun span => span.1 != audio.samples.len := by
  unfold SegmentPlan.spans SegmentPlan.trackSegments
  induction h with
  | nil => rfl
  | cons hsegment _ ih =>
      have hpart := hsegment.follower audio haudio
      unfold followerPart at hpart
      rw [List.map_cons, List.map_cons, List.filter_cons, ← ih,
        List.filterMap_cons]
      split at hpart
      · rename_i hended
        rw [hpart]
        simp [hended]
      · rename_i hlive
        obtain ⟨part, hfound, -, hfirst, hend⟩ := hpart
        rw [hfound]
        simp [hlive, hfirst, hend]

/-- The first sample of a track that any segment holds: none of the
reference's is left out, and none of a follower's that is decoded at or after
the instant the reference starts. -/
def firstServed (reference track : Track) : ℕ :=
  if track.id = reference.id then 0
  else track.samples.partitionByDecodeTime (cutInstant reference track 0)

theorem Planned.spans_tile {index : MediaIndex} {targetDurationMs : ℕ}
    {p : SegmentPlan} {reference track : Track} {ticks : ℕ}
    (h : Planned index targetDurationMs p reference ticks)
    (htrack : track ∈ index.tracks) :
    Tiles (firstServed reference track) (p.spans track.id)
      track.samples.len := by
  obtain ⟨rest, hbounds, hlast⟩ := referenceBoundaries_eq reference ticks
  have hmem := fun pair => @mem_pairs_referenceBoundaries reference ticks pair
  have hsegments := h.segments
  rw [hbounds] at hmem hsegments
  rcases index.eq_reference_or_mem_followers h.videos h.found htrack with
    rfl | ⟨hid, hfollower⟩
  · rw [spans_reference hsegments, List.zipIdx_map_fst]
    have htiles := tiles_map_pairs (f := id) hlast
      fun pair hpair => (hmem pair hpair).1.le
    simpa [firstServed] using htiles
  · rw [spans_follower hfollower hsegments, List.zipIdx_map_fst]
    have hstart : firstServed reference track =
        followerCut reference track 0 := by
      have := reference.samples_nonempty
      rw [firstServed, if_neg hid, followerCut, if_neg (by omega)]
    have hend : followerCut reference track reference.samples.len =
        track.samples.len := by simp [followerCut]
    have htiles := tiles_map_pairs (f := followerCut reference track) hlast
      fun pair hpair =>
        followerCut_mono (hmem pair hpair).1 (hmem pair hpair).2.2
    rw [← hstart, hend] at htiles
    refine htiles.filter ?_
    intro span hspan hended
    have hbound := htiles.mem_bounds hspan
    simp only [bne_eq_false_iff_eq] at hended
    omega

theorem lt_firstServed_iff {reference track : Track} {i : ℕ}
    (hi : i < track.samples.len) :
    i < firstServed reference track ↔
      track.id ≠ reference.id ∧
        track.samples.decodeTime i < cutInstant reference track 0 := by
  unfold firstServed
  split
  · rename_i hid
    simp [hid]
  · rename_i hid
    simp [hid, track.samples_valid.lt_partitionByDecodeTime_iff hi]

/-- A tiling of a track from its first sample is a tiling from the first one
served exactly where nothing is left out. -/
theorem tiles_zero_iff {reference track : Track} {spans : List (ℕ × ℕ)}
    (h : Tiles (firstServed reference track) spans track.samples.len) :
    Tiles 0 spans track.samples.len ↔ firstServed reference track = 0 := by
  constructor
  · intro hzero
    cases spans with
    | nil =>
        have := track.samples_nonempty
        rw [tiles_nil] at hzero
        omega
    | cons span spans =>
        have h₁ := (tiles_cons.mp h).1
        have h₂ := (tiles_cons.mp hzero).1
        omega
  · intro hzero
    rwa [hzero] at h

/-- The segments of every track, in order, tile its samples from the first
one at or after the instant the reference starts to the last; samples a
follower decodes before that instant are in no segment. -/
theorem plan_segments_tile {index : MediaIndex} {targetDurationMs : ℕ}
    {limits : LimitsConfig} {p : SegmentPlan}
    (hplan : plan index targetDurationMs limits = .ok p) :
    ∃ reference, index.reference = some reference ∧
      ∀ track ∈ index.tracks,
        Tiles (firstServed reference track) (p.spans track.id)
          track.samples.len ∧
        (∀ i, i < track.samples.len →
          (i < firstServed reference track ↔
            track.id ≠ reference.id ∧
              track.samples.decodeTime i < cutInstant reference track 0)) ∧
        (Tiles 0 (p.spans track.id) track.samples.len ↔
          track.id = reference.id ∨
            cutInstant reference track 0 ≤ track.samples.decodeTime 0) := by
  obtain ⟨reference, ticks, h⟩ := plan_spec hplan
  refine ⟨reference, h.found, fun track htrack => ?_⟩
  have htiles := h.spans_tile htrack
  refine ⟨htiles, fun i hi => lt_firstServed_iff hi, ?_⟩
  have hfirst := @lt_firstServed_iff reference _ _ track.samples_nonempty
  rw [tiles_zero_iff htiles]
  by_cases hid : track.id = reference.id
  · simp [hid, firstServed]
  · simp only [hid, ne_eq, not_false_eq_true, true_and, false_or] at hfirst ⊢
    omega

/-- Video delayed by half a second behind its audio, as an edit list does. -/
def leadingAudio : MediaIndex where
  tracks :=
    [.checked 1 .video 1000
       { tables := ⟨[9, 9], [⟨0, 0⟩], [⟨0, 0, 1000⟩], [], none⟩
         start := 0, stop := 2, shift := 500 } (by decide),
     .checked 2 (.audio 1) 1000
       (.new ⟨[5, 5, 5], [⟨0, 18⟩], [⟨0, 0, 400⟩], [], none⟩) (by decide)]
  ids_unique := by decide

def leadingAudioPlan : SegmentPlan where
  segments :=
    [⟨0, [⟨1, 0, 1, 500, 1000⟩, ⟨2, 2, 3, 800, 400⟩]⟩,
     ⟨1, [⟨1, 1, 2, 1500, 1000⟩]⟩]

/-- The first two audio samples are in no segment. -/
theorem plan_leaves_out_leading_audio :
    plan leadingAudio 1000 {} = .ok leadingAudioPlan ∧
      ¬ ∀ track ∈ leadingAudio.tracks,
        Tiles 0 (leadingAudioPlan.spans track.id) track.samples.len := by
  refine ⟨by decide +kernel, fun hall => ?_⟩
  exact absurd (hall _ (.tail _ (.head _))) (by decide)

theorem plan_segments_tile_leadingAudio :
    plan leadingAudio 1000 {} = .ok leadingAudioPlan ∧
      ∃ reference, leadingAudio.reference = some reference ∧
        ∀ track ∈ leadingAudio.tracks,
          Tiles (firstServed reference track)
            (leadingAudioPlan.spans track.id) track.samples.len := by
  have hplan : plan leadingAudio 1000 {} = .ok leadingAudioPlan := by
    decide +kernel
  obtain ⟨reference, hreference, htracks⟩ := plan_segments_tile hplan
  exact ⟨hplan, reference, hreference, fun track htrack =>
    (htracks track htrack).1⟩

end Segmentor
