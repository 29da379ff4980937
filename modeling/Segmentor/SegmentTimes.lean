import Segmentor.SegmentPlannerTiling

/-!
# When segments start and end

Between two of its samples a track is cut when the later one decodes, and
after its last sample when the track ends.  A planned part lasts from the time
of its first cut to the time of its last one, so the durations of a track's
parts add up to the times they start at, whatever gaps the track has.
-/

namespace Segmentor

open General

/-! ## Times of cuts -/

/-- When the last sample of the track has been played. -/
def Track.endTime (track : Track) : ℕ :=
  track.samples.decodeTime (track.samples.len - 1) +
    (track.samples.get (track.samples.len - 1)).duration

/-- When the samples from `cut` on start. -/
def Track.cutTime (track : Track) (cut : ℕ) : ℕ :=
  if cut < track.samples.len then track.samples.decodeTime cut
  else track.endTime

theorem trackEnd_eq (track : Track) : trackEnd track = .ok track.endTime := by
  have hpos := track.samples_nonempty
  have hlast : track.samples.last =
      some (track.samples.get (track.samples.len - 1)) := by
    unfold SampleIndex.last
    rw [checkedSub_eq_some_iff.mpr ⟨hpos, rfl⟩, Option.map_some]
  have hfits := track.samples_valid.sample_end_lt (Nat.sub_lt hpos one_pos)
  unfold trackEnd
  rw [hlast]
  exact okOr_eq_ok_iff.mpr (checkedAdd_eq_some_iff.mpr ⟨hfits, rfl⟩)

theorem Track.cutTime_of_lt {track : Track} {cut : ℕ}
    (hcut : cut < track.samples.len) :
    track.cutTime cut = track.samples.decodeTime cut :=
  if_pos hcut

theorem Track.cutTime_len (track : Track) :
    track.cutTime track.samples.len = track.endTime :=
  if_neg (Nat.lt_irrefl _)

theorem Track.cutTime_mono {track : Track} {first stop : ℕ}
    (hfirst : first ≤ stop) (hstop : stop ≤ track.samples.len) :
    track.cutTime first ≤ track.cutTime stop := by
  have hvalid := track.samples_valid
  by_cases hlast : stop < track.samples.len
  · rw [cutTime_of_lt (by omega), cutTime_of_lt hlast]
    exact hvalid.decodeTime_mono hfirst hlast
  · obtain rfl : stop = track.samples.len := by omega
    rcases hfirst.lt_or_eq with hlt | rfl
    · rw [cutTime_of_lt hlt, track.cutTime_len]
      unfold Track.endTime
      have := hvalid.decodeTime_mono (show first ≤ track.samples.len - 1 by
        omega) (by omega)
      omega
    · exact Nat.le_refl _

theorem Track.cutTime_lt {track : Track} (cut : ℕ) :
    track.cutTime cut < 2 ^ 64 := by
  unfold cutTime
  split
  · rename_i hcut
    exact track.decodeTime_lt hcut
  · exact track.samples_valid.sample_end_lt
      (Nat.sub_lt track.samples_nonempty one_pos)

/-! ## Planned parts -/

/-- A part that lasts from the time of its first cut to that of its last. -/
structure Timed (track : Track) (part : TrackSegment) : Prop where
  trackId : part.trackId = track.id
  first_lt : part.firstSample < track.samples.len
  first_le : part.firstSample ≤ part.endSample
  end_le : part.endSample ≤ track.samples.len
  start : part.decodeTime = track.cutTime part.firstSample
  stop : part.decodeTime + part.duration = track.cutTime part.endSample

theorem referenceTime_eq {reference : Track} {cut : ℕ}
    (hcut : cut ≤ reference.samples.len) :
    referenceTime reference reference.endTime cut = reference.cutTime cut := by
  unfold referenceTime Track.cutTime
  by_cases hend : cut = reference.samples.len
  · rw [if_pos hend, if_neg (by omega)]
  · rw [if_neg hend, if_pos (by omega)]

theorem timed_reference {reference : Track} {first stop duration : ℕ}
    (hfirst : first < stop) (hstop : stop ≤ reference.samples.len)
    (hduration : checkedSub (reference.cutTime stop)
      (reference.samples.decodeTime first) = some duration) :
    Timed reference ⟨reference.id, first, stop,
      reference.samples.decodeTime first, duration⟩ := by
  obtain ⟨hle, rfl⟩ := checkedSub_eq_some_iff.mp hduration
  have hlt : first < reference.samples.len := by omega
  refine ⟨rfl, hlt, hfirst.le, hstop, (Track.cutTime_of_lt hlt).symm, ?_⟩
  dsimp only
  omega

theorem audioSegment_times {audio video : Track} {start stop : ℕ}
    {isFinalSegment : Bool} {part : TrackSegment}
    (hpart : audioSegment audio video start stop isFinalSegment = .ok part)
    (hfirst : part.firstSample < audio.samples.len)
    (hend : part.endSample ≤ audio.samples.len) :
    part.decodeTime = audio.cutTime part.firstSample ∧
      part.duration = audio.cutTime part.endSample - part.decodeTime := by
  unfold audioSegment at hpart
  obtain ⟨first, -, hpart⟩ := bind_eq_ok_iff.mp hpart
  obtain ⟨finish, -, hpart⟩ := bind_eq_ok_iff.mp hpart
  dsimp only at hpart
  generalize (if isFinalSegment = true then audio.samples.len
    else audio.samples.partitionByDecodeTime finish) = last at hpart
  obtain ⟨actualEnd, hactual, hpart⟩ := bind_eq_ok_iff.mp hpart
  obtain rfl := Except.ok.inj hpart
  dsimp only at hfirst hend ⊢
  rw [if_pos hfirst, Track.cutTime_of_lt hfirst]
  refine ⟨rfl, ?_⟩
  split at hactual
  · rename_i hlen
    rw [hlen, Track.cutTime_len]
    rw [trackEnd_eq] at hactual
    rw [Except.ok.inj hactual]
  · rw [Track.cutTime_of_lt (by omega), Except.ok.inj hactual]

theorem timed_follower {reference audio : Track} {first stop : ℕ}
    {part : TrackSegment} (hfirst : first < stop)
    (hstop : stop ≤ reference.samples.len)
    (hpart : audioSegment audio reference (reference.samples.decodeTime first)
      (referenceTime reference reference.endTime stop)
      (stop = reference.samples.len) = .ok part)
    (hlisted : part.firstSample ≠ audio.samples.len) : Timed audio part := by
  have hmono := @followerCut_mono reference audio _ _ hfirst hstop
  have hle := followerCut_le reference audio first
  have hend := followerCut_le reference audio stop
  obtain ⟨htrack, hcut, hcut'⟩ := audioSegment_spec (by omega) hpart
  rw [← hcut, ← hcut'] at hmono
  rw [← hcut] at hle
  rw [← hcut'] at hend
  obtain ⟨hstart, hduration⟩ :=
    audioSegment_times hpart (by omega) hend
  refine ⟨htrack, by omega, hmono, hend, hstart, ?_⟩
  have hcuts := @Track.cutTime_mono audio _ _ hmono hend
  omega

theorem timed_addFollower {reference audio : Track} {first stop : ℕ}
    {tracks extended : List TrackSegment} (hfirst : first < stop)
    (hstop : stop ≤ reference.samples.len)
    (hrun : addFollower reference (reference.samples.decodeTime first)
      (referenceTime reference reference.endTime stop)
      (stop = reference.samples.len) tracks audio = .ok extended) :
    ∀ part ∈ extended, part ∈ tracks ∨ Timed audio part := by
  unfold addFollower at hrun
  obtain ⟨added, hadded, hrun⟩ := bind_eq_ok_iff.mp hrun
  intro part hpart
  split at hrun
  · obtain rfl := Except.ok.inj hrun
    exact .inl hpart
  · rename_i hlisted
    obtain rfl := Except.ok.inj hrun
    rcases List.mem_append.mp hpart with hmem | hmem
    · exact .inl hmem
    · rw [List.mem_singleton] at hmem
      exact .inr (hmem ▸ timed_follower hfirst hstop hadded hlisted)

theorem timed_planSegment {reference : Track} {followers : List Track}
    {limits : LimitsConfig} {window : (ℕ × ℕ) × ℕ} {segment : Segment}
    (hfirst : window.1.1 < window.1.2)
    (hstop : window.1.2 ≤ reference.samples.len)
    (hrun : planSegment reference followers reference.endTime limits window =
      .ok segment) :
    window.2 < 2 ^ 32 ∧ ∀ part ∈ segment.tracks,
      ∃ track ∈ reference :: followers, Timed track part := by
  obtain ⟨⟨first, stop⟩, number⟩ := window
  unfold planSegment at hrun
  dsimp only at hrun hfirst hstop
  obtain ⟨duration, hduration, hrun⟩ := bind_eq_ok_iff.mp hrun
  obtain ⟨tracks, htracks, hrun⟩ := bind_eq_ok_iff.mp hrun
  rw [okOr_eq_ok_iff, referenceTime_eq hstop] at hduration
  have hall := foldlM_invariant
    (I := fun rest tracks => (∀ audio ∈ rest, audio ∈ followers) ∧
      ∀ part ∈ tracks, ∃ track ∈ reference :: followers, Timed track part)
    (fun audio rest tracks extended hI hadd => by
      obtain ⟨hrest, hparts⟩ := hI
      refine ⟨fun other hother => hrest other (List.mem_cons_of_mem _ hother),
        fun part hpart => ?_⟩
      rcases timed_addFollower hfirst hstop hadd part hpart with hold | hnew
      · exact hparts part hold
      · exact ⟨audio, List.mem_cons_of_mem _ (hrest audio (by simp)), hnew⟩)
    ⟨fun audio haudio => haudio, fun part hpart => by
      rw [List.mem_singleton] at hpart
      exact ⟨reference, by simp,
        hpart ▸ timed_reference hfirst hstop hduration⟩⟩ htracks
  split at hrun
  · simp at hrun
  split at hrun
  · simp at hrun
  obtain rfl := Except.ok.inj hrun
  exact ⟨by dsimp only; omega, hall.2⟩

/-- Every part of a plan is one of a track of the file, and is timed by its
cuts. -/
theorem plan_timed {index : MediaIndex} {targetDurationMs : ℕ}
    {limits : LimitsConfig} {p : SegmentPlan}
    (hplan : plan index targetDurationMs limits = .ok p) :
    p.segments.length ≤ 2 ^ 32 ∧ ∀ segment ∈ p.segments,
      ∀ part ∈ segment.tracks, ∃ track ∈ index.tracks, Timed track part := by
  unfold plan at hplan
  split at hplan
  · simp at hplan
  obtain ⟨reference, href, hplan⟩ := bind_eq_ok_iff.mp hplan
  split at hplan
  · simp at hplan
  obtain ⟨ticks, -, hplan⟩ := bind_eq_ok_iff.mp hplan
  obtain ⟨referenceEnd, hend, hplan⟩ := bind_eq_ok_iff.mp hplan
  obtain ⟨segments, hsegments, hplan⟩ := bind_eq_ok_iff.mp hplan
  obtain rfl := Except.ok.inj hplan
  obtain rfl := Except.ok.inj ((trackEnd_eq reference).symm.trans hend)
  have hmem : ∀ track ∈ reference :: index.followers reference,
      track ∈ index.tracks := by
    intro track htrack
    rcases List.mem_cons.mp htrack with rfl | hfollower
    · exact MediaIndex.reference_mem (okOr_eq_ok_iff.mp href)
    · exact List.mem_of_mem_filter (List.mem_of_mem_filter hfollower)
  have hwindows := fun pair =>
    @mem_pairs_referenceBoundaries reference ticks pair
  have htimed : ∀ window ∈
      (pairs (referenceBoundaries reference ticks)).zipIdx, ∀ segment,
      planSegment reference (index.followers reference) reference.endTime
        limits window = .ok segment → _ := fun window hwindow segment =>
    timed_planSegment
      (hwindows window.1 (List.fst_mem_of_mem_zipIdx hwindow)).1
      (hwindows window.1 (List.fst_mem_of_mem_zipIdx hwindow)).2.2
  constructor
  · obtain ⟨hlength, hget⟩ :=
      List.forall₂_iff_get.mp (mapM_forall₂ hsegments)
    by_contra hlong
    have hlast : 2 ^ 32 < segments.length := by
      dsimp only at hlong
      omega
    have hwindow := List.get_mem _ ⟨2 ^ 32, hlength.symm ▸ hlast⟩
    have hindex := (htimed _ hwindow _ (hget _ _ hlast)).1
    rw [List.get_eq_getElem, List.getElem_zipIdx] at hindex
    simp at hindex
  · intro segment hsegment part hpart
    obtain ⟨window, hwindow, hrun⟩ := exists_of_mem_mapM hsegments hsegment
    obtain ⟨track, htrack, htimedPart⟩ :=
      (htimed window hwindow segment hrun).2 part hpart
    exact ⟨track, hmem track htrack, htimedPart⟩

theorem trackSegments_timed {index : MediaIndex}
    {targetDurationMs : ℕ} {limits : LimitsConfig} {p : SegmentPlan}
    (hplan : plan index targetDurationMs limits = .ok p) {track : Track}
    (htrack : track ∈ index.tracks) :
    ∀ part ∈ p.trackSegments track.id, Timed track part := by
  intro part hpart
  obtain ⟨segment, hsegment, hfound⟩ := List.mem_filterMap.mp hpart
  have hid := List.find?_some hfound
  obtain ⟨other, hother, htimed⟩ := (plan_timed hplan).2 segment hsegment part
    (List.mem_of_find?_eq_some hfound)
  have heq : other.id = track.id := by
    rw [← htimed.trackId]
    simpa using hid
  exact index.eq_of_id_eq hother htrack heq ▸ htimed

end Segmentor
