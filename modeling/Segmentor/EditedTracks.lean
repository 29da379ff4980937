import Segmentor.EditLists
import Segmentor.SampleSlices
import Segmentor.MediaIndex
import Segmentor.General.Rounding

/-!
# Tracks cut to their edits and put on one timeline

A parsed track is cut to its edit list and moved onto the shared timeline.
The tracks of a fragmented file are then moved back together, so that the
earliest starts at zero.
-/

namespace Segmentor

open General

/-! ## Parsed tracks -/

/-- A track as the parser holds it until its timeline is settled. -/
structure ParsedTrack where
  id : ℕ
  kind : TrackKind
  timescale : ℕ
  samples : SampleIndex
  timelineShift : ℕ
  duration : ℕ
  timescale_pos : 0 < timescale
  samples_readable : samples.Readable

namespace ParsedTrack

theorem holds (track : ParsedTrack) :
    track.samples.Holds track.samples.all :=
  ⟨track.samples_readable, rfl⟩

/-- The samples from `first` up to `stop` only. -/
def window (track : ParsedTrack) (first stop : ℕ) (hfirst : first ≤ stop)
    (hstop : stop ≤ track.samples.len) : ParsedTrack :=
  { track with
    samples := track.samples.window first stop
    samples_readable := track.samples_readable.window hfirst hstop }

/-- The same samples with every decode time moved. -/
def shifted (track : ParsedTrack) (delta : ℤ) (message : String) :
    Result ParsedTrack :=
  match hmoved : track.samples.shifted delta message with
  | .error error => .error error
  | .ok samples =>
      .ok
        { track with
          samples := samples
          samples_readable := (track.holds.of_shifted hmoved).2.readable }

theorem shifted_spec {track moved : ParsedTrack} {delta : ℤ}
    {message : String} (h : track.shifted delta message = .ok moved) :
    FitsMoved delta track.samples.all ∧
      moved.samples.Holds (track.samples.all.map (Sample.moved delta)) ∧
      ∃ samples hreadable, moved = { track with
        samples := samples, samples_readable := hreadable } := by
  unfold shifted at h
  split at h
  · cases h
  · next samples hmoved =>
      obtain rfl := Except.ok.inj h
      obtain ⟨hfits, hholds⟩ := track.holds.of_shifted hmoved
      exact ⟨hfits, hholds, samples, hholds.readable, rfl⟩

end ParsedTrack

namespace EditLists

/-! ## Applying an edit -/

def sampleEnd (sample : Sample) : ℕ :=
  saturatingAdd (2 ^ 64) sample.decodeTime sample.duration

def samplePresentsAt (sample : Sample) : ℤ :=
  (sample.decodeTime : ℤ) + sample.compositionOffset

/-- The first sample that presents at or after `stop`. -/
def firstCut (samples : SampleIndex) (stop : ℕ) : Option ℕ :=
  samples.iter.collect.findIdx? fun sample =>
    decide ((stop : ℤ) ≤ samplePresentsAt sample)

theorem firstCut_lt {samples : SampleIndex} {stop cut : ℕ}
    (hreadable : samples.Readable) (hcut : firstCut samples stop = some cut) :
    cut < samples.len := by
  obtain ⟨hlt, -⟩ := List.findIdx?_eq_some_iff_getElem.mp hcut
  rwa [hreadable.iter_collect, SampleIndex.length_all] at hlt

/-- Drops the samples that present at or after `stop`.  They must form a
suffix in decode order. -/
def trimTail (track : ParsedTrack) (stop : ℕ) : Result ParsedTrack :=
  match hcut : firstCut track.samples stop with
  | none => .ok track
  | some cut =>
      if (track.samples.toVec cut track.samples.len).any fun sample =>
          decide (samplePresentsAt sample < stop) then
        .error (unsupported track.id
          "edit list ends inside a run of reordered samples")
      else if cut = 0 then
        .error (.invalidMedia
          s!"track {track.id}: edit list ends before the first sample")
      else
        .ok (track.window 0 cut (Nat.zero_le cut)
          (firstCut_lt track.samples_readable hcut).le)

/-- How many leading samples end before the media starts: encoder padding. -/
def paddingSamples (samples : SampleIndex) (mediaTime : ℕ) : ℕ :=
  partitionPoint (fun sample => decide (sampleEnd sample ≤ mediaTime))
    samples.iter.collect

theorem paddingSamples_le {samples : SampleIndex}
    (hreadable : samples.Readable) (mediaTime : ℕ) :
    paddingSamples samples mediaTime ≤ samples.len := by
  unfold paddingSamples
  rw [hreadable.iter_collect, ← SampleIndex.length_all]
  exact partitionPoint_le_length _ _

/-- Drops an audio track's padding. -/
def trimHead (track : ParsedTrack) (mediaTime : ℕ) : ParsedTrack :=
  match track.kind with
  | .video => track
  | .audio =>
      track.window (paddingSamples track.samples mediaTime) track.samples.len
        (paddingSamples_le track.samples_readable mediaTime) (Nat.le_refl _)

/-- Cuts `track` to its edit and moves it onto the shared timeline.  A track
with no edit and no shift keeps its exact times and duration. -/
def apply (track : ParsedTrack) (edit : TrackEdit) (shift : ℕ) :
    Result ParsedTrack :=
  if edit = .none ∧ shift = 0 then .ok track
  else do
    let track ← edit.mediaEnd.elim (.ok track) (trimTail track)
    let track := trimHead track edit.mediaTime
    let last ← okOr track.samples.last (.invalidMedia
      s!"track {track.id}: edit list removes every sample")
    let track ← track.shifted shift "decode timestamp overflow"
    let duration ← okOr (checkedAdd (2 ^ 64) (sampleEnd last) shift)
      (.invalidMedia "track duration overflow")
    .ok { track with timelineShift := shift, duration := duration }

/-! ## What a cut keeps -/

/-- `moved` is `track` with only the samples from `first` up to `stop`. -/
structure Cut (track : ParsedTrack) (first stop : ℕ) (moved : ParsedTrack) :
    Prop where
  id : moved.id = track.id
  kind : moved.kind = track.kind
  timescale : moved.timescale = track.timescale
  first_le : first ≤ stop
  stop_le : stop ≤ track.samples.len
  all_eq : moved.samples.all = (track.samples.all.take stop).drop first

theorem Cut.refl (track : ParsedTrack) :
    Cut track 0 track.samples.len track where
  id := rfl
  kind := rfl
  timescale := rfl
  first_le := Nat.zero_le _
  stop_le := Nat.le_refl _
  all_eq := by rw [List.drop_zero, List.take_of_length_le (by simp)]

theorem Cut.window (track : ParsedTrack) {first stop : ℕ}
    (hfirst : first ≤ stop) (hstop : stop ≤ track.samples.len) :
    Cut track first stop (track.window first stop hfirst hstop) where
  id := rfl
  kind := rfl
  timescale := rfl
  first_le := hfirst
  stop_le := hstop
  all_eq := SampleIndex.all_window hstop

theorem Cut.len_eq {track moved : ParsedTrack} {first stop : ℕ}
    (h : Cut track first stop moved) : moved.samples.len = stop - first := by
  have hlen := congrArg List.length h.all_eq
  have hstop := h.stop_le
  simp only [SampleIndex.length_all, List.length_drop, List.length_take]
    at hlen
  omega

theorem Cut.get_eq {track moved : ParsedTrack} {first stop i : ℕ}
    (h : Cut track first stop moved) (hi : i < moved.samples.len) :
    moved.samples.get i = track.samples.get (first + i) := by
  have hlen := h.len_eq
  have hstop := h.stop_le
  have hkept := SampleIndex.getElem?_all hi
  rw [h.all_eq, List.getElem?_drop, List.getElem?_take,
    if_pos (by omega), SampleIndex.getElem?_all (by omega)] at hkept
  exact (Option.some.inj hkept).symm

/-- A tail cut, then a head cut. -/
theorem Cut.trans {track middle moved : ParsedTrack} {first stop : ℕ}
    (h : Cut track 0 stop middle)
    (hnext : Cut middle first middle.samples.len moved) :
    Cut track first stop moved where
  id := hnext.id.trans h.id
  kind := hnext.kind.trans h.kind
  timescale := hnext.timescale.trans h.timescale
  first_le := by
    have := hnext.first_le
    have := h.len_eq
    omega
  stop_le := h.stop_le
  all_eq := by
    rw [hnext.all_eq, List.take_of_length_le (by simp), h.all_eq,
      List.drop_zero]

theorem firstCut_eq_none_iff {samples : SampleIndex} {stop : ℕ}
    (hreadable : samples.Readable) :
    firstCut samples stop = none ↔
      ∀ i < samples.len, samplePresentsAt (samples.get i) < stop := by
  unfold firstCut
  rw [hreadable.iter_collect, List.findIdx?_eq_none_iff]
  simp [SampleIndex.all]

theorem firstCut_eq_some {samples : SampleIndex} {stop cut : ℕ}
    (hreadable : samples.Readable) (hcut : firstCut samples stop = some cut) :
    (stop : ℤ) ≤ samplePresentsAt (samples.get cut) ∧
      ∀ i < cut, samplePresentsAt (samples.get i) < stop := by
  obtain ⟨hlt, hat, hbefore⟩ := List.findIdx?_eq_some_iff_getElem.mp hcut
  simp only [hreadable.iter_collect, SampleIndex.all, List.getElem_map,
    List.getElem_range, decide_eq_true_eq, not_le] at hat hbefore
  exact ⟨hat, hbefore⟩

theorem any_toVec_iff {samples : SampleIndex} (hreadable : samples.Readable)
    {cut : ℕ} (hcut : cut ≤ samples.len) (p : Sample → Bool) :
    (samples.toVec cut samples.len).any p = true ↔
      ∃ i, cut ≤ i ∧ i < samples.len ∧ p (samples.get i) = true := by
  rw [hreadable.toVec_eq hcut (Nat.le_refl _),
    List.take_of_length_le (by simp), List.any_eq_true]
  constructor
  · rintro ⟨sample, hmem, hp⟩
    obtain ⟨i, hi⟩ := List.mem_iff_getElem?.mp hmem
    rw [List.getElem?_drop] at hi
    have hlt := (List.getElem?_eq_some_iff.mp hi).1
    rw [SampleIndex.length_all] at hlt
    rw [SampleIndex.getElem?_all hlt] at hi
    obtain rfl := Option.some.inj hi
    exact ⟨cut + i, by omega, hlt, hp⟩
  · rintro ⟨i, hle, hlt, hp⟩
    refine ⟨_, List.mem_iff_getElem?.mpr ⟨i - cut, ?_⟩, hp⟩
    rw [List.getElem?_drop, Nat.add_sub_cancel' hle,
      SampleIndex.getElem?_all hlt]

/-- A tail cut drops exactly the samples that present at or after `stop`. -/
theorem trimTail_spec {track moved : ParsedTrack} {stop : ℕ}
    (h : trimTail track stop = .ok moved) :
    ∃ cut, Cut track 0 cut moved ∧ ∀ i < track.samples.len,
      i < cut ↔ samplePresentsAt (track.samples.get i) < stop := by
  have hreadable := track.samples_readable
  unfold trimTail at h
  split at h
  · next hnone =>
      obtain rfl := Except.ok.inj h
      refine ⟨_, .refl _, fun i hi => ?_⟩
      exact iff_of_true hi ((firstCut_eq_none_iff hreadable).mp hnone i hi)
  · next cut hcut =>
      have hlt := firstCut_lt hreadable hcut
      obtain ⟨-, hbefore⟩ := firstCut_eq_some hreadable hcut
      split_ifs at h with hafter hzero
      obtain rfl := Except.ok.inj h
      rw [any_toVec_iff hreadable hlt.le] at hafter
      refine ⟨cut, .window _ _ _, fun i hi => ⟨hbefore i, fun hpresents => ?_⟩⟩
      by_contra hge
      exact hafter ⟨i, by omega, hi, decide_eq_true hpresents⟩

/-- Where the samples before `stop` and those after it interleave, nothing is
cut. -/
theorem trimTail_interleaved {track : ParsedTrack} {stop i j : ℕ}
    (hij : i < j) (hj : j < track.samples.len)
    (hi : (stop : ℤ) ≤ samplePresentsAt (track.samples.get i))
    (hlate : samplePresentsAt (track.samples.get j) < stop) :
    trimTail track stop = .error (unsupported track.id
      "edit list ends inside a run of reordered samples") := by
  have hreadable := track.samples_readable
  unfold trimTail
  split
  · next hnone =>
      have := (firstCut_eq_none_iff hreadable).mp hnone i (by omega)
      omega
  · next cut hcut =>
      have hle : cut ≤ i := by
        by_contra hlt
        have := (firstCut_eq_some hreadable hcut).2 i (by omega)
        omega
      rw [if_pos]
      rw [any_toVec_iff hreadable (by omega)]
      exact ⟨j, by omega, hj, decide_eq_true hlate⟩

/-- A head cut drops the leading samples of an audio track that end before
the media starts. -/
theorem trimHead_spec (track : ParsedTrack) (mediaTime : ℕ) :
    ∃ first, Cut track first track.samples.len (trimHead track mediaTime) ∧
      ∀ i < track.samples.len, i < first ↔ track.kind = .audio ∧
        ∀ j ≤ i, sampleEnd (track.samples.get j) ≤ mediaTime := by
  unfold trimHead
  split
  · next hkind =>
      refine ⟨0, .refl _, fun i hi => iff_of_false (Nat.not_lt_zero i) ?_⟩
      rintro ⟨haudio, -⟩
      simp [hkind] at haudio
  · next hkind =>
      refine ⟨_, .window _ _ _, fun i hi => ?_⟩
      unfold paddingSamples
      rw [track.samples_readable.iter_collect,
        lt_partitionPoint_iff_forall (by simpa using hi)]
      simp only [hkind, true_and]
      refine forall₂_congr fun j hj => ?_
      rw [SampleIndex.getElem?_all (by omega)]
      simp

/-! ## What an edit leaves -/

/-- The leading samples up to `i` all end at or before `time`. -/
def EndBy (track : ParsedTrack) (time i : ℕ) : Prop :=
  ∀ j ≤ i, track.samples.decodeTime j + (track.samples.get j).duration ≤ time

/-- `moved` is a contiguous window of the samples of `track`, moved later by
`shift`: what presents before the edit's end, less an audio track's padding. -/
structure Applied (track : ParsedTrack) (edit : TrackEdit)
    (shift first stop : ℕ) (moved : ParsedTrack) : Prop where
  id : moved.id = track.id
  kind : moved.kind = track.kind
  timescale : moved.timescale = track.timescale
  timelineShift : moved.timelineShift = shift
  first_lt : first < stop
  stop_le : stop ≤ track.samples.len
  len_eq : moved.samples.len = stop - first
  get_eq : ∀ i < moved.samples.len, moved.samples.get i =
    { track.samples.get (first + i) with
      decodeTime := track.samples.decodeTime (first + i) + shift }
  tail : ∀ i < track.samples.len, i < stop ↔
    ∀ time ∈ edit.mediaEnd, samplePresentsAt (track.samples.get i) < time
  head : ∀ i < track.samples.len,
    i < first ↔ track.kind = .audio ∧ EndBy track edit.mediaTime i

/-- The tail cut of an edit, which may have no end. -/
theorem tail_spec {track moved : ParsedTrack} {edit : TrackEdit}
    (h : edit.mediaEnd.elim (.ok track) (trimTail track) = .ok moved) :
    ∃ stop, Cut track 0 stop moved ∧ ∀ i < track.samples.len, i < stop ↔
      ∀ time ∈ edit.mediaEnd,
        samplePresentsAt (track.samples.get i) < time := by
  cases hend : edit.mediaEnd with
  | none =>
      rw [hend] at h
      obtain rfl := Except.ok.inj h
      exact ⟨_, .refl _, fun i hi => iff_of_true hi (by simp)⟩
  | some stop =>
      rw [hend] at h
      obtain ⟨cut, hcut, hiff⟩ := trimTail_spec h
      exact ⟨cut, hcut, fun i hi => by simpa using hiff i hi⟩

theorem sampleEnd_le_iff {sample kept : Sample} {mediaTime : ℕ}
    (hkept : ¬sampleEnd kept ≤ mediaTime) :
    sampleEnd sample ≤ mediaTime ↔
      sample.decodeTime + sample.duration ≤ mediaTime := by
  unfold sampleEnd saturatingAdd at *
  omega

/-- A head cut after a tail cut drops what it would drop of the whole
track. -/
theorem head_of_cut {track cut : ParsedTrack} {first stop mediaTime : ℕ}
    (hcut : Cut track 0 stop cut)
    (hfirst : ∀ i < cut.samples.len, i < first ↔ cut.kind = .audio ∧
      ∀ j ≤ i, sampleEnd (cut.samples.get j) ≤ mediaTime)
    (hlt : first < stop) :
    ∀ i < track.samples.len,
      i < first ↔ track.kind = .audio ∧ EndBy track mediaTime i := by
  have hlen := hcut.len_eq
  have hget : ∀ j < stop, cut.samples.get j = track.samples.get j := by
    intro j hj
    rw [hcut.get_eq (by omega), Nat.zero_add]
  have hkept : track.kind = .audio → ∃ j ≤ first,
      ¬sampleEnd (track.samples.get j) ≤ mediaTime := by
    intro haudio
    by_contra hnone
    push Not at hnone
    apply Nat.lt_irrefl first
    refine (hfirst first (by omega)).mpr ⟨hcut.kind.trans haudio, ?_⟩
    intro j hj
    rw [hget j (by omega)]
    exact hnone j hj
  intro i hi
  constructor
  · intro hbefore
    obtain ⟨haudio, hall⟩ := (hfirst i (by omega)).mp hbefore
    rw [hcut.kind] at haudio
    obtain ⟨k, hk, hfails⟩ := hkept haudio
    refine ⟨haudio, fun j hj => ?_⟩
    have hend := hall j hj
    rw [hget j (by omega), sampleEnd_le_iff hfails] at hend
    exact hend
  · rintro ⟨haudio, hends⟩
    obtain ⟨k, hk, hfails⟩ := hkept haudio
    by_contra hge
    have := hends k (by omega)
    exact hfails ((sampleEnd_le_iff hfails).mpr this)

/-- What is left is a window of the track, cut and moved as the edit says. -/
theorem apply_spec {track moved : ParsedTrack} {edit : TrackEdit} {shift : ℕ}
    (hedit : ¬(edit = .none ∧ shift = 0))
    (h : apply track edit shift = .ok moved) :
    ∃ first stop, Applied track edit shift first stop moved := by
  unfold apply at h
  rw [if_neg hedit] at h
  obtain ⟨cut, htail, h⟩ := bind_eq_ok_iff.mp h
  obtain ⟨last, hlast, h⟩ := bind_eq_ok_iff.mp h
  obtain ⟨later, hshifted, h⟩ := bind_eq_ok_iff.mp h
  obtain ⟨duration, -, h⟩ := bind_eq_ok_iff.mp h
  obtain rfl := Except.ok.inj h
  obtain ⟨stop, hcut, hstop⟩ := tail_spec htail
  obtain ⟨first, hhead, hfirst⟩ := trimHead_spec cut edit.mediaTime
  have hkept := hcut.trans hhead
  have hlen := hkept.len_eq
  have hcutlen := hcut.len_eq
  have hnonempty : 0 < (trimHead cut edit.mediaTime).samples.len := by
    rw [okOr_eq_ok_iff] at hlast
    by_contra hzero
    simp [SampleIndex.last, checkedSub, show
      (trimHead cut edit.mediaTime).samples.len = 0 by omega] at hlast
  obtain ⟨-, hholds, samples, hreadable, rfl⟩ := ParsedTrack.shifted_spec hshifted
  have hlenmoved := hholds.len_eq
  rw [List.length_map, SampleIndex.length_all, hlen] at hlenmoved
  refine ⟨first, stop, hkept.id, hkept.kind, hkept.timescale, rfl, by omega,
    hkept.stop_le, hlenmoved, ?_, hstop, ?_⟩
  · intro i hi
    dsimp only at hi hlenmoved ⊢
    have hsource : (trimHead cut edit.mediaTime).samples.all[i]? =
        some (track.samples.get (first + i)) := by
      rw [SampleIndex.getElem?_all (by omega), hkept.get_eq (by omega)]
    rw [hholds.get_eq (by rw [List.getElem?_map, hsource]; rfl)]
    rfl
  · exact head_of_cut hcut hfirst (by omega)

theorem apply_interleaved {track : ParsedTrack} {edit : TrackEdit}
    {shift stop i j : ℕ} (hend : edit.mediaEnd = some stop) (hij : i < j)
    (hj : j < track.samples.len)
    (hi : (stop : ℤ) ≤ samplePresentsAt (track.samples.get i))
    (hlate : samplePresentsAt (track.samples.get j) < stop) :
    apply track edit shift = .error (unsupported track.id
      "edit list ends inside a run of reordered samples") := by
  have hedit : ¬(edit = .none ∧ shift = 0) := by
    rintro ⟨rfl, -⟩
    cases hend
  unfold apply
  rw [if_neg hedit, hend]
  dsimp only [Option.elim]
  rw [trimTail_interleaved hij hj hi hlate, error_bind]

/-- An edit cuts a track to exactly what it plays, or fails: it leaves a
window of the samples moved by the shift, it fails where the samples around
its end interleave, and no edit and no shift change nothing. -/
theorem apply_trims_exactly (track : ParsedTrack) (edit : TrackEdit)
    (shift : ℕ) :
    (∀ moved, ¬(edit = .none ∧ shift = 0) →
      apply track edit shift = .ok moved →
      ∃ first stop, Applied track edit shift first stop moved) ∧
    (∀ stop ∈ edit.mediaEnd, ∀ j < track.samples.len, ∀ i < j,
      (stop : ℤ) ≤ samplePresentsAt (track.samples.get i) →
      samplePresentsAt (track.samples.get j) < stop →
      ∃ error, apply track edit shift = .error error) ∧
    (edit = .none → shift = 0 → apply track edit shift = .ok track) := by
  refine ⟨fun moved hedit h => apply_spec hedit h, ?_, ?_⟩
  · intro stop hend j hj i hij hi hlate
    exact ⟨_, apply_interleaved hend hij hj hi hlate⟩
  · rintro rfl rfl
    unfold apply
    rw [if_pos ⟨rfl, rfl⟩]

/-- Five audio frames, of which the first is padding. -/
def paddedTrack : ParsedTrack where
  id := 1
  kind := .audio
  timescale := 48000
  samples := .fromSamples
    [⟨0, 10, 0, 1024, 0, true⟩, ⟨10, 10, 1024, 1024, 0, true⟩,
      ⟨20, 10, 2048, 1024, 0, true⟩, ⟨30, 10, 3072, 1024, 0, true⟩,
      ⟨40, 10, 4096, 1024, 0, true⟩]
  timelineShift := 0
  duration := 5120
  timescale_pos := by decide
  samples_readable := SampleIndex.fromSamples_readable (by decide) (by decide)

theorem paddedTrack_applied :
    ∃ moved first stop, Applied paddedTrack ⟨1024, 480, some 4096⟩ 480
      first stop moved := by
  obtain ⟨moved, hmoved⟩ := exists_ok_of_isOk (show
    (apply paddedTrack ⟨1024, 480, some 4096⟩ 480).isOk = true by
      decide)
  have hedit : ¬((⟨1024, 480, some 4096⟩ : TrackEdit) = .none ∧ 480 = 0) := by
    decide
  exact ⟨moved, (apply_trims_exactly _ _ _).1 moved hedit hmoved⟩

end EditLists

/-! ## The timeline of a fragmented file -/

/-- A track's first decode time and timescale. -/
def startFraction (track : ParsedTrack) : Option (ℕ × ℕ) :=
  track.samples.first.map fun first => (first.decodeTime, track.timescale)

/-- The earlier of two instants, compared without dividing; the first where
they are equal. -/
def earlier (best next : ℕ × ℕ) : ℕ × ℕ :=
  if next.1 * best.2 < best.1 * next.2 then next else best

/-- The earliest first sample, in ticks, and its timescale. -/
def earliestStart (tracks : List ParsedTrack) : Option (ℕ × ℕ) :=
  match tracks.filterMap startFraction with
  | [] => none
  | start :: rest => some (rest.foldl earlier start)

/-- The origin in a track's own ticks, rounded down. -/
def timelineOrigin (earliest : ℕ × ℕ) (track : ParsedTrack) : ℕ :=
  rescaled earliest.1 earliest.2 track.timescale

def normaliseTrack (earliest : ℕ × ℕ) (track : ParsedTrack) :
    Result ParsedTrack :=
  if 2 ^ 64 ≤ timelineOrigin earliest track then
    .error (invalidMedia "timeline origin overflow")
  else do
    let track ← track.shifted (-(timelineOrigin earliest track : ℤ))
      "timeline origin overflow"
    let last ← okOr track.samples.last
      (invalidMedia "a fragmented track has no samples")
    let duration ← okOr (checkedAdd (2 ^ 64) last.decodeTime last.duration)
      (invalidMedia "track duration overflow")
    .ok { track with duration := duration }

/-- Moves the tracks of a fragmented file back together, so that the earliest
starts at zero, and takes each track's duration from its samples. -/
def normaliseFragmentedTimeline (tracks : List ParsedTrack) :
    Result (List ParsedTrack) :=
  match earliestStart tracks with
  | none => .ok tracks
  | some earliest => tracks.mapM (normaliseTrack earliest)

/-! ## The earliest start -/

/-- An instant in seconds: ticks over a timescale. -/
def instant (start : ℕ × ℕ) : ℚ :=
  ratio (start.1, start.2)

/-- When a track starts, in seconds. -/
def ParsedTrack.startSeconds (track : ParsedTrack) : ℚ :=
  instant (track.samples.decodeTime 0, track.timescale)

theorem startFraction_eq_some_iff {track : ParsedTrack} {start : ℕ × ℕ} :
    startFraction track = some start ↔ 0 < track.samples.len ∧
      start = (track.samples.decodeTime 0, track.timescale) := by
  have hempty := SampleIndex.isEmpty_iff track.samples_readable
  unfold startFraction SampleIndex.first
  split
  · next h => simp [hempty.mp h]
  · next h =>
      rw [hempty] at h
      simp [Nat.pos_of_ne_zero h, eq_comm]

theorem earlier_eq {best next : ℕ × ℕ} (hbest : 0 < best.2)
    (hnext : 0 < next.2) :
    earlier best next =
      if -instant best < -instant next then next else best := by
  have hlt : -instant best < -instant next ↔
      next.1 * best.2 < best.1 * next.2 := by
    rw [neg_lt_neg_iff]
    unfold instant
    rw [ratio_lt_ratio_iff (Int.natCast_pos.mpr hnext)
      (Int.natCast_pos.mpr hbest)]
    dsimp only
    norm_cast
  unfold earlier
  simp only [hlt]

theorem foldl_earlier_eq {best : ℕ × ℕ} {rest : List (ℕ × ℕ)}
    (hpos : ∀ start ∈ best :: rest, 0 < start.2) :
    rest.foldl earlier best = leader (fun start => -instant start) best rest := by
  induction rest generalizing best with
  | nil => rfl
  | cons next rest ih =>
      have hbest := hpos best (by simp)
      have hnext := hpos next (by simp)
      rw [List.foldl_cons, leader, earlier_eq hbest hnext]
      apply ih
      intro start hmem
      rcases List.mem_cons.mp hmem with rfl | hrest
      · split <;> assumption
      · exact hpos start (by simp [hrest])

/-- The origin is the start of a track, and no track starts before it. -/
theorem earliestStart_spec {tracks : List ParsedTrack} {earliest : ℕ × ℕ}
    (h : earliestStart tracks = some earliest) :
    (∃ track ∈ tracks, startFraction track = some earliest) ∧
      ∀ track ∈ tracks, 0 < track.samples.len →
        instant earliest ≤ track.startSeconds := by
  have hpos : ∀ start ∈ tracks.filterMap startFraction, 0 < start.2 := by
    intro start hmem
    obtain ⟨track, -, hstart⟩ := List.mem_filterMap.mp hmem
    obtain ⟨-, rfl⟩ := startFraction_eq_some_iff.mp hstart
    exact track.timescale_pos
  have hmem : ∀ track ∈ tracks, 0 < track.samples.len →
      (track.samples.decodeTime 0, track.timescale) ∈
        tracks.filterMap startFraction := by
    intro track hin hlen
    exact List.mem_filterMap.mpr
      ⟨track, hin, startFraction_eq_some_iff.mpr ⟨hlen, rfl⟩⟩
  unfold earliestStart at h
  cases hstarts : tracks.filterMap startFraction with
  | nil => simp [hstarts] at h
  | cons start rest =>
      rw [hstarts] at h hpos hmem
      obtain rfl := Option.some.inj h
      rw [foldl_earlier_eq hpos]
      have hleader := leader_isLeader (fun start => -instant start) start rest
      constructor
      · have hfound : leader (fun start => -instant start) start rest ∈
            tracks.filterMap startFraction := by
          rw [hstarts, List.mem_cons]
          exact hleader.mem
        exact List.mem_filterMap.mp hfound
      · intro track hin hlen
        have hle := hleader.le
        have hstart := hleader.start_le
        apply neg_le_neg_iff.mp
        rcases List.mem_cons.mp (hmem track hin hlen) with heq | hrest
        · unfold ParsedTrack.startSeconds
          rw [heq]
          exact hstart
        · exact hle _ hrest

theorem earliestStart_eq_none {tracks : List ParsedTrack}
    (h : earliestStart tracks = none) :
    ∀ track ∈ tracks, track.samples.len = 0 := by
  intro track hmem
  by_contra hpos
  have hstart := List.mem_filterMap.mpr ⟨track, hmem,
    startFraction_eq_some_iff.mpr ⟨Nat.pos_of_ne_zero hpos, rfl⟩⟩
  unfold earliestStart at h
  cases hstarts : tracks.filterMap startFraction with
  | nil => simp [hstarts] at hstart
  | cons start rest => simp [hstarts] at h

/-! ## Moving the tracks back -/

/-- `moved` is `track` with every decode time moved back by `origin`, and
none below zero. -/
structure MovedBack (origin : ℕ) (track moved : ParsedTrack) : Prop where
  id : moved.id = track.id
  kind : moved.kind = track.kind
  timescale : moved.timescale = track.timescale
  len_eq : moved.samples.len = track.samples.len
  origin_le : ∀ i < track.samples.len, origin ≤ track.samples.decodeTime i
  get_eq : ∀ i < track.samples.len, moved.samples.get i =
    { track.samples.get i with
      decodeTime := track.samples.decodeTime i - origin }

theorem MovedBack.refl (track : ParsedTrack) : MovedBack 0 track track where
  id := rfl
  kind := rfl
  timescale := rfl
  len_eq := rfl
  origin_le _ _ := Nat.zero_le _
  get_eq _ _ := rfl

theorem MovedBack.decodeTime_eq {origin i : ℕ} {track moved : ParsedTrack}
    (h : MovedBack origin track moved) (hi : i < track.samples.len) :
    moved.samples.decodeTime i + origin = track.samples.decodeTime i := by
  have hget := congrArg Sample.decodeTime (h.get_eq i hi)
  have := h.origin_le i hi
  rw [SampleIndex.get_decodeTime] at hget
  dsimp only at hget
  omega

theorem normaliseTrack_spec {earliest : ℕ × ℕ} {track moved : ParsedTrack}
    (h : normaliseTrack earliest track = .ok moved) :
    0 < track.samples.len ∧
      MovedBack (timelineOrigin earliest track) track moved := by
  unfold normaliseTrack at h
  split_ifs at h with horigin
  obtain ⟨later, hshifted, h⟩ := bind_eq_ok_iff.mp h
  obtain ⟨last, hlast, h⟩ := bind_eq_ok_iff.mp h
  obtain ⟨duration, -, h⟩ := bind_eq_ok_iff.mp h
  obtain rfl := Except.ok.inj h
  obtain ⟨hfits, hholds, samples, hreadable, rfl⟩ :=
    ParsedTrack.shifted_spec hshifted
  have hlen := hholds.len_eq
  rw [List.length_map, SampleIndex.length_all] at hlen
  have hpos : 0 < samples.len := by
    rw [okOr_eq_ok_iff] at hlast
    by_contra hzero
    simp [SampleIndex.last, checkedSub,
      show samples.len = 0 by omega] at hlast
  have hsource : ∀ i < track.samples.len, track.samples.all[i]? =
      some (track.samples.get i) := fun i hi => SampleIndex.getElem?_all hi
  refine ⟨hlen ▸ hpos, rfl, rfl, rfl, hlen, ?_, ?_⟩
  · intro i hi
    have hlow := (hfits.1 _ (List.mem_of_getElem? (hsource i hi))).1
    rw [SampleIndex.get_decodeTime] at hlow
    omega
  · intro i hi
    dsimp only
    rw [hholds.get_eq (by rw [List.getElem?_map, hsource i hi]; rfl)]
    unfold Sample.moved
    rw [SampleIndex.get_decodeTime]
    congr 1
    omega

/-- The origin is the earliest instant, rounded down to the track's ticks. -/
theorem timelineOrigin_bounds {earliest : ℕ × ℕ} (hpos : 0 < earliest.2)
    (track : ParsedTrack) :
    (timelineOrigin earliest track : ℚ) / track.timescale ≤ instant earliest ∧
      instant earliest <
        (timelineOrigin earliest track : ℚ) / track.timescale +
          1 / track.timescale := by
  have hscale : (0 : ℚ) < track.timescale := by
    exact_mod_cast track.timescale_pos
  have hpos' : (0 : ℚ) < earliest.2 := by exact_mod_cast hpos
  have hvalue : instant earliest = (earliest.1 : ℚ) / earliest.2 := by
    simp [instant, ratio]
  have hle : (timelineOrigin earliest track : ℚ) * earliest.2 ≤
      earliest.1 * track.timescale := by
    exact_mod_cast rescaled_mul_le earliest.1
  have hlt : (earliest.1 : ℚ) * track.timescale <
      ((timelineOrigin earliest track : ℚ) + 1) * earliest.2 := by
    exact_mod_cast lt_rescaled_mul hpos earliest.1
  rw [hvalue, ← add_div]
  constructor
  · rwa [div_le_div_iff₀ hscale hpos']
  · rwa [div_lt_div_iff₀ hpos' hscale]

theorem MovedBack.startSeconds_eq {origin : ℕ} {track moved : ParsedTrack}
    (h : MovedBack origin track moved) (hpos : 0 < track.samples.len) :
    moved.startSeconds =
      track.startSeconds - (origin : ℚ) / track.timescale := by
  have hdecode := h.decodeTime_eq hpos
  have hcast : (moved.samples.decodeTime 0 : ℚ) + origin =
      track.samples.decodeTime 0 := by exact_mod_cast hdecode
  simp only [ParsedTrack.startSeconds, instant, ratio, Int.cast_natCast,
    h.timescale]
  rw [← sub_div, ← hcast, add_sub_cancel_right]

/-- A track none starts before. -/
structure Earliest (tracks : List ParsedTrack) (track : ParsedTrack) : Prop where
  nonempty : 0 < track.samples.len
  le : ∀ other ∈ tracks, 0 < other.samples.len →
    track.startSeconds ≤ other.startSeconds

/-- A tick of the coarser of two tracks' timescales, in seconds. -/
def coarserTick (a b : ParsedTrack) : ℚ :=
  1 / (min a.timescale b.timescale : ℕ)

theorem one_div_le_coarserTick (a b : ParsedTrack) :
    1 / (a.timescale : ℚ) ≤ coarserTick a b ∧
      1 / (b.timescale : ℚ) ≤ coarserTick a b := by
  have hpos : (0 : ℚ) < (min a.timescale b.timescale : ℕ) := by
    exact_mod_cast lt_min a.timescale_pos b.timescale_pos
  constructor
  · exact one_div_le_one_div_of_le hpos
      (by exact_mod_cast Nat.min_le_left a.timescale b.timescale)
  · exact one_div_le_one_div_of_le hpos
      (by exact_mod_cast Nat.min_le_right a.timescale b.timescale)

theorem moved_apart_lt {earliest : ℕ × ℕ} (hpos : 0 < earliest.2)
    {a b a' b' : ParsedTrack} (ha : 0 < a.samples.len)
    (hb : 0 < b.samples.len)
    (hmoved : MovedBack (timelineOrigin earliest a) a a')
    (hmoved' : MovedBack (timelineOrigin earliest b) b b') :
    |(a'.startSeconds - b'.startSeconds) - (a.startSeconds - b.startSeconds)| <
      coarserTick a b := by
  obtain ⟨hlow, hhigh⟩ := timelineOrigin_bounds hpos a
  obtain ⟨hlow', hhigh'⟩ := timelineOrigin_bounds hpos b
  obtain ⟨htick, htick'⟩ := one_div_le_coarserTick a b
  rw [hmoved.startSeconds_eq ha, hmoved'.startSeconds_eq hb, abs_lt]
  constructor
  · linarith
  · linarith

/-- The earliest track's origin is its own start. -/
theorem timelineOrigin_earliest {tracks : List ParsedTrack} {earliest : ℕ × ℕ}
    {track : ParsedTrack} (hearliest : earliestStart tracks = some earliest)
    (hmem : track ∈ tracks) (h : Earliest tracks track) :
    timelineOrigin earliest track = track.samples.decodeTime 0 := by
  obtain ⟨⟨first, hfirst, hstart⟩, hle⟩ := earliestStart_spec hearliest
  obtain ⟨hlen, heq⟩ := startFraction_eq_some_iff.mp hstart
  have hpos : 0 < earliest.2 := by
    rw [heq]
    exact first.timescale_pos
  have hsame : instant earliest = track.startSeconds := by
    apply le_antisymm (hle track hmem h.nonempty)
    rw [heq]
    exact h.le first hfirst hlen
  have hscale : (0 : ℚ) < track.timescale := by
    exact_mod_cast track.timescale_pos
  have hpos' : (0 : ℚ) < earliest.2 := by exact_mod_cast hpos
  have hcross : earliest.1 * track.timescale =
      track.samples.decodeTime 0 * earliest.2 := by
    simp only [ParsedTrack.startSeconds, instant, ratio, Int.cast_natCast]
      at hsame
    rw [div_eq_div_iff hpos'.ne' hscale.ne'] at hsame
    exact_mod_cast hsame
  unfold timelineOrigin rescaled
  rw [hcross, Nat.mul_div_cancel _ hpos]

/-- A fragmented file's timeline starts at zero: every track is moved back by
one origin, an earliest track to its tick zero, no sample below zero and no
two tracks apart by as much as a tick of the coarser. -/
theorem fragmented_timeline_normalised {tracks moved : List ParsedTrack}
    (h : normaliseFragmentedTimeline tracks = .ok moved) :
    List.Forall₂ (fun track moved => ∃ origin, MovedBack origin track moved)
      tracks moved ∧
    (∀ a ∈ tracks.zip moved, Earliest tracks a.1 →
      a.2.samples.decodeTime 0 = 0) ∧
    ∀ a ∈ tracks.zip moved, ∀ b ∈ tracks.zip moved,
      |(a.2.startSeconds - b.2.startSeconds) -
        (a.1.startSeconds - b.1.startSeconds)| < coarserTick a.1 b.1 := by
  unfold normaliseFragmentedTimeline at h
  split at h
  · next hnone =>
      obtain rfl := Except.ok.inj h
      have hsame : List.Forall₂ Eq tracks tracks := List.forall₂_refl tracks
      have hzip : ∀ a ∈ tracks.zip tracks, a.1 = a.2 :=
        fun a ha => List.forall₂_zip hsame ha
      refine ⟨hsame.imp fun track _ heq => ⟨0, heq ▸ .refl track⟩, ?_, ?_⟩
      · intro a ha hfirst
        have hlen := earliestStart_eq_none hnone a.1 (List.of_mem_zip ha).1
        exact absurd hlen hfirst.nonempty.ne'
      · intro a ha b hb
        rw [hzip a ha, hzip b hb, sub_self, abs_zero]
        have htick := (one_div_le_coarserTick a.2 b.2).1
        have hpos : (0 : ℚ) < 1 / a.2.timescale :=
          one_div_pos.mpr (by exact_mod_cast a.2.timescale_pos)
        exact hpos.trans_le htick
  · next earliest hearliest =>
      have hspec := (mapM_forall₂ h).imp fun _ _ => normaliseTrack_spec
      have hzip : ∀ a ∈ tracks.zip moved, 0 < a.1.samples.len ∧
          MovedBack (timelineOrigin earliest a.1) a.1 a.2 :=
        fun a ha => List.forall₂_zip hspec ha
      obtain ⟨⟨first, -, hstart⟩, -⟩ := earliestStart_spec hearliest
      have hpos : 0 < earliest.2 := by
        obtain ⟨-, rfl⟩ := startFraction_eq_some_iff.mp hstart
        exact first.timescale_pos
      refine ⟨hspec.imp fun _ _ hmoved => ⟨_, hmoved.2⟩, ?_, ?_⟩
      · intro a ha hfirst
        obtain ⟨hlen, hmoved⟩ := hzip a ha
        have hdecode := hmoved.decodeTime_eq hlen
        rw [timelineOrigin_earliest hearliest (List.of_mem_zip ha).1 hfirst]
          at hdecode
        omega
      · intro a ha b hb
        obtain ⟨hlen, hmoved⟩ := hzip a ha
        obtain ⟨hlen', hmoved'⟩ := hzip b hb
        exact moved_apart_lt hpos hlen hlen' hmoved hmoved'

/-- Video and audio stamped with stream time. -/
def streamedTracks : List ParsedTrack :=
  [{ id := 1
     kind := .video
     timescale := 90000
     samples := .fromSamples
       [⟨0, 10, 900001, 3000, 0, true⟩, ⟨10, 10, 903001, 3000, 0, false⟩]
     timelineShift := 0
     duration := 0
     timescale_pos := by decide
     samples_readable :=
       SampleIndex.fromSamples_readable (by decide) (by decide) },
   { id := 2
     kind := .audio
     timescale := 48000
     samples := .fromSamples [⟨20, 10, 480480, 1024, 0, true⟩]
     timelineShift := 0
     duration := 0
     timescale_pos := by decide
     samples_readable :=
       SampleIndex.fromSamples_readable (by decide) (by decide) }]

theorem streamedTracks_normalised :
    ∃ moved, List.Forall₂
      (fun track moved => ∃ origin, MovedBack origin track moved)
      streamedTracks moved := by
  obtain ⟨moved, hmoved⟩ := exists_ok_of_isOk (show
    (normaliseFragmentedTimeline streamedTracks).isOk = true by
      decide)
  exact ⟨moved, (fragmented_timeline_normalised hmoved).1⟩

end Segmentor
