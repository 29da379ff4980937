import Segmentor.FragmentRoundTrip
import Segmentor.FragmentSamples
import Segmentor.SampleSlices

/-!
# Samples that fit their words

Every field of a sample that is read from a fragment comes from a word, or
from a default that was read from one.  Samples in decode order whose fields
fit give a valid index.
-/

namespace Segmentor

open General

/-! ## Defaults -/

/-- The defaults fit a word. -/
structure TrackDefaults.Fits (defaults : TrackDefaults) : Prop where
  duration_lt : defaults.duration < 2 ^ 32
  size_lt : defaults.size < 2 ^ 32

theorem TrackDefaults.Fits.empty : TrackDefaults.Fits {} where
  duration_lt := by decide
  size_lt := by decide

theorem parseTrex_fits {payload : List UInt8} {found : ℕ × TrackDefaults}
    (h : parseTrex.run' payload = .ok found) : found.2.Fits := by
  obtain ⟨rest, hrun⟩ := Reader.run'_eq_ok_iff.mp h
  unfold parseTrex at hrun
  obtain ⟨_, _, -, hrun⟩ := Reader.run_bind_eq_ok hrun
  obtain ⟨_, _, -, hrun⟩ := Reader.run_bind_eq_ok hrun
  obtain ⟨_, _, -, hrun⟩ := Reader.run_bind_eq_ok hrun
  obtain ⟨duration, _, hduration, hrun⟩ := Reader.run_bind_eq_ok hrun
  obtain ⟨size, _, hsize, hrun⟩ := Reader.run_bind_eq_ok hrun
  obtain ⟨_, _, -, hrun⟩ := Reader.run_bind_eq_ok hrun
  obtain ⟨rfl, -⟩ := Reader.run_pure_eq_ok_iff.mp hrun
  exact ⟨(Reader.u32_eq_ok_iff.mp hduration).1,
    (Reader.u32_eq_ok_iff.mp hsize).1⟩

theorem parseDefaults_fits {mvex : List UInt8}
    {defaults : List (ℕ × TrackDefaults)}
    (h : parseDefaults mvex = .ok defaults) :
    ∀ entry ∈ defaults, entry.2.Fits := by
  unfold parseDefaults at h
  obtain ⟨children, -, h⟩ := bind_eq_ok_iff.mp h
  obtain ⟨read, hread, h⟩ := bind_eq_ok_iff.mp h
  obtain rfl := Except.ok.inj h
  intro entry hentry
  obtain ⟨trex, -, htrex⟩ :=
    exists_of_mem_mapM hread (List.mem_reverse.mp hentry)
  exact parseTrex_fits htrex

theorem defaultsOf_fits {defaults : List (ℕ × TrackDefaults)}
    (h : ∀ entry ∈ defaults, entry.2.Fits) (trackId : ℕ) :
    (defaultsOf defaults trackId).Fits := by
  unfold defaultsOf
  cases hfound : defaults.lookup trackId with
  | none => exact .empty
  | some found =>
      obtain ⟨before, after, rfl, -⟩ := List.lookup_eq_some_iff.mp hfound
      exact h (trackId, found) (by simp)

/-- The defaults of a `tfhd` fit a word where they are given. -/
structure TrackFragmentHeader.Fits (header : TrackFragmentHeader) : Prop where
  duration_lt : ∀ duration ∈ header.defaultDuration, duration < 2 ^ 32
  size_lt : ∀ size ∈ header.defaultSize, size < 2 ^ 32

theorem optional_u32_lt {present : Bool} {found : Option ℕ}
    {unread rest : List UInt8}
    (h : (Reader.optional present Reader.u32).run unread =
      .ok (found, rest)) : ∀ n ∈ found, n < 2 ^ 32 := by
  intro n hn
  cases present with
  | false =>
      obtain ⟨rfl, -⟩ := Reader.optional_false_eq_ok_iff.mp h
      cases hn
  | true =>
      obtain ⟨value, hvalue, rfl⟩ := Reader.optional_true_eq_ok_iff.mp h
      obtain rfl := Option.some.inj hn
      exact (Reader.u32_eq_ok_iff.mp hvalue).1

theorem parseTrackFragmentHeader_fits {payload : List UInt8}
    {header : TrackFragmentHeader}
    (h : parseTrackFragmentHeader.run' payload = .ok header) :
    header.Fits := by
  obtain ⟨rest, hrun⟩ := Reader.run'_eq_ok_iff.mp h
  unfold parseTrackFragmentHeader at hrun
  obtain ⟨⟨_, flags⟩, _, -, hrun⟩ := Reader.run_bind_eq_ok hrun
  obtain ⟨_, _, -, hrun⟩ := Reader.run_bind_eq_ok hrun
  obtain ⟨_, _, -, hrun⟩ := Reader.run_bind_eq_ok hrun
  obtain ⟨_, _, -, hrun⟩ := Reader.run_bind_eq_ok hrun
  obtain ⟨duration, _, hduration, hrun⟩ := Reader.run_bind_eq_ok hrun
  obtain ⟨size, _, hsize, hrun⟩ := Reader.run_bind_eq_ok hrun
  obtain ⟨_, _, -, hrun⟩ := Reader.run_bind_eq_ok hrun
  obtain ⟨rfl, -⟩ := Reader.run_pure_eq_ok_iff.mp hrun
  exact ⟨optional_u32_lt hduration, optional_u32_lt hsize⟩

/-! ## Runs -/

namespace Run

variable {run : Run} {version flags : ℕ} {firstFlags : Option ℕ}
  {unread rest : List UInt8} {state next : RunState} {maxSamples : ℕ}

/-- What an entry of the run falls back to fits a word. -/
structure Fits (run : Run) : Prop where
  duration_lt : run.defaultDuration < 2 ^ 32
  size_lt : run.defaultSize < 2 ^ 32

theorem field_lt {present : Bool} {fallback value : ℕ}
    (hfallback : fallback < 2 ^ 32)
    (h : (field present fallback).run unread = .ok (value, rest)) :
    value < 2 ^ 32 := by
  obtain ⟨listed, hlisted, rfl⟩ := field_eq_ok h
  cases listed with
  | none => exact hfallback
  | some value => exact optional_u32_lt hlisted value rfl

theorem entryCompositionOffset_range {value : ℤ}
    (h : (entryCompositionOffset version flags).run unread =
      .ok (value, rest)) : -2 ^ 31 ≤ value ∧ value < 2 ^ 31 := by
  unfold entryCompositionOffset at h
  split at h
  · split at h
    · obtain ⟨offset, _, -, hchecked⟩ := Reader.run_bind_eq_ok h
      split at hchecked
      · obtain ⟨rfl, -⟩ := Reader.run_pure_eq_ok_iff.mp hchecked
        omega
      · cases hchecked
    · obtain ⟨bytes, _, htake, hpure⟩ := Reader.run_bind_eq_ok h
      obtain ⟨rfl, -⟩ := Reader.run_pure_eq_ok_iff.mp hpure
      have hlength := (Reader.take_eq_ok_iff.mp htake).1
      have hlt := decode_lt bytes
      rw [hlength] at hlt
      unfold ofWord
      split_ifs
      · omega
      · omega
  · obtain ⟨rfl, -⟩ := Reader.run_pure_eq_ok_iff.mp h
    omega

theorem place_fits {duration size sampleFlags : ℕ} {compositionOffset : ℤ}
    (hstate : ∀ sample ∈ state.samples, sample.Fits)
    (hduration : duration < 2 ^ 32) (hsize : size < 2 ^ 32)
    (hcomposition : -2 ^ 31 ≤ compositionOffset ∧ compositionOffset < 2 ^ 31)
    (h : run.place state duration size sampleFlags compositionOffset =
      .ok next) : ∀ sample ∈ next.samples, sample.Fits := by
  unfold place at h
  obtain ⟨stop, -, h⟩ := bind_eq_ok_iff.mp h
  obtain ⟨samples, hsamples, h⟩ := bind_eq_ok_iff.mp h
  obtain ⟨decodeTime, -, h⟩ := bind_eq_ok_iff.mp h
  obtain rfl := Except.ok.inj h
  intro sample hsample
  split_ifs at hsamples
  · obtain rfl := Except.ok.inj hsamples
    rcases List.mem_append.mp hsample with hmem | hmem
    · exact hstate sample hmem
    · obtain rfl := List.mem_singleton.mp hmem
      exact ⟨hsize, hduration, hcomposition.1, hcomposition.2⟩
  · obtain rfl := Except.ok.inj hsamples
    exact hstate sample hsample

theorem readEntry_fits {index : ℕ} (hrun : run.Fits)
    (hstate : ∀ sample ∈ state.samples, sample.Fits)
    (h : (run.readEntry version flags firstFlags index state).run unread =
      .ok (next, rest)) : ∀ sample ∈ next.samples, sample.Fits := by
  unfold readEntry at h
  obtain ⟨duration, _, hduration, h⟩ := Reader.run_bind_eq_ok h
  obtain ⟨size, _, hsize, h⟩ := Reader.run_bind_eq_ok h
  obtain ⟨sampleFlags, _, -, h⟩ := Reader.run_bind_eq_ok h
  obtain ⟨composition, _, hcomposition, h⟩ := Reader.run_bind_eq_ok h
  exact place_fits hstate (field_lt hrun.duration_lt hduration)
    (field_lt hrun.size_lt hsize) (entryCompositionOffset_range hcomposition)
    (Reader.run_lift_eq_ok h).1

theorem readEntries_fits {count index : ℕ} (hrun : run.Fits)
    (hstate : ∀ sample ∈ state.samples, sample.Fits)
    (h : (run.readEntries version flags firstFlags count index state).run
      unread = .ok (next, rest)) : ∀ sample ∈ next.samples, sample.Fits := by
  induction count generalizing index state unread with
  | zero =>
      obtain ⟨rfl, -⟩ := Reader.run_pure_eq_ok_iff.mp h
      exact hstate
  | succ count ih =>
      unfold readEntries at h
      obtain ⟨middle, _, hfirst, h⟩ := Reader.run_bind_eq_ok h
      exact ih (readEntry_fits hrun hstate hfirst) h

theorem readBody_fits {count : ℕ} (hrun : run.Fits)
    (hstate : ∀ sample ∈ state.samples, sample.Fits)
    (h : (run.readBody version flags count firstFlags state maxSamples).run
      unread = .ok (next, rest)) : ∀ sample ∈ next.samples, sample.Fits := by
  unfold readBody at h
  obtain ⟨remaining, _, -, hbody⟩ := Reader.run_bind_eq_ok h
  split at hbody
  · cases hbody
  split at hbody
  · cases hbody
  split at hbody
  · obtain ⟨hmeasured, -⟩ := Reader.run_lift_eq_ok hbody
    obtain ⟨total, -, hnext⟩ := bind_eq_ok_iff.mp hmeasured
    obtain rfl := Except.ok.inj hnext
    exact hstate
  · exact readEntries_fits hrun hstate hbody

theorem read_fits {payload : List UInt8} (hrun : run.Fits)
    (hstate : ∀ sample ∈ state.samples, sample.Fits)
    (h : run.read payload state maxSamples = .ok next) :
    ∀ sample ∈ next.samples, sample.Fits := by
  unfold read at h
  obtain ⟨rest, hread⟩ := Reader.run'_eq_ok_iff.mp h
  obtain ⟨⟨version, flags⟩, _, -, hread⟩ := Reader.run_bind_eq_ok hread
  obtain ⟨count, _, -, hread⟩ := Reader.run_bind_eq_ok hread
  obtain ⟨dataOffset, _, -, hread⟩ := Reader.run_bind_eq_ok hread
  obtain ⟨offset, _, -, hread⟩ := Reader.run_bind_eq_ok hread
  obtain ⟨firstFlags, _, -, hbody⟩ := Reader.run_bind_eq_ok hread
  exact @readBody_fits _ _ _ _ _ _
    { state with offset := offset } _ _ _ hrun hstate hbody

end Run

/-! ## The samples of a track -/

namespace TrackQuery

variable {query : TrackQuery}

theorem run_fits {header : TrackFragmentHeader} (hdefaults : query.defaults.Fits)
    (hheader : header.Fits) (base : ℕ) : (query.run header base).Fits := by
  have hfallback : (query.run header base).defaults.Fits := by
    unfold TrackQuery.run
    dsimp only
    split
    · exact hdefaults
    · exact .empty
  constructor
  · unfold Run.defaultDuration
    cases hlisted : header.defaultDuration with
    | none =>
        have hnone : (query.run header base).header.defaultDuration = none :=
          hlisted
        rw [hnone]
        exact hfallback.duration_lt
    | some duration =>
        have hsome : (query.run header base).header.defaultDuration =
          some duration := hlisted
        rw [hsome]
        exact hheader.duration_lt duration hlisted
  · unfold Run.defaultSize
    cases hlisted : header.defaultSize with
    | none =>
        have hnone : (query.run header base).header.defaultSize = none :=
          hlisted
        rw [hnone]
        exact hfallback.size_lt
    | some size =>
        have hsome : (query.run header base).header.defaultSize =
          some size := hlisted
        rw [hsome]
        exact hheader.size_lt size hlisted

theorem readTraf_fits {moofOffset : ℕ} {state next : TrackState}
    {traf : RawBox} (hdefaults : query.defaults.Fits)
    (hstate : ∀ sample ∈ state.samples, sample.Fits)
    (h : query.readTraf moofOffset state traf = .ok next) :
    ∀ sample ∈ next.samples, sample.Fits := by
  unfold readTraf at h
  obtain ⟨tfhd, -, h⟩ := bind_eq_ok_iff.mp h
  obtain ⟨header, hheader, h⟩ := bind_eq_ok_iff.mp h
  obtain ⟨tfdt, -, h⟩ := bind_eq_ok_iff.mp h
  obtain ⟨decodeTime, -, h⟩ := bind_eq_ok_iff.mp h
  obtain ⟨children, -, h⟩ := bind_eq_ok_iff.mp h
  obtain ⟨final, hfinal, h⟩ := bind_eq_ok_iff.mp h
  obtain rfl := Except.ok.inj h
  have hrun := run_fits hdefaults (parseTrackFragmentHeader_fits hheader)
    (base header moofOffset state.previousEnd)
  exact foldlM_invariant
    (I := fun _ (state : RunState) => ∀ sample ∈ state.samples, sample.Fits)
    (fun _ _ _ _ hsamples hread => Run.read_fits hrun hsamples hread)
    hstate hfinal

theorem readFragment_fits {fragment : Fragment} {state next : TrackState}
    (hdefaults : query.defaults.Fits)
    (hstate : ∀ sample ∈ state.samples, sample.Fits)
    (h : query.readFragment state fragment = .ok next) :
    ∀ sample ∈ next.samples, sample.Fits := by
  unfold readFragment at h
  obtain ⟨moof, -, h⟩ := bind_eq_ok_iff.mp h
  split at h
  · cases h
  obtain ⟨children, -, h⟩ := bind_eq_ok_iff.mp h
  refine foldlM_invariant
    (I := fun _ (state : TrackState) => ∀ sample ∈ state.samples, sample.Fits)
    (fun _ _ _ _ hsamples hread => ?_) (s := { state with
      previousEnd := fragment.offset }) hstate h
  exact readTraf_fits hdefaults hsamples hread

end TrackQuery

theorem trackSamples_fits {fragments : List Fragment} {query : TrackQuery}
    {samples : List Sample} (hdefaults : query.defaults.Fits)
    (h : trackSamples fragments query = .ok samples) :
    ∀ sample ∈ samples, sample.Fits := by
  unfold trackSamples at h
  obtain ⟨final, hfinal, h⟩ := bind_eq_ok_iff.mp h
  obtain rfl := Except.ok.inj h
  refine foldlM_invariant
    (I := fun _ (state : TrackState) => ∀ sample ∈ state.samples, sample.Fits)
    (fun _ _ _ _ hsamples hread =>
      TrackQuery.readFragment_fits hdefaults hsamples hread) ?_ hfinal
  intro sample hsample
  cases hsample

/-! ## A valid index -/

namespace TableBuilder

variable {sizes : List ℕ} {builder : TableBuilder} {samples : List Sample}

theorem Built.exists_timed (h : Built sizes builder samples) {row : TimeRow}
    {i : ℕ} (hrow : builder.times[i]? = some row) :
    ∃ sample, samples[row.first]? = some sample ∧
      sample.decodeTime = row.start ∧ sample.duration = row.duration := by
  have hinside := h.times.covers.inside row (List.mem_of_getElem? hrow)
  have hsample : samples[row.first]? = some samples[row.first] :=
    List.getElem?_eq_getElem hinside
  obtain ⟨-, htime, hduration⟩ := h.times.fits_of_row hrow (Nat.le_refl _)
    (fun next hnext =>
      h.times.covers.ascending.start_lt (Nat.lt_succ_self i) hrow hnext) hsample
  refine ⟨_, hsample, ?_, hduration⟩
  rw [htime, Nat.sub_self, Nat.zero_mul, Nat.add_zero]

/-- Samples that do not overlap give timing runs that do not. -/
theorem Built.times_chained (h : Built sizes builder samples)
    (hsorted : samples.Pairwise fun a b =>
      a.decodeTime + a.duration ≤ b.decodeTime)
    {i : ℕ} {a b : TimeRow} (ha : builder.times[i]? = some a)
    (hb : builder.times[i + 1]? = some b) :
    a.start + (b.first - a.first) * a.duration ≤ b.start := by
  have hfirst := h.times.covers.ascending.start_lt (Nat.lt_succ_self i) ha hb
  have hinside := h.times.covers.inside b (List.mem_of_getElem? hb)
  have hbefore : samples[b.first - 1]? = some samples[b.first - 1] :=
    List.getElem?_eq_getElem (by omega)
  obtain ⟨opening, hopening, hstart, -⟩ := h.exists_timed hb
  obtain ⟨-, htime, hduration⟩ := h.times.fits_of_row ha (by omega)
    (fun next hnext => by
      obtain rfl : b = next := by
        rw [hb] at hnext
        exact Option.some.inj hnext
      omega) hbefore
  obtain ⟨hlt, rfl⟩ := List.getElem?_eq_some_iff.mp hopening
  have hapart := List.pairwise_iff_getElem.mp hsorted (b.first - 1) b.first
    (by omega) hlt (by omega)
  have hspan : b.first - a.first = b.first - 1 - a.first + 1 := by omega
  rw [hspan, Nat.succ_mul]
  omega

theorem Built.composition_row_mem (h : Built sizes builder samples)
    {row : CompositionRow} (hrow : row ∈ builder.composition) :
    ∃ sample ∈ samples, sample.compositionOffset = row.offset := by
  obtain ⟨i, hi⟩ := List.mem_iff_getElem?.mp hrow
  have hinside := h.composition.covers.inside row hrow
  have hsample : samples[row.first]? = some samples[row.first] :=
    List.getElem?_eq_getElem hinside
  exact ⟨_, List.getElem_mem hinside,
    h.composition.fits_of_row hi (Nat.le_refl _) (fun next hnext =>
      h.composition.covers.ascending.start_lt (Nat.lt_succ_self i) hi hnext)
      hsample⟩

theorem Built.valid (h : Built (samples.map Sample.size) builder samples)
    (hcount : samples.length < 2 ^ 32)
    (hsorted : samples.Pairwise fun a b =>
      a.decodeTime + a.duration ≤ b.decodeTime)
    (hfits : ∀ sample ∈ samples, sample.Fits) :
    (builder.finish samples.length).Valid := by
  have hordered := h.ordered hcount.le
    (hsorted.imp fun hle => (Nat.le_add_right _ _).trans hle)
  have hlen : (builder.finish samples.length).len = samples.length := by
    simp [Tables.len, finish, h.sizes_eq]
  refine ⟨hlen.trans_lt hcount, ?_, hordered.chunks, hordered.times, ?_,
    fun i a b ha hb => h.times_chained hsorted ha hb, hordered.composition, ?_,
    hordered.sync⟩
  · intro size hsize
    change size ∈ builder.sizes at hsize
    rw [h.sizes_eq] at hsize
    obtain ⟨sample, hsample, rfl⟩ := List.mem_map.mp hsize
    exact (hfits sample hsample).size_lt
  · intro row hrow
    obtain ⟨i, hi⟩ := List.mem_iff_getElem?.mp hrow
    obtain ⟨sample, hsample, -, hduration⟩ := h.exists_timed hi
    rw [← hduration]
    exact (hfits sample (List.mem_of_getElem? hsample)).duration_lt
  · intro row hrow
    have hkept : row ∈ builder.composition := by
      unfold finish at hrow
      dsimp only at hrow
      split at hrow
      · cases hrow
      · exact hrow
    obtain ⟨sample, hsample, hoffset⟩ := h.composition_row_mem hkept
    rw [← hoffset]
    have hsampleFits := hfits sample hsample
    exact ⟨hsampleFits.composition_low, hsampleFits.composition_high⟩

end TableBuilder

namespace SampleIndex

variable {samples : List Sample}

/-- Samples in decode order whose fields fit their words give a valid
index. -/
theorem fromSamples_valid {sourceLen maxSamples time : ℕ}
    (horder : InOrder sourceLen maxSamples time samples)
    (hcount : samples.length < 2 ^ 32)
    (hfits : ∀ sample ∈ samples, sample.Fits) :
    (fromSamples samples).Valid := by
  have hsorted := horder.sorted.imp fun {a b : Sample} hle =>
    (Nat.le_add_right a.decodeTime a.duration).trans hle
  have hreadable := fromSamples_readable hcount.le hsorted
  have htables := (TableBuilder.built_foldl samples).valid hcount
    horder.sorted hfits
  refine ⟨htables, hreadable.start_le, hreadable.stop_le,
    hreadable.first_nonneg, fun hlt => ?_⟩
  have hlen : (fromSamples samples).stop = samples.length := by
    simp [fromSamples, new, Tables.len, TableBuilder.finish,
      (TableBuilder.built_foldl samples).sizes_eq]
  have hstart : (fromSamples samples).start = 0 := rfl
  have hshift : (fromSamples samples).shift = 0 := rfl
  have hpos : samples.length - 1 < samples.length := by omega
  have hget := fromSamples_get (List.getElem?_eq_getElem hpos)
  have hduration := congrArg Sample.duration hget
  have htime := congrArg Sample.decodeTime hget
  have hended := horder.ended _ (List.getElem_mem hpos)
  have hbound := horder.time_lt
  simp only [get, moved, hstart, hshift, Nat.zero_add, add_zero,
    Int.toNat_natCast] at hduration htime
  rw [hlen, hshift]
  omega

end SampleIndex

end Segmentor
