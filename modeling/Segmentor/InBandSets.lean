import Segmentor.SubsampleCover

/-!
# Parameter sets sent in band

The parameter sets of a track stand in its sample entry, and samples may bring
others.  Each sample is split by itself: with the sets of the entry and those
it has brought so far.  That is how its slices read where the samples before it
have left alone what they name.
-/

namespace Segmentor

open General

/-- The parameter sets of an encrypted video track's sample entry. -/
inductive VideoParameters
  | avc (parameters : Avc.Parameters)
  | hevc (parameters : Hevc.Parameters)

namespace VideoParameters

def subsamples (sample : List UInt8) :
    VideoParameters → Option (Result SubsampleMap)
  | .avc parameters => avcSubsamples parameters sample
  | .hevc parameters => hevcSubsamples parameters sample

/-- The maps of samples, each from the sets of the sample entry, as far as
each can be walked. -/
def maps (video : VideoParameters) (samples : List (List UInt8)) :
    Result (List SubsampleMap) :=
  samples.mapM fun sample => (video.subsamples sample).getD (.ok [])

end VideoParameters

namespace SliceCodec

variable {Sets : Type} (codec : SliceCodec Sets)

/-- The NAL units of the samples of a run, as their maps split them. -/
def Splits (parameters : Sets) (samples : List (List UInt8))
    (maps : List SubsampleMap) (run : List (List MeasuredNal)) : Prop :=
  run.length = samples.length ∧ maps.length = samples.length ∧
    ∀ (index : ℕ) sample (map : SubsampleMap) units,
      samples[index]? = some sample →
      maps[index]? = some map → run[index]? = some units →
      sample = units.flatMap (fun unit =>
        framed (codec.nalLengthSize parameters) unit.bytes) ∧
      map.ranges 0 = sliceData (codec.nalLengthSize parameters) 0 units

/-- The sets in force behind NAL units that have been measured. -/
def setsBehind (parameters : Sets) (units : List MeasuredNal) : Result Sets :=
  codec.inForce parameters (units.map MeasuredNal.bytes)

/-- Each slice of a run is measured with the sets of the entry and of its own
sample, and as it reads with the sets in force where the samples before it
have left alone what it names. -/
def SplitsBySample (parameters : Sets) (run : List (List MeasuredNal)) :
    Prop :=
  ∀ earlier units later, run = earlier ++ units :: later →
    ∀ index unit header, units[index]? = some unit →
      unit.header = some header →
      ∃ own, codec.setsBehind parameters (units.take index) = .ok own ∧
        codec.clearBytes own unit.bytes = .ok header ∧
        ∀ sets, codec.setsBehind parameters
            (earlier.flatten ++ units.take index) = .ok sets →
          (∀ id, codec.names unit.bytes id → codec.agree own sets id) →
          codec.clearBytes sets unit.bytes = .ok header

/-- A run whose samples are split one by one. -/
def SplitsRun (parameters : Sets) (samples : List (List UInt8))
    (maps : List SubsampleMap) : Prop :=
  ∃ run, codec.Splits parameters samples maps run ∧
    codec.SplitsBySample parameters run

variable {codec} {parameters : Sets}

theorem measuresAll_splits {run : List (List MeasuredNal)}
    (h : ∀ units ∈ run, codec.MeasuresAll parameters units) :
    codec.SplitsBySample parameters run := by
  rintro earlier units later rfl index unit header hunit hheader
  obtain ⟨own, hown, first, hfirst, hmeasured⟩ :=
    h units (by simp) index unit hunit
  refine ⟨own, hown, ?_⟩
  split at hmeasured
  · obtain ⟨other, hother, hclear, -⟩ := hmeasured
    obtain rfl := Option.some.inj (hheader.symm.trans hother)
    refine ⟨hclear, fun sets _ hagree => ?_⟩
    rw [← codec.clearBytes_congr hagree]
    exact hclear
  · cases hmeasured
  · rw [hmeasured] at hheader
    cases hheader

/-- Samples covered one by one have NAL units measured one by one. -/
theorem splits_of_covers {samples : List (List UInt8)}
    {maps : List SubsampleMap}
    (h : List.Forall₂ (codec.Covers parameters) samples maps) :
    ∃ run : List (List MeasuredNal),
      codec.Splits parameters samples maps run ∧
        ∀ units ∈ run, codec.MeasuresAll parameters units := by
  induction h with
  | nil =>
      refine ⟨[], ⟨rfl, rfl, ?_⟩, by simp⟩
      intro index sample map units hsample
      cases hsample
  | @cons sample map samples maps hcovers _ ih =>
      obtain ⟨units, hunits, hmeasured, hranges⟩ := hcovers.covered
      obtain ⟨run, ⟨hlength, hmaps, hsplit⟩, hall⟩ := ih
      refine ⟨units :: run, ⟨by simp [hlength], by simp [hmaps], ?_⟩, ?_⟩
      · intro index other otherMap others hother hotherMap hothers
        cases index with
        | zero =>
            obtain rfl := Option.some.inj hother
            obtain rfl := Option.some.inj hotherMap
            obtain rfl := Option.some.inj hothers
            exact ⟨hunits, hranges⟩
        | succ index =>
            exact hsplit index other otherMap others hother hotherMap hothers
      · rw [List.forall_mem_cons]
        exact ⟨hmeasured, hall⟩

variable (codec) in
/-- Samples that are split are split as a run. -/
theorem splitsRun {samples : List (List UInt8)} {maps : List SubsampleMap}
    (h : List.Forall₂ (fun sample map =>
      (codec.subsamples parameters sample).getD (.ok []) = .ok map)
      samples maps) :
    codec.SplitsRun parameters samples maps := by
  have hcovers : List.Forall₂ (codec.Covers parameters) samples maps := by
    refine h.imp fun sample map hmap => ?_
    obtain ⟨result, hresult, hcovers⟩ :=
      codec.subsamples_spec parameters sample
    rw [hresult] at hmap
    exact hcovers map hmap
  obtain ⟨run, hsplits, hall⟩ := splits_of_covers hcovers
  exact ⟨run, hsplits, measuresAll_splits hall⟩

end SliceCodec

namespace VideoParameters

def SplitsRun (video : VideoParameters) (samples : List (List UInt8))
    (maps : List SubsampleMap) : Prop :=
  match video with
  | .avc parameters => avcCodec.SplitsRun parameters samples maps
  | .hevc parameters => hevcCodec.SplitsRun parameters samples maps

end VideoParameters

/-- Every slice of a run of samples is cut with the sets of the sample entry
and of its own sample. -/
theorem slices_split_by_sample {video : VideoParameters}
    {samples : List (List UInt8)} {maps : List SubsampleMap}
    (hmaps : video.maps samples = .ok maps) :
    video.SplitsRun samples maps := by
  have hall := mapM_forall₂ hmaps
  cases video with
  | avc parameters => exact avcCodec.splitsRun hall
  | hevc parameters => exact hevcCodec.splitsRun hall

/-! ## A set replaced in band -/

/-- A sequence parameter set of a picture of 64 by 64. -/
def smallSps : List UInt8 :=
  [66, 1, 1, 1, 96, 0, 0, 3, 0, 144, 0, 0, 3, 0, 0, 3, 0, 93, 160, 32, 129, 5,
    235, 170, 194, 8]

def plainPps : List UInt8 := [68, 1, 192, 113, 128, 18]

/-- The same with chroma offsets in slices. -/
def offsetPps : List UInt8 := [68, 1, 192, 113, 192, 18]

/-- A slice with chroma offsets: its header takes five bytes, and four bytes of
data follow. -/
def offsetSlice : List UInt8 := [38, 1, 174, 10, 15, 170, 170, 170, 170]

/-- The sets of a sample entry. -/
def entrySets (nals : List (List UInt8)) : Hevc.Parameters :=
  (hevcCodec.inForce (Hevc.empty 4) nals).toOption.getD (Hevc.empty 4)

/-- The first sample of a run brings a picture parameter set, and the next
relies on it. -/
def resentRun : List (List UInt8) :=
  [(([offsetPps, offsetSlice] : List (List UInt8)).flatMap (framed 4)),
    framed 4 offsetSlice]

/-- With the set in force the header of the second sample's slice takes five
bytes.  The sample entry's cuts it after three.  Where the entry leaves all
sets to the samples the slice is refused. -/
theorem resent_set_unused_later :
    ((hevcCodec.inForce (entrySets [smallSps, plainPps])
        [offsetPps, offsetSlice]).bind fun sets =>
          hevcCodec.clearBytes sets offsetSlice) = .ok 5 ∧
      (VideoParameters.hevc (entrySets [smallSps, plainPps])).maps resentRun =
        .ok [[(19, 4)], [(7, 6)]] ∧
      hevcSubsamples (entrySets []) (framed 4 offsetSlice) =
        some (.error (.invalidMedia "a slice names an unknown PPS")) ∧
      ¬ ∀ entry sets nals, hevcCodec.inForce entry nals = .ok sets →
        hevcSubsamples entry (framed 4 offsetSlice) =
          hevcSubsamples sets (framed 4 offsetSlice) := by
  refine ⟨by decide +kernel, by decide +kernel, by decide +kernel, ?_⟩
  intro hall
  obtain ⟨sets, hsets⟩ := exists_ok_of_isOk
    (x := hevcCodec.inForce (entrySets []) [smallSps, offsetPps])
    (by decide +kernel)
  have hwith : ((hevcCodec.inForce (entrySets []) [smallSps, offsetPps]).map
      fun sets => hevcSubsamples sets (framed 4 offsetSlice)) =
        .ok (some (.ok [(9, 4)])) := by decide +kernel
  have hwithout : hevcSubsamples (entrySets []) (framed 4 offsetSlice) =
      some (.error (.invalidMedia "a slice names an unknown PPS")) := by
    decide +kernel
  rw [hsets] at hwith
  have hread : hevcSubsamples sets (framed 4 offsetSlice) =
      some (.ok [(9, 4)]) := Except.ok.inj hwith
  rw [← hall (entrySets []) sets _ hsets, hwithout] at hread
  cases hread

theorem slices_split_by_sample_resent :
    (VideoParameters.hevc (entrySets [smallSps, plainPps])).SplitsRun resentRun
      [[(19, 4)], [(7, 6)]] :=
  slices_split_by_sample (by decide +kernel)

end Segmentor
