import Segmentor.BoxRoundTrip
import Segmentor.FragmentReader
import Segmentor.General.Carry
import Segmentor.General.Stretch
import Mathlib.Tactic.Ring

/-!
# Where a fragment's data is

A `moof` says where the data of its tracks is: a `traf` starts at its base
data offset, at the `moof`, or where the data of the `traf` before it ended.
`ruleOffsets` follows these rules with every track's own `trex` defaults.
`trackSamples` measures the other tracks' runs without them, so its offsets
are the file's exactly where nothing it needs was left unmeasured.
-/

namespace Segmentor

open General

/-! ## The `trex` defaults -/

/-- One `trex` box: its track and its defaults. -/
def parseTrex : Reader (ℕ × TrackDefaults) := do
  let _ ← Reader.fullBox
  let trackId ← Reader.u32
  -- The default sample description index.
  let _ ← Reader.skip 4
  let duration ← Reader.u32
  let size ← Reader.u32
  let flags ← Reader.u32
  return (trackId, { duration := duration, size := size, flags := flags })

/-- The `trex` boxes of an `mvex` payload, the one read last first. -/
def parseDefaults (mvex : List UInt8) : Result (List (ℕ × TrackDefaults)) := do
  let children ← childBoxes mvex
  let defaults ←
    (children.filter fun child => child.name == code 't' 'r' 'e' 'x').mapM
      fun trex => parseTrex.run' trex.payload
  .ok defaults.reverse

/-- A track's defaults, empty where no `trex` names it. -/
def defaultsOf (defaults : List (ℕ × TrackDefaults)) (trackId : ℕ) :
    TrackDefaults :=
  (defaults.lookup trackId).getD {}

/-! ## What the boxes list -/

/-- A `trun` as far as sizes go: an entry that lists no size has `none`. -/
structure RunShape where
  dataOffset : Option ℤ
  sizes : List (Option ℕ)
  deriving DecidableEq, Repr

/-- A `traf` as far as sizes go. -/
structure TrafShape where
  header : TrackFragmentHeader
  runs : List RunShape
  deriving DecidableEq, Repr

/-- A `moof` as far as sizes go. -/
structure MoofShape where
  offset : ℕ
  trafs : List TrafShape
  deriving DecidableEq, Repr

/-- The size an entry of a `trun` lists. -/
def listedSize (flags : ℕ) : Reader (Option ℕ) := do
  let _ ← Reader.optional (hasFlag flags SAMPLE_DURATION) Reader.u32
  let size ← Reader.optional (hasFlag flags SAMPLE_SIZE) Reader.u32
  let _ ← Reader.optional (hasFlag flags SAMPLE_FLAGS) Reader.u32
  let _ ← Reader.optional (hasFlag flags SAMPLE_COMPOSITION_OFFSET) Reader.u32
  return size

def listedSizes (flags : ℕ) : ℕ → Reader (List (Option ℕ))
  | 0 => pure []
  | count + 1 => do
      let size ← listedSize flags
      let sizes ← listedSizes flags count
      return size :: sizes

def parseRunShape : Reader RunShape := do
  let (_, flags) ← Reader.fullBoxFlags
  let count ← Reader.u32
  let dataOffset ← Reader.optional (hasFlag flags DATA_OFFSET) Reader.i32
  let _ ← Reader.optional (hasFlag flags FIRST_SAMPLE_FLAGS) Reader.u32
  let sizes ← (if hasFlag flags SAMPLE_SIZE then listedSizes flags count
    else pure (List.replicate count none) : Reader (List (Option ℕ)))
  return { dataOffset := dataOffset, sizes := sizes }

def parseTrafShape (traf : RawBox) : Result TrafShape := do
  let tfhd ← requiredChild traf.payload (code 't' 'f' 'h' 'd')
  let header ← parseTrackFragmentHeader.run' tfhd.payload
  let children ← childBoxes traf.payload
  let runs ←
    (children.filter fun child => child.name == code 't' 'r' 'u' 'n').mapM
      fun trun => parseRunShape.run' trun.payload
  .ok { header := header, runs := runs }

def parseMoofShape (fragment : Fragment) : Result MoofShape := do
  let moof ← boxPayload fragment.bytes 0
  let children ← childBoxes moof.payload
  let trafs ←
    (children.filter fun child => child.name == code 't' 'r' 'a' 'f').mapM
      parseTrafShape
  .ok { offset := fragment.offset, trafs := trafs }

/-! ## The file's rules -/

/-- Where samples of these sizes start, when the first starts at `start`. -/
def startsFrom : ℤ → List ℕ → List ℤ
  | _, [] => []
  | start, size :: sizes => start :: startsFrom (start + size) sizes

namespace RunShape

/-- The sizes of the run's samples. -/
def sizesWith (size : ℕ) (run : RunShape) : List ℕ :=
  run.sizes.map fun listed => listed.getD size

/-- Where the run's data starts. -/
def start (run : RunShape) (base cursor : ℤ) : ℤ :=
  match run.dataOffset with
  | some dataOffset => base + dataOffset
  | none => cursor

/-- Where the run's data ends. -/
def stop (size : ℕ) (base cursor : ℤ) (run : RunShape) : ℤ :=
  run.start base cursor + (run.sizesWith size).sum

/-- How many of the run's samples list no size. -/
def unsized (run : RunShape) : ℕ :=
  run.sizes.countP fun listed => listed.isNone

end RunShape

/-- Where the samples of runs that follow each other start. -/
def runOffsets (size : ℕ) (base : ℤ) : ℤ → List RunShape → List ℤ
  | _, [] => []
  | cursor, run :: runs =>
      startsFrom (run.start base cursor) (run.sizesWith size) ++
        runOffsets size base (run.stop size base cursor) runs

namespace TrafShape

/-- Whether the data starts where the `traf` before it ended. -/
def isLegacy (traf : TrafShape) : Bool :=
  traf.header.baseDataOffset.isNone && !traf.header.defaultBaseIsMoof

/-- Where the `traf`'s data starts. -/
def base (traf : TrafShape) (moofOffset previousEnd : ℤ) : ℤ :=
  match traf.header.baseDataOffset with
  | some offset => offset
  | none => if traf.header.defaultBaseIsMoof then moofOffset else previousEnd

/-- The size of a sample that lists none, given its track's default. -/
def fallback (traf : TrafShape) (size : ℕ) : ℕ :=
  traf.header.defaultSize.getD size

/-- Where the samples start. -/
def offsets (size : ℕ) (base : ℤ) (traf : TrafShape) : List ℤ :=
  runOffsets size base base traf.runs

/-- Where the data ends. -/
def stop (size : ℕ) (base : ℤ) (traf : TrafShape) : ℤ :=
  traf.runs.foldl (RunShape.stop size base) base

end TrafShape

/-- Where the samples of `trackId` start in trafs that follow each other,
where `sizeOf` is the size of a sample that lists none. -/
def trafOffsets (sizeOf : TrafShape → ℕ) (trackId : ℕ) (moofOffset : ℤ) :
    ℤ → List TrafShape → List ℤ
  | _, [] => []
  | previousEnd, traf :: trafs =>
      let base := traf.base moofOffset previousEnd
      (if traf.header.trackId = trackId then traf.offsets (sizeOf traf) base
        else []) ++
        trafOffsets sizeOf trackId moofOffset (traf.stop (sizeOf traf) base)
          trafs

/-- The size of a sample that lists none: its `traf`'s default, else its
track's. -/
def ruleSize (defaults : List (ℕ × TrackDefaults)) (traf : TrafShape) : ℕ :=
  traf.fallback (defaultsOf defaults traf.header.trackId).size

/-- Where the samples of `trackId` start in a file: the first `traf` of a
`moof` may start at the `moof`. -/
def moofOffsets (sizeOf : TrafShape → ℕ) (trackId : ℕ)
    (moofs : List MoofShape) : List ℤ :=
  moofs.flatMap fun moof =>
    trafOffsets sizeOf trackId moof.offset moof.offset moof.trafs

/-- Where the file's own rules put the samples of a track. -/
def ruleOffsets (defaults : List (ℕ × TrackDefaults)) (trackId : ℕ)
    (moofs : List MoofShape) : List ℤ :=
  moofOffsets (ruleSize defaults) trackId moofs

/-! ## What a measure without the `trex` defaults misses -/

/-- The size `trackSamples` gives a sample that lists none: the `trex`
default is known for the track asked for only. -/
def readSize (defaults : List (ℕ × TrackDefaults)) (trackId : ℕ)
    (traf : TrafShape) : ℕ :=
  traf.fallback
    (if traf.header.trackId = trackId then (defaultsOf defaults trackId).size
      else 0)

/-- How many samples a `traf`'s end depends on that only the `trex` gives a
size. -/
def TrafShape.unmeasured (traf : TrafShape) : ℕ :=
  if traf.header.defaultSize.isNone then
    carried (fun run => run.dataOffset.isNone) RunShape.unsized traf.runs
  else 0

/-- The bytes by which a `traf` ends late when it is measured for `trackId`. -/
def owed (defaults : List (ℕ × TrackDefaults)) (trackId : ℕ)
    (traf : TrafShape) : ℕ :=
  if traf.header.trackId = trackId then 0
  else traf.unmeasured * (defaultsOf defaults traf.header.trackId).size

/-- No sample of the track starts where the data of other tracks ended whose
size only their `trex` gives. -/
def NothingOwed (defaults : List (ℕ × TrackDefaults)) (trackId : ℕ)
    (trafs : List TrafShape) : Prop :=
  ∀ earlier other between traf after,
    trafs = earlier ++ other :: between ++ traf :: after →
    traf.header.trackId = trackId → traf.isLegacy = true →
    (∃ run ∈ traf.runs, run.sizes ≠ []) →
    (∀ passed ∈ between, passed.isLegacy = true) →
    other.header.trackId ≠ trackId →
    (defaultsOf defaults other.header.trackId).size ≠ 0 →
    other.unmeasured = 0

namespace RunShape

variable {size : ℕ} {base cursor shift : ℤ} {run : RunShape}

theorem sum_sizesWith (size : ℕ) (run : RunShape) :
    (run.sizesWith size).sum = (run.sizesWith 0).sum + run.unsized * size := by
  unfold sizesWith unsized
  induction run.sizes with
  | nil => simp
  | cons listed sizes ih =>
      cases listed with
      | none =>
          simp only [List.map_cons, List.sum_cons, Option.getD_none,
            Option.isNone_none, List.countP_cons_of_pos, ih]
          ring
      | some listed =>
          simp only [List.map_cons, List.sum_cons, Option.getD_some,
            Option.isNone_some, Bool.false_eq_true, not_false_eq_true,
            List.countP_cons_of_neg, ih]
          ring

theorem start_add (run : RunShape) (base cursor shift : ℤ) :
    run.start (base + shift) (cursor + shift) =
      run.start base cursor + shift := by
  unfold start
  cases run.dataOffset with
  | none => rfl
  | some dataOffset =>
      dsimp only
      ring

theorem stop_add (size : ℕ) (base cursor shift : ℤ) (run : RunShape) :
    run.stop size (base + shift) (cursor + shift) =
      run.stop size base cursor + shift := by
  unfold stop
  rw [start_add]
  ring

/-- What a run carries forward of samples without a size. -/
theorem stop_carry (size : ℕ) (base cursor : ℤ) (amount : ℕ)
    (run : RunShape) :
    run.stop size base (cursor + amount * size) =
      run.stop 0 base cursor +
        carry (fun run => run.dataOffset.isNone) unsized amount run *
          size := by
  unfold stop carry start
  rw [sum_sizesWith]
  cases hdata : run.dataOffset with
  | none =>
      simp only [hdata, Option.isNone_none, if_true]
      push_cast
      ring
  | some dataOffset =>
      simp only [hdata, Option.isNone_some, Bool.false_eq_true, if_false]
      push_cast
      ring

end RunShape

theorem startsFrom_add (start shift : ℤ) (sizes : List ℕ) :
    startsFrom (start + shift) sizes =
      (startsFrom start sizes).map (· + shift) := by
  induction sizes generalizing start with
  | nil => rfl
  | cons size sizes ih =>
      rw [startsFrom, startsFrom, List.map_cons, ← ih]
      congr 2
      ring

theorem runOffsets_add (size : ℕ) (base shift cursor : ℤ)
    (runs : List RunShape) :
    runOffsets size (base + shift) (cursor + shift) runs =
      (runOffsets size base cursor runs).map (· + shift) := by
  induction runs generalizing cursor with
  | nil => rfl
  | cons run runs ih =>
      rw [runOffsets, runOffsets, List.map_append, RunShape.start_add,
        startsFrom_add, RunShape.stop_add, ih]

theorem runOffsets_eq_nil_iff {size : ℕ} {base cursor : ℤ}
    {runs : List RunShape} :
    runOffsets size base cursor runs = [] ↔ ∀ run ∈ runs, run.sizes = [] := by
  induction runs generalizing cursor with
  | nil => simp [runOffsets]
  | cons run runs ih =>
      rw [runOffsets, List.append_eq_nil_iff, ih, List.forall_mem_cons]
      apply and_congr_left'
      unfold RunShape.sizesWith
      cases run.sizes <;> simp [startsFrom]

theorem map_add_eq_self_iff {offsets : List ℤ} {shift : ℤ} :
    offsets.map (· + shift) = offsets ↔ offsets = [] ∨ shift = 0 := by
  constructor
  · intro h
    cases offsets with
    | nil => exact .inl rfl
    | cons offset offsets =>
        have hhead : offset + shift = offset := (List.cons.inj h).1
        exact .inr (by omega)
  · rintro (rfl | rfl) <;> simp

namespace TrafShape

variable {size : ℕ} {defaults : List (ℕ × TrackDefaults)} {trackId : ℕ}

theorem stop_add (size : ℕ) (base shift : ℤ) (traf : TrafShape) :
    traf.stop size (base + shift) = traf.stop size base + shift := by
  unfold stop
  suffices hruns : ∀ (runs : List RunShape) (cursor : ℤ),
      runs.foldl (RunShape.stop size (base + shift)) (cursor + shift) =
        runs.foldl (RunShape.stop size base) cursor + shift by
    exact hruns traf.runs base
  intro runs
  induction runs with
  | nil => exact fun cursor => rfl
  | cons run runs ih =>
      intro cursor
      rw [List.foldl_cons, List.foldl_cons, RunShape.stop_add, ih]

theorem offsets_add (size : ℕ) (base shift : ℤ) (traf : TrafShape) :
    traf.offsets size (base + shift) =
      (traf.offsets size base).map (· + shift) :=
  runOffsets_add size base shift base traf.runs

theorem stop_carried (size : ℕ) (base : ℤ) (traf : TrafShape) :
    traf.stop size base =
      traf.stop 0 base +
        carried (fun run => run.dataOffset.isNone) RunShape.unsized
          traf.runs * size := by
  unfold stop carried
  suffices hruns : ∀ (runs : List RunShape) (cursor : ℤ) (amount : ℕ),
      runs.foldl (RunShape.stop size base) (cursor + amount * size) =
        runs.foldl (RunShape.stop 0 base) cursor +
          runs.foldl (carry (fun run => run.dataOffset.isNone)
            RunShape.unsized) amount * size by
    simpa using hruns traf.runs base 0
  intro runs
  induction runs with
  | nil => exact fun cursor amount => rfl
  | cons run runs ih =>
      intro cursor amount
      rw [List.foldl_cons, List.foldl_cons, List.foldl_cons,
        RunShape.stop_carry, ih]

/-- By how much a `traf` ends late when it is measured for `trackId`. -/
theorem stop_ruleSize (base : ℤ) (traf : TrafShape) :
    traf.stop (ruleSize defaults traf) base =
      traf.stop (readSize defaults trackId traf) base +
        owed defaults trackId traf := by
  unfold ruleSize readSize owed unmeasured fallback
  by_cases hwanted : traf.header.trackId = trackId
  · simp [hwanted]
  · rw [if_neg hwanted, if_neg hwanted]
    cases traf.header.defaultSize with
    | some size => simp
    | none =>
        simp only [Option.getD_none, Option.isNone_none, if_true]
        rw [stop_carried]
        push_cast
        ring

theorem base_add (traf : TrafShape) (moofOffset previousEnd : ℤ)
    (amount : ℕ) :
    traf.base moofOffset (previousEnd + amount) =
      traf.base moofOffset previousEnd +
        ((if traf.isLegacy then amount else 0 : ℕ) : ℤ) := by
  unfold base isLegacy
  cases traf.header.baseDataOffset with
  | some offset => simp
  | none => cases traf.header.defaultBaseIsMoof <;> simp

theorem ruleSize_eq_readSize {traf : TrafShape}
    (hwanted : traf.header.trackId = trackId) :
    ruleSize defaults traf = readSize defaults trackId traf := by
  unfold ruleSize readSize
  rw [if_pos hwanted, hwanted]

end TrafShape

/-- The offsets read are the file's exactly where no `traf` of the track with
samples starts at an end that was measured short. -/
theorem trafOffsets_eq_iff {defaults : List (ℕ × TrackDefaults)}
    {trackId : ℕ} {moofOffset : ℤ} (trafs : List TrafShape)
    (previousEnd : ℤ) (amount : ℕ) :
    trafOffsets (readSize defaults trackId) trackId moofOffset previousEnd
        trafs =
      trafOffsets (ruleSize defaults) trackId moofOffset
        (previousEnd + amount) trafs ↔
    ∀ before traf after, trafs = before ++ traf :: after →
      traf.header.trackId = trackId → traf.isLegacy = true →
      (∃ run ∈ traf.runs, run.sizes ≠ []) →
      before.foldl (carry TrafShape.isLegacy (owed defaults trackId))
        amount = 0 := by
  induction trafs generalizing previousEnd amount with
  | nil => simp [trafOffsets]
  | cons traf trafs ih =>
      have hbase := traf.base_add moofOffset previousEnd amount
      have hstop :
          traf.stop (ruleSize defaults traf)
              (traf.base moofOffset (previousEnd + amount)) =
            traf.stop (readSize defaults trackId traf)
                (traf.base moofOffset previousEnd) +
              carry TrafShape.isLegacy (owed defaults trackId) amount
                traf := by
        rw [hbase, traf.stop_add, traf.stop_ruleSize]
        unfold carry
        push_cast
        ring
      have hlater := ih
        (traf.stop (readSize defaults trackId traf)
          (traf.base moofOffset previousEnd))
        (carry TrafShape.isLegacy (owed defaults trackId) amount traf)
      rw [trafOffsets, trafOffsets, forall_place_cons_iff]
      simp only [List.foldl_cons, List.foldl_nil]
      rw [← hlater, hstop]
      by_cases hwanted : traf.header.trackId = trackId
      · rw [if_pos hwanted, if_pos hwanted, hbase,
          TrafShape.ruleSize_eq_readSize hwanted, traf.offsets_add]
        constructor
        · intro h
          obtain ⟨hhead, htail⟩ := List.append_inj h (by simp)
          refine ⟨?_, htail⟩
          rintro - hlegacy ⟨run, hrun, hsizes⟩
          rcases map_add_eq_self_iff.mp hhead.symm with hempty | hshift
          · exact absurd (runOffsets_eq_nil_iff.mp hempty run hrun) hsizes
          · rw [if_pos hlegacy] at hshift
            exact_mod_cast hshift
        · rintro ⟨hhead, htail⟩
          rw [htail]
          congr 1
          symm
          apply map_add_eq_self_iff.mpr
          by_cases hlegacy : traf.isLegacy = true
          · by_cases hsamples : ∃ run ∈ traf.runs, run.sizes ≠ []
            · right
              rw [if_pos hlegacy]
              exact_mod_cast hhead hwanted hlegacy hsamples
            · left
              push Not at hsamples
              exact runOffsets_eq_nil_iff.mpr hsamples
          · right
            rw [if_neg hlegacy]
            rfl
      · rw [if_neg hwanted, if_neg hwanted, List.nil_append, List.nil_append]
        simp [hwanted]

theorem nothingOwed_iff {defaults : List (ℕ × TrackDefaults)} {trackId : ℕ}
    {trafs : List TrafShape} :
    NothingOwed defaults trackId trafs ↔
      ∀ before traf after, trafs = before ++ traf :: after →
        traf.header.trackId = trackId → traf.isLegacy = true →
        (∃ run ∈ traf.runs, run.sizes ≠ []) →
        carried TrafShape.isLegacy (owed defaults trackId) before = 0 := by
  simp only [carried_eq_zero_iff]
  constructor
  · intro h before traf after hsplit hwanted hlegacy hsamples earlier other
      between hbefore hbetween
    unfold owed
    by_cases hother : other.header.trackId = trackId
    · rw [if_pos hother]
    · rw [if_neg hother]
      by_cases hsize : (defaultsOf defaults other.header.trackId).size = 0
      · rw [hsize, Nat.mul_zero]
      · rw [h earlier other between traf after (by rw [hsplit, hbefore])
          hwanted hlegacy hsamples hbetween hother hsize, Nat.zero_mul]
  · intro h earlier other between traf after hsplit hwanted hlegacy hsamples
      hbetween hother hsize
    have howed := h (earlier ++ other :: between) traf after hsplit hwanted
      hlegacy hsamples earlier other between rfl hbetween
    unfold owed at howed
    rw [if_neg hother] at howed
    exact (Nat.mul_eq_zero.mp howed).resolve_right hsize

/-! ## What a run that is read measures -/

/-- Where samples start. -/
def offsetsOf (samples : List Sample) : List ℤ :=
  samples.map fun sample => (sample.offset : ℤ)

@[simp] theorem offsetsOf_append (samples others : List Sample) :
    offsetsOf (samples ++ others) = offsetsOf samples ++ offsetsOf others :=
  List.map_append

namespace Run

variable {run : Run} {version flags : ℕ} {firstFlags : Option ℕ}
  {unread rest : List UInt8} {state next : RunState}

/-- From `state`, samples of these sizes from `start` on have been measured,
and kept if they are wanted. -/
structure Measured (run : Run) (start : ℤ) (state next : RunState)
    (sizes : List ℕ) : Prop where
  offset_eq : (next.offset : ℤ) = start + sizes.sum
  samples_eq : offsetsOf next.samples =
    offsetsOf state.samples ++ if run.keep then startsFrom start sizes else []

theorem field_eq_ok {present : Bool} {fallback value : ℕ}
    (h : (field present fallback).run unread = .ok (value, rest)) :
    ∃ listed, (Reader.optional present Reader.u32).run unread =
        .ok (listed, rest) ∧
      value = listed.getD fallback := by
  cases present with
  | true =>
      refine ⟨some value, ?_, rfl⟩
      rw [Reader.run_optional_true]
      have hread : Reader.u32.run unread = .ok (value, rest) := h
      rw [hread]
      rfl
  | false =>
      obtain ⟨rfl, rfl⟩ := Prod.mk.inj (Except.ok.inj h)
      exact ⟨none, rfl, rfl⟩

theorem entryFlags_eq_ok {index value : ℕ}
    (h : (run.entryFlags flags firstFlags index).run unread =
      .ok (value, rest)) :
    ∃ listed, (Reader.optional (hasFlag flags SAMPLE_FLAGS) Reader.u32).run
      unread = .ok (listed, rest) := by
  unfold entryFlags at h
  split at h
  · next heq =>
      rw [heq, Reader.run_optional_true, h]
      exact ⟨some value, rfl⟩
  · next heq =>
      obtain ⟨rfl, rfl⟩ := Prod.mk.inj (Except.ok.inj h)
      rw [heq]
      exact ⟨none, rfl⟩
  · next heq _ =>
      obtain ⟨rfl, rfl⟩ := Prod.mk.inj (Except.ok.inj h)
      rw [heq]
      exact ⟨none, rfl⟩

theorem entryCompositionOffset_eq_ok {value : ℤ}
    (h : (entryCompositionOffset version flags).run unread =
      .ok (value, rest)) :
    ∃ listed, (Reader.optional (hasFlag flags SAMPLE_COMPOSITION_OFFSET)
      Reader.u32).run unread = .ok (listed, rest) := by
  unfold entryCompositionOffset at h
  by_cases hlisted : hasFlag flags SAMPLE_COMPOSITION_OFFSET = true
  · rw [if_pos hlisted] at h
    rw [hlisted, Reader.run_optional_true]
    split at h
    · obtain ⟨offset, after, hread, hchecked⟩ := Reader.run_bind_eq_ok h
      split at hchecked
      · obtain ⟨-, rfl⟩ := Prod.mk.inj (Except.ok.inj hchecked)
        rw [hread]
        exact ⟨some offset, rfl⟩
      · cases hchecked
    · obtain ⟨bytes, after, htake, hpure⟩ := Reader.run_bind_eq_ok h
      obtain ⟨-, rfl⟩ := Prod.mk.inj (Except.ok.inj hpure)
      refine ⟨some (decode bytes), ?_⟩
      unfold Reader.u32
      rw [StateT.run_bind, htake]
      rfl
  · rw [if_neg hlisted] at h
    obtain ⟨-, rfl⟩ := Prod.mk.inj (Except.ok.inj h)
    rw [Bool.not_eq_true] at hlisted
    rw [hlisted]
    exact ⟨none, rfl⟩

theorem place_measured {duration size sampleFlags : ℕ}
    {compositionOffset : ℤ}
    (h : run.place state duration size sampleFlags compositionOffset =
      .ok next) :
    run.Measured state.offset state next [size] := by
  unfold place at h
  obtain ⟨stop, hstop, h⟩ := bind_eq_ok_iff.mp h
  obtain ⟨samples, hsamples, h⟩ := bind_eq_ok_iff.mp h
  obtain ⟨decodeTime, -, h⟩ := bind_eq_ok_iff.mp h
  cases h
  have hend := (checkedAdd_eq_some_iff.mp (okOr_eq_ok_iff.mp hstop)).2
  constructor
  · rw [← hend]
    simp
  · dsimp only
    split at hsamples
    · next hkeep =>
        split at hsamples
        · cases hsamples
        · cases hsamples
          rw [if_pos hkeep, offsetsOf_append]
          rfl
    · next hkeep =>
        cases hsamples
        rw [if_neg hkeep, List.append_nil]

theorem Measured.nil (run : Run) (state : RunState) :
    run.Measured state.offset state state [] := by
  constructor
  · simp
  · simp [startsFrom]

theorem Measured.cons {start : ℤ} {middle : RunState} {size : ℕ}
    {sizes : List ℕ} (h : run.Measured start state middle [size])
    (hrest : run.Measured middle.offset middle next sizes) :
    run.Measured start state next (size :: sizes) := by
  have hmiddle : (middle.offset : ℤ) = start + size := by
    simpa using h.offset_eq
  constructor
  · rw [hrest.offset_eq, hmiddle, List.sum_cons]
    push_cast
    ring
  · rw [hrest.samples_eq, h.samples_eq, hmiddle, List.append_assoc]
    by_cases hkeep : run.keep
    · simp [hkeep, startsFrom]
    · simp [hkeep]

theorem readEntry_measured {index : ℕ}
    (h : (run.readEntry version flags firstFlags index state).run unread =
      .ok (next, rest)) :
    ∃ listed, (listedSize flags).run unread = .ok (listed, rest) ∧
      run.Measured state.offset state next
        [listed.getD run.defaultSize] := by
  unfold readEntry at h
  obtain ⟨duration, afterDuration, hduration, h⟩ := Reader.run_bind_eq_ok h
  obtain ⟨size, afterSize, hsize, h⟩ := Reader.run_bind_eq_ok h
  obtain ⟨sampleFlags, afterFlags, hflags, h⟩ := Reader.run_bind_eq_ok h
  obtain ⟨composition, after, hcomposition, h⟩ := Reader.run_bind_eq_ok h
  obtain ⟨listedDuration, hlistedDuration, -⟩ := field_eq_ok hduration
  obtain ⟨listed, hlisted, rfl⟩ := field_eq_ok hsize
  obtain ⟨listedFlags, hlistedFlags⟩ := entryFlags_eq_ok hflags
  obtain ⟨listedOffset, hlistedOffset⟩ :=
    entryCompositionOffset_eq_ok hcomposition
  obtain ⟨hplace, rfl⟩ := Reader.run_lift_eq_ok h
  refine ⟨listed, ?_, place_measured hplace⟩
  unfold listedSize
  rw [StateT.run_bind, hlistedDuration, ok_bind, StateT.run_bind, hlisted,
    ok_bind, StateT.run_bind, hlistedFlags, ok_bind, StateT.run_bind,
    hlistedOffset, ok_bind]
  rfl

theorem readEntries_measured {count index : ℕ}
    (h : (run.readEntries version flags firstFlags count index state).run
      unread = .ok (next, rest)) :
    ∃ listed, (listedSizes flags count).run unread = .ok (listed, rest) ∧
      run.Measured state.offset state next
        (listed.map fun size => size.getD run.defaultSize) := by
  induction count generalizing index state unread with
  | zero =>
      obtain ⟨rfl, rfl⟩ := Prod.mk.inj (Except.ok.inj h)
      exact ⟨[], rfl, Measured.nil run state⟩
  | succ count ih =>
      unfold readEntries at h
      obtain ⟨middle, afterFirst, hfirst, h⟩ := Reader.run_bind_eq_ok h
      obtain ⟨listed, hlisted, hmeasured⟩ := readEntry_measured hfirst
      obtain ⟨others, hothers, hrest⟩ := ih h
      refine ⟨listed :: others, ?_, hmeasured.cons hrest⟩
      unfold listedSizes
      rw [StateT.run_bind, hlisted, ok_bind, StateT.run_bind, hothers, ok_bind]
      rfl

/-- Where no entry lists a size, none is found. -/
theorem listedSizes_unlisted {count : ℕ} {listed : List (Option ℕ)}
    (hflag : hasFlag flags SAMPLE_SIZE = false)
    (h : (listedSizes flags count).run unread = .ok (listed, rest)) :
    listed = List.replicate count none := by
  induction count generalizing unread listed rest with
  | zero =>
      obtain ⟨rfl, -⟩ := Prod.mk.inj (Except.ok.inj h)
      rfl
  | succ count ih =>
      unfold listedSizes at h
      obtain ⟨size, afterFirst, hsize, h⟩ := Reader.run_bind_eq_ok h
      obtain ⟨sizes, after, hsizes, h⟩ := Reader.run_bind_eq_ok h
      have hlisted := (Prod.mk.inj (Except.ok.inj h)).1
      rw [← hlisted, List.replicate_succ, ih hsizes]
      congr 1
      unfold listedSize at hsize
      obtain ⟨_, afterDuration, -, hsize⟩ := Reader.run_bind_eq_ok hsize
      obtain ⟨found, afterSize, hfound, hsize⟩ := Reader.run_bind_eq_ok hsize
      obtain ⟨_, afterFlags, -, hsize⟩ := Reader.run_bind_eq_ok hsize
      obtain ⟨_, afterOffset, -, hsize⟩ := Reader.run_bind_eq_ok hsize
      obtain ⟨rfl, -⟩ := Prod.mk.inj (Except.ok.inj hsize)
      rw [hflag, Reader.run_optional_false] at hfound
      exact (Prod.mk.inj (Except.ok.inj hfound)).1.symm

theorem readBody_measured {count maxSamples : ℕ}
    (h : (run.readBody version flags count firstFlags state maxSamples).run
      unread = .ok (next, rest)) :
    ∃ listed after,
      (if hasFlag flags SAMPLE_SIZE then listedSizes flags count
        else pure (List.replicate count none) :
          Reader (List (Option ℕ))).run unread = .ok (listed, after) ∧
      run.Measured state.offset state next
        (listed.map fun size => size.getD run.defaultSize) := by
  unfold readBody at h
  obtain ⟨remaining, unread, hremaining, hbody⟩ := Reader.run_bind_eq_ok h
  obtain ⟨rfl, rfl⟩ := Prod.mk.inj (Except.ok.inj hremaining)
  split at hbody
  · cases hbody
  split at hbody
  · cases hbody
  split at hbody
  · next hskipped =>
      obtain ⟨hkeep, hflag⟩ := hskipped
      rw [if_neg hflag]
      refine ⟨List.replicate count none, unread, rfl, ?_⟩
      obtain ⟨hmeasured, -⟩ := Reader.run_lift_eq_ok hbody
      obtain ⟨total, htotal, hstate⟩ := bind_eq_ok_iff.mp hmeasured
      cases hstate
      obtain ⟨bytes, hbytes, hsum⟩ := Option.bind_eq_some_iff.mp
        (okOr_eq_ok_iff.mp htotal)
      have hproduct := (checkedMul_eq_some_iff.mp hbytes).2
      have hend := (checkedAdd_eq_some_iff.mp hsum).2
      constructor
      · rw [← hend, ← hproduct]
        simp
      · rw [if_neg hkeep, List.append_nil]
  · next hread =>
      obtain ⟨listed, hlisted, hmeasured⟩ := readEntries_measured hbody
      by_cases hflag : hasFlag flags SAMPLE_SIZE = true
      · rw [if_pos hflag]
        exact ⟨listed, rest, hlisted, hmeasured⟩
      · rw [if_neg hflag]
        rw [listedSizes_unlisted (by simpa using hflag) hlisted] at hmeasured
        exact ⟨List.replicate count none, unread, rfl, hmeasured⟩

theorem start_eq_ok {dataOffset : Option ℤ} {sizes : List (Option ℕ)}
    {cursor offset : ℕ} (h : run.start cursor dataOffset = .ok offset) :
    (offset : ℤ) = RunShape.start ⟨dataOffset, sizes⟩ run.base cursor := by
  unfold Run.start at h
  unfold RunShape.start
  cases dataOffset with
  | none =>
      cases h
      rfl
  | some dataOffset =>
      dsimp only at h ⊢
      split at h
      · next hrange =>
          cases h
          exact Int.toNat_of_nonneg hrange.1
      · cases h

/-- A run that is read measures what its box lists. -/
theorem read_measured {payload : List UInt8} {maxSamples : ℕ}
    (h : run.read payload state maxSamples = .ok next) :
    ∃ shape, parseRunShape.run' payload = .ok shape ∧
      run.Measured (shape.start run.base state.offset) state next
        (shape.sizesWith run.defaultSize) := by
  unfold read at h
  obtain ⟨rest, hread⟩ := Reader.run'_eq_ok_iff.mp h
  obtain ⟨⟨version, flags⟩, afterFlags, hflags, hcount⟩ :=
    Reader.run_bind_eq_ok hread
  obtain ⟨count, afterCount, hcount, hoffset⟩ := Reader.run_bind_eq_ok hcount
  obtain ⟨dataOffset, afterOffset, hoffset, hlift⟩ :=
    Reader.run_bind_eq_ok hoffset
  obtain ⟨offset, afterStart, hlift, hfirst⟩ := Reader.run_bind_eq_ok hlift
  obtain ⟨hstart, rfl⟩ := Reader.run_lift_eq_ok hlift
  obtain ⟨firstFlags, afterFirst, hfirst, hbody⟩ := Reader.run_bind_eq_ok hfirst
  obtain ⟨listed, after, hlisted, hmeasured⟩ := readBody_measured hbody
  refine ⟨⟨dataOffset, listed⟩, ?_, ?_⟩
  · rw [Reader.run'_eq_ok_iff]
    refine ⟨after, ?_⟩
    unfold parseRunShape
    rw [StateT.run_bind, hflags, ok_bind]
    dsimp only
    rw [StateT.run_bind, hcount, ok_bind, StateT.run_bind, hoffset, ok_bind,
      StateT.run_bind, hfirst, ok_bind]
    dsimp only
    rw [StateT.run_bind, hlisted, ok_bind]
    rfl
  · rw [← start_eq_ok hstart]
    exact ⟨hmeasured.offset_eq, hmeasured.samples_eq⟩

/-- From `state`, runs that follow each other have been measured. -/
structure AllMeasured (run : Run) (state : RunState) (runs : List RunShape)
    (final : RunState) : Prop where
  offset_eq : (final.offset : ℤ) =
    runs.foldl (RunShape.stop run.defaultSize run.base) state.offset
  samples_eq : offsetsOf final.samples = offsetsOf state.samples ++
    if run.keep then runOffsets run.defaultSize run.base state.offset runs
    else []

theorem AllMeasured.nil (run : Run) (state : RunState) :
    run.AllMeasured state [] state := by
  constructor
  · rfl
  · simp [runOffsets]

theorem AllMeasured.cons {shape : RunShape} {runs : List RunShape}
    {final : RunState}
    (h : run.Measured (shape.start run.base state.offset) state next
      (shape.sizesWith run.defaultSize))
    (hrest : run.AllMeasured next runs final) :
    run.AllMeasured state (shape :: runs) final := by
  have hstop : (next.offset : ℤ) =
      shape.stop run.defaultSize run.base state.offset := h.offset_eq
  constructor
  · rw [hrest.offset_eq, hstop]
    rfl
  · rw [hrest.samples_eq, h.samples_eq, hstop, List.append_assoc]
    by_cases hkeep : run.keep
    · simp [hkeep, runOffsets]
    · simp [hkeep]

theorem foldlM_read_measured {truns : List RawBox} {final : RunState}
    {maxSamples : ℕ}
    (h : truns.foldlM
      (fun state (trun : RawBox) => run.read trun.payload state maxSamples)
      state = .ok final) :
    ∃ runs, truns.mapM (fun (trun : RawBox) =>
        parseRunShape.run' trun.payload) = .ok runs ∧
      run.AllMeasured state runs final := by
  apply exists_mapM_of_foldlM (R := run.AllMeasured) (AllMeasured.nil run) _ h
  intro state trun next hread
  obtain ⟨shape, hshape, hmeasured⟩ := read_measured hread
  exact ⟨shape, hshape, fun runs final => AllMeasured.cons hmeasured⟩

end Run

/-! ## What a track that is read measures -/

/-- The query for a track of a file with these `trex` defaults. -/
def trackQuery (defaults : List (ℕ × TrackDefaults)) (trackId sourceLen : ℕ)
    (limits : LimitsConfig) : TrackQuery where
  trackId := trackId
  defaults := defaultsOf defaults trackId
  sourceLen := sourceLen
  limits := limits

section

variable {defaults : List (ℕ × TrackDefaults)} {trackId sourceLen : ℕ}
  {limits : LimitsConfig} {state next : TrackState}

theorem defaultSize_trackQuery_run (header : TrackFragmentHeader) (base : ℕ)
    (runs : List RunShape) :
    ((trackQuery defaults trackId sourceLen limits).run header
        base).defaultSize =
      readSize defaults trackId ⟨header, runs⟩ := by
  unfold Run.defaultSize readSize TrafShape.fallback TrackQuery.run trackQuery
  dsimp only
  by_cases hwanted : header.trackId = trackId
  · simp [hwanted]
  · simp [hwanted]

theorem cast_trackQuery_base (header : TrackFragmentHeader)
    (moofOffset previousEnd : ℕ) (runs : List RunShape) :
    (TrackQuery.base header moofOffset previousEnd : ℤ) =
      TrafShape.base ⟨header, runs⟩ moofOffset previousEnd := by
  unfold TrackQuery.base TrafShape.base
  cases header.baseDataOffset with
  | some offset => rfl
  | none => cases header.defaultBaseIsMoof <;> rfl

theorem readTraf_measured {moofOffset : ℕ} {traf : RawBox}
    (h : (trackQuery defaults trackId sourceLen limits).readTraf moofOffset
      state traf = .ok next) :
    ∃ shape, parseTrafShape traf = .ok shape ∧
      (next.previousEnd : ℤ) = shape.stop (readSize defaults trackId shape)
        (shape.base moofOffset state.previousEnd) ∧
      offsetsOf next.samples = offsetsOf state.samples ++
        if shape.header.trackId = trackId then
          shape.offsets (readSize defaults trackId shape)
            (shape.base moofOffset state.previousEnd)
        else [] := by
  unfold TrackQuery.readTraf at h
  obtain ⟨tfhd, htfhd, h⟩ := bind_eq_ok_iff.mp h
  obtain ⟨header, hheader, h⟩ := bind_eq_ok_iff.mp h
  dsimp only at h
  obtain ⟨tfdt, -, h⟩ := bind_eq_ok_iff.mp h
  obtain ⟨decodeTime, -, h⟩ := bind_eq_ok_iff.mp h
  obtain ⟨children, hchildren, h⟩ := bind_eq_ok_iff.mp h
  obtain ⟨final, hfinal, h⟩ := bind_eq_ok_iff.mp h
  cases h
  obtain ⟨runs, hruns, hmeasured⟩ := Run.foldlM_read_measured hfinal
  refine ⟨⟨header, runs⟩, ?_, ?_, ?_⟩
  · unfold parseTrafShape
    rw [htfhd, ok_bind, hheader, ok_bind, hchildren, ok_bind, hruns, ok_bind]
  · have hoffset := hmeasured.offset_eq
    rw [@defaultSize_trackQuery_run _ _ _ _ _ _ runs] at hoffset
    rw [hoffset, ← cast_trackQuery_base]
    rfl
  · have hsamples := hmeasured.samples_eq
    rw [@defaultSize_trackQuery_run _ _ _ _ _ _ runs] at hsamples
    rw [hsamples, ← cast_trackQuery_base]
    simp only [TrackQuery.run, trackQuery, beq_iff_eq]
    rfl

theorem foldlM_readTraf_measured {moofOffset : ℕ} {trafs : List RawBox}
    {final : TrackState}
    (h : trafs.foldlM
      ((trackQuery defaults trackId sourceLen limits).readTraf moofOffset)
      state = .ok final) :
    ∃ shapes, trafs.mapM parseTrafShape = .ok shapes ∧
      offsetsOf final.samples = offsetsOf state.samples ++
        trafOffsets (readSize defaults trackId) trackId moofOffset
          state.previousEnd shapes := by
  apply exists_mapM_of_foldlM
    (R := fun state shapes final =>
      offsetsOf final.samples = offsetsOf state.samples ++
        trafOffsets (readSize defaults trackId) trackId moofOffset
          state.previousEnd shapes) _ _ h
  · intro state
    simp [trafOffsets]
  · intro state traf next hread
    obtain ⟨shape, hshape, hend, hsamples⟩ := readTraf_measured hread
    refine ⟨shape, hshape, ?_⟩
    intro shapes final hfinal
    rw [hfinal, hsamples, hend, List.append_assoc]
    rfl

theorem readFragment_measured {fragment : Fragment}
    (h : (trackQuery defaults trackId sourceLen limits).readFragment state
      fragment = .ok next) :
    ∃ moof, parseMoofShape fragment = .ok moof ∧
      offsetsOf next.samples = offsetsOf state.samples ++
        trafOffsets (readSize defaults trackId) trackId moof.offset
          moof.offset moof.trafs := by
  unfold TrackQuery.readFragment at h
  obtain ⟨moof, hmoof, h⟩ := bind_eq_ok_iff.mp h
  split at h
  · cases h
  obtain ⟨children, hchildren, h⟩ := bind_eq_ok_iff.mp h
  obtain ⟨trafs, htrafs, hsamples⟩ := foldlM_readTraf_measured h
  refine ⟨⟨fragment.offset, trafs⟩, ?_, hsamples⟩
  unfold parseMoofShape
  rw [hmoof, ok_bind, hchildren, ok_bind, htrafs, ok_bind]

/-- The offsets a track is given are measured with its own `trex` size and
with none for the other tracks. -/
theorem trackSamples_measured {fragments : List Fragment}
    {samples : List Sample}
    (h : trackSamples fragments (trackQuery defaults trackId sourceLen limits) =
      .ok samples) :
    ∃ moofs, fragments.mapM parseMoofShape = .ok moofs ∧
      offsetsOf samples =
        moofOffsets (readSize defaults trackId) trackId moofs := by
  unfold trackSamples at h
  obtain ⟨final, hfinal, h⟩ := bind_eq_ok_iff.mp h
  cases h
  suffices hfold : ∃ moofs, fragments.mapM parseMoofShape = .ok moofs ∧
      offsetsOf final.samples = offsetsOf (⟨[], 0, 0⟩ : TrackState).samples ++
        moofOffsets (readSize defaults trackId) trackId moofs by
    exact hfold
  apply exists_mapM_of_foldlM
    (R := fun state moofs final =>
      offsetsOf final.samples = offsetsOf state.samples ++
        moofOffsets (readSize defaults trackId) trackId moofs) _ _ hfinal
  · intro state
    simp [moofOffsets]
  · intro state fragment next hread
    obtain ⟨moof, hmoof, hsamples⟩ := readFragment_measured hread
    refine ⟨moof, hmoof, ?_⟩
    intro moofs final hrest
    rw [hrest, hsamples, List.append_assoc]
    rfl

end

/-! ## The offsets are the file's -/

theorem length_startsFrom (start : ℤ) (sizes : List ℕ) :
    (startsFrom start sizes).length = sizes.length := by
  induction sizes generalizing start with
  | nil => rfl
  | cons size sizes ih => rw [startsFrom, List.length_cons, List.length_cons, ih]

theorem length_runOffsets (size : ℕ) (base cursor : ℤ)
    (runs : List RunShape) :
    (runOffsets size base cursor runs).length =
      (runs.map fun run => run.sizes.length).sum := by
  induction runs generalizing cursor with
  | nil => rfl
  | cons run runs ih =>
      rw [runOffsets, List.length_append, length_startsFrom, ih,
        List.map_cons, List.sum_cons]
      simp [RunShape.sizesWith]

theorem length_trafOffsets {sizeOf otherSizeOf : TrafShape → ℕ}
    {trackId : ℕ} {moofOffset previousEnd otherEnd : ℤ}
    (trafs : List TrafShape) :
    (trafOffsets sizeOf trackId moofOffset previousEnd trafs).length =
      (trafOffsets otherSizeOf trackId moofOffset otherEnd trafs).length := by
  induction trafs generalizing previousEnd otherEnd with
  | nil => rfl
  | cons traf trafs ih =>
      rw [trafOffsets, trafOffsets, List.length_append, List.length_append, ih]
      congr 1
      split
      · unfold TrafShape.offsets
        rw [length_runOffsets, length_runOffsets]
      · rfl

/-- The offsets a track is given are those of the file's rules exactly where
no sample of it starts at the end of data that was measured without its
`trex` size. -/
theorem track_offsets_follow_rules {fragments : List Fragment}
    {defaults : List (ℕ × TrackDefaults)} {trackId sourceLen : ℕ}
    {limits : LimitsConfig} {samples : List Sample}
    (h : trackSamples fragments (trackQuery defaults trackId sourceLen limits) =
      .ok samples) :
    ∃ moofs, fragments.mapM parseMoofShape = .ok moofs ∧
      (offsetsOf samples = ruleOffsets defaults trackId moofs ↔
        ∀ moof ∈ moofs, NothingOwed defaults trackId moof.trafs) := by
  obtain ⟨moofs, hmoofs, hoffsets⟩ := trackSamples_measured h
  refine ⟨moofs, hmoofs, ?_⟩
  rw [hoffsets, ruleOffsets, moofOffsets, moofOffsets,
    flatMap_eq_flatMap_iff fun moof _ => length_trafOffsets moof.trafs]
  apply forall₂_congr
  intro moof hmoof
  rw [nothingOwed_iff]
  simpa [carried] using trafOffsets_eq_iff moof.trafs moof.offset 0

/-! ## Two tracks with the legacy base -/

/-- A `traf` of `trackId` with one `trun`. -/
def legacyTraf (trackId tfhdFlags : ℕ) (tfhdFields : List UInt8)
    (trunFlags count : ℕ) (trunFields : List UInt8) : BoxSpec :=
  (code 't' 'r' 'a' 'f', boxesBytes
    [(code 't' 'f' 'h' 'd',
      writeFullBoxFields 0 tfhdFlags ++ encode 4 trackId ++ tfhdFields),
     (code 't' 'r' 'u' 'n',
      writeFullBoxFields 0 trunFlags ++ encode 4 count ++ trunFields)])

/-- Two samples of track 2, whose size only the `trex` gives, and then one of
track 1. -/
def legacyFragment : Fragment where
  offset := 100
  bytes := boxesBytes [(code 'm' 'o' 'o' 'f', boxesBytes
    [legacyTraf 2 0 [] DATA_OFFSET 2 (encode 4 104),
     legacyTraf 1 DEFAULT_SIZE (encode 4 7) 0 1 []])]

/-- The `mvex` payload: track 2's samples are 10 bytes long. -/
def legacyMvex : List UInt8 :=
  boxesBytes [(code 't' 'r' 'e' 'x',
    writeFullBoxFields 0 0 ++ encode 4 2 ++ encode 4 1 ++ encode 4 0 ++
      encode 4 10 ++ encode 4 0)]

/-- What the fragment lists. -/
def legacyMoof : MoofShape where
  offset := 100
  trafs :=
    [⟨⟨2, none, false, none, none, none⟩, [⟨some 104, [none, none]⟩]⟩,
     ⟨⟨1, none, false, none, some 7, none⟩, [⟨none, [none]⟩]⟩]

def legacyDefaults : List (ℕ × TrackDefaults) :=
  [(2, { duration := 0, size := 10, flags := 0 })]

theorem legacy_track_two :
    ∃ samples, trackSamples [legacyFragment]
        (trackQuery legacyDefaults 2 1000 {}) = .ok samples ∧
      ∃ moofs, [legacyFragment].mapM parseMoofShape = .ok moofs ∧
        (offsetsOf samples = ruleOffsets legacyDefaults 2 moofs ↔
          ∀ moof ∈ moofs, NothingOwed legacyDefaults 2 moof.trafs) := by
  obtain ⟨samples, hsamples⟩ :=
    exists_ok_of_isOk (x := trackSamples [legacyFragment]
      (trackQuery legacyDefaults 2 1000 {})) (by decide)
  exact ⟨samples, hsamples, track_offsets_follow_rules hsamples⟩

/-- The sample of track 1 is after the 20 bytes of track 2, and is read from
where these start. -/
theorem legacy_offsets_depend_on_track :
    parseDefaults legacyMvex = .ok legacyDefaults ∧
      [legacyFragment].mapM parseMoofShape = .ok [legacyMoof] ∧
      (trackSamples [legacyFragment]
        (trackQuery legacyDefaults 1 1000 {})).map offsetsOf = .ok [204] ∧
      ruleOffsets legacyDefaults 1 [legacyMoof] = [224] ∧
      ruleOffsets legacyDefaults 2 [legacyMoof] = [204, 214] := by
  decide +kernel

end Segmentor
