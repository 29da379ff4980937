import Segmentor.Boxes
import Segmentor.Limits
import Segmentor.SampleIndex

/-!
# Samples of a fragmented file

A fragment's `moof` lists its own samples in `trun` boxes, with sizes,
durations and flags that fall back to the `tfhd` and then the `trex`
defaults.  `trackSamples` turns the fragments of a file into the samples of
one track; the runs of other tracks are measured, because the legacy base
offset starts a track's data where the previous `traf`'s ended.
-/

namespace Segmentor

open General

def hasFlag (flags flag : ℕ) : Bool :=
  flags &&& flag != 0

/-! ## `tfhd` flags -/

def BASE_DATA_OFFSET : ℕ := 0x00000001
def SAMPLE_DESCRIPTION_INDEX : ℕ := 0x00000002
def DEFAULT_DURATION : ℕ := 0x00000008
def DEFAULT_SIZE : ℕ := 0x00000010
def DEFAULT_FLAGS : ℕ := 0x00000020
def DEFAULT_BASE_IS_MOOF : ℕ := 0x00020000

/-! ## `trun` flags -/

def DATA_OFFSET : ℕ := 0x00000001
def FIRST_SAMPLE_FLAGS : ℕ := 0x00000004
def SAMPLE_DURATION : ℕ := 0x00000100
def SAMPLE_SIZE : ℕ := 0x00000200
def SAMPLE_FLAGS : ℕ := 0x00000400
def SAMPLE_COMPOSITION_OFFSET : ℕ := 0x00000800

/-- The sample flag that marks a sample as not a random-access point. -/
def NON_SYNC_SAMPLE : ℕ := 0x00010000

/-- A track's fallback sample fields from `trex`. -/
structure TrackDefaults where
  duration : ℕ := 0
  size : ℕ := 0
  flags : ℕ := 0
  deriving DecidableEq, Repr

/-- A whole `moof` box and where it is in the file. -/
structure Fragment where
  offset : ℕ
  bytes : List UInt8
  deriving DecidableEq, Repr

/-- What a `tfhd` says. -/
structure TrackFragmentHeader where
  trackId : ℕ
  baseDataOffset : Option ℕ
  defaultBaseIsMoof : Bool
  defaultDuration : Option ℕ
  defaultSize : Option ℕ
  defaultFlags : Option ℕ
  deriving DecidableEq, Repr

def parseTrackFragmentHeader : Reader TrackFragmentHeader := do
  let (_, flags) ← Reader.fullBoxFlags
  let trackId ← Reader.u32
  let baseDataOffset ←
    Reader.optional (hasFlag flags BASE_DATA_OFFSET) Reader.u64
  let _ ←
    Reader.optional (hasFlag flags SAMPLE_DESCRIPTION_INDEX) (Reader.skip 4)
  let defaultDuration ←
    Reader.optional (hasFlag flags DEFAULT_DURATION) Reader.u32
  let defaultSize ← Reader.optional (hasFlag flags DEFAULT_SIZE) Reader.u32
  let defaultFlags ← Reader.optional (hasFlag flags DEFAULT_FLAGS) Reader.u32
  return {
    trackId := trackId
    baseDataOffset := baseDataOffset
    defaultBaseIsMoof := hasFlag flags DEFAULT_BASE_IS_MOOF
    defaultDuration := defaultDuration
    defaultSize := defaultSize
    defaultFlags := defaultFlags }

/-- The `baseMediaDecodeTime` of a `tfdt`. -/
def parseDecodeTime : Reader ℕ := do
  let version ← Reader.fullBox
  if version = 1 then Reader.u64 else Reader.u32

/-- One `trun`, with everything needed to turn its entries into samples. -/
structure Run where
  header : TrackFragmentHeader
  defaults : TrackDefaults
  base : ℕ
  sourceLen : ℕ
  /-- False for another track's run, which is measured but not kept. -/
  keep : Bool

/-- Where a run has got to: the end of its data so far, the next decode time
and the samples kept. -/
structure RunState where
  offset : ℕ
  decodeTime : ℕ
  samples : List Sample
  deriving DecidableEq, Repr

namespace Run

def defaultDuration (run : Run) : ℕ :=
  run.header.defaultDuration.getD run.defaults.duration

def defaultSize (run : Run) : ℕ :=
  run.header.defaultSize.getD run.defaults.size

def defaultFlags (run : Run) : ℕ :=
  run.header.defaultFlags.getD run.defaults.flags

/-- A field of an entry: read where the run lists it, else its default. -/
def field (present : Bool) (fallback : ℕ) : Reader ℕ :=
  if present then Reader.u32 else pure fallback

/-- The flags of the entry at `index`. -/
def entryFlags (run : Run) (flags : ℕ) (firstFlags : Option ℕ) (index : ℕ) :
    Reader ℕ :=
  match hasFlag flags SAMPLE_FLAGS, index, firstFlags with
  | true, _, _ => Reader.u32
  | false, 0, some first => pure first
  | false, _, _ => pure run.defaultFlags

def entryCompositionOffset (version flags : ℕ) : Reader ℤ :=
  if hasFlag flags SAMPLE_COMPOSITION_OFFSET then
    if version = 0 then do
      let offset ← Reader.u32
      if offset < 2 ^ 31 then pure (offset : ℤ)
      else Reader.fail (invalidMedia "trun composition offset is out of range")
    else Reader.i32
  else pure 0

/-- What an entry does once its fields are read. -/
def place (run : Run) (state : RunState) (duration size sampleFlags : ℕ)
    (compositionOffset : ℤ) : Result RunState := do
  let stop ← okOr (checkedAdd (2 ^ 64) state.offset size)
    (invalidMedia "sample byte range overflow")
  let samples ←
    (if run.keep then
      if run.sourceLen < stop then
        .error (invalidMedia "sample byte range exceeds source length")
      else
        .ok (state.samples ++
          [{ offset := state.offset
             size := size
             decodeTime := state.decodeTime
             duration := duration
             compositionOffset := compositionOffset
             isSync := !hasFlag sampleFlags NON_SYNC_SAMPLE }])
    else .ok state.samples : Result (List Sample))
  let decodeTime ← okOr (checkedAdd (2 ^ 64) state.decodeTime duration)
    (invalidMedia "decode timestamp overflow")
  .ok { offset := stop, decodeTime := decodeTime, samples := samples }

/-- One entry of the run. -/
def readEntry (run : Run) (version flags : ℕ) (firstFlags : Option ℕ)
    (index : ℕ) (state : RunState) : Reader RunState := do
  let duration ← field (hasFlag flags SAMPLE_DURATION) run.defaultDuration
  let size ← field (hasFlag flags SAMPLE_SIZE) run.defaultSize
  let sampleFlags ← run.entryFlags flags firstFlags index
  let compositionOffset ← entryCompositionOffset version flags
  StateT.lift (run.place state duration size sampleFlags compositionOffset)

/-- The next `count` entries, from `index` on. -/
def readEntries (run : Run) (version flags : ℕ) (firstFlags : Option ℕ) :
    ℕ → ℕ → RunState → Reader RunState
  | 0, _, state => pure state
  | count + 1, index, state => do
      let state ← run.readEntry version flags firstFlags index state
      run.readEntries version flags firstFlags count (index + 1) state

/-- The bytes one entry takes. -/
def entrySize (flags : ℕ) : ℕ :=
  4 * ([SAMPLE_DURATION, SAMPLE_SIZE, SAMPLE_FLAGS,
    SAMPLE_COMPOSITION_OFFSET].filter fun field => hasFlag flags field).length

/-- Where the run's data starts. -/
def start (run : Run) (cursor : ℕ) (dataOffset : Option ℤ) : Result ℕ :=
  match dataOffset with
  | some dataOffset =>
      if 0 ≤ (run.base : ℤ) + dataOffset ∧
          (run.base : ℤ) + dataOffset < 2 ^ 64 then
        .ok ((run.base : ℤ) + dataOffset).toNat
      else .error (invalidMedia "trun data offset is out of range")
  | none => .ok cursor

/-- The rest of a run, once its header is read.  Another track's run whose
samples all have the default size is measured as a product. -/
def readBody (run : Run) (version flags count : ℕ) (firstFlags : Option ℕ)
    (state : RunState) (maxSamples : ℕ) : Reader RunState := do
  let remaining ← Reader.remaining
  if remaining < count * entrySize flags then
    Reader.fail (invalidMedia "trun sample count exceeds its box")
  else if run.keep ∧ maxSamples < state.samples.length + count then
    Reader.fail (invalidMedia "sample count exceeds configured limit")
  else if ¬ run.keep ∧ ¬ hasFlag flags SAMPLE_SIZE then
    StateT.lift do
      let total ← okOr
        ((checkedMul (2 ^ 64) count run.defaultSize).bind
          (checkedAdd (2 ^ 64) state.offset))
        (invalidMedia "trun data extent overflows")
      .ok { state with offset := total }
  else run.readEntries version flags firstFlags count 0 state

/-- Reads the run: appends its samples if they are wanted, and says where its
data ends. -/
def read (run : Run) (payload : List UInt8) (state : RunState)
    (maxSamples : ℕ) : Result RunState :=
  StateT.run'
    (do
      let (version, flags) ← Reader.fullBoxFlags
      let count ← Reader.u32
      let dataOffset ← Reader.optional (hasFlag flags DATA_OFFSET) Reader.i32
      let offset ← StateT.lift (run.start state.offset dataOffset)
      let firstFlags ←
        Reader.optional (hasFlag flags FIRST_SAMPLE_FLAGS) Reader.u32
      run.readBody version flags count firstFlags
        { state with offset := offset } maxSamples : Reader RunState)
    payload

end Run

/-! ## The samples of a track -/

/-- Which track is asked for, and what the parser knows of it and the file. -/
structure TrackQuery where
  trackId : ℕ
  defaults : TrackDefaults
  sourceLen : ℕ
  limits : LimitsConfig

/-- Where reading the fragments has got to. -/
structure TrackState where
  samples : List Sample
  /-- Where the track's next sample decodes, for a fragment with no
  `tfdt`. -/
  nextDecodeTime : ℕ
  /-- Where the data of the previous `traf` of the fragment ended. -/
  previousEnd : ℕ
  deriving DecidableEq, Repr

namespace TrackQuery

/-- The file's rule for where a `traf`'s data starts. -/
def base (header : TrackFragmentHeader) (moofOffset previousEnd : ℕ) : ℕ :=
  header.baseDataOffset.getD
    (if header.defaultBaseIsMoof then moofOffset else previousEnd)

/-- Where a `traf` starts decoding: its `tfdt` if the track is the one asked
for and has one, else where the track got to. -/
def startTime (query : TrackQuery) (wanted : Bool) (tfdt : Option RawBox)
    (nextDecodeTime : ℕ) : Result ℕ :=
  match tfdt with
  | some tfdt =>
      if wanted then do
        let start ← parseDecodeTime.run' tfdt.payload
        if start < nextDecodeTime then
          .error (invalidMedia ("track " ++ toString query.trackId ++
            ": a fragment starts before the previous one ended"))
        else .ok start
      else .ok nextDecodeTime
  | none => .ok nextDecodeTime

def run (query : TrackQuery) (header : TrackFragmentHeader) (base : ℕ) : Run :=
  let wanted := header.trackId == query.trackId
  { header := header
    defaults := if wanted then query.defaults else {}
    base := base
    sourceLen := query.sourceLen
    keep := wanted }

/-- One `traf` of a fragment. -/
def readTraf (query : TrackQuery) (moofOffset : ℕ) (state : TrackState)
    (traf : RawBox) : Result TrackState := do
  let tfhd ← requiredChild traf.payload (code 't' 'f' 'h' 'd')
  let header ← parseTrackFragmentHeader.run' tfhd.payload
  let base := base header moofOffset state.previousEnd
  let wanted := header.trackId == query.trackId
  let tfdt ← optionalChild traf.payload (code 't' 'f' 'd' 't')
  let decodeTime ← query.startTime wanted tfdt state.nextDecodeTime
  let children ← childBoxes traf.payload
  let final ←
    (children.filter fun child => child.name == code 't' 'r' 'u' 'n').foldlM
      (fun state trun =>
        (query.run header base).read trun.payload state
          query.limits.maxSamplesPerTrack)
      { offset := base, decodeTime := decodeTime, samples := state.samples }
  .ok
    { samples := final.samples
      nextDecodeTime :=
        if wanted then final.decodeTime else state.nextDecodeTime
      previousEnd := final.offset }

/-- One fragment: the first `traf`'s data starts at the `moof`. -/
def readFragment (query : TrackQuery) (state : TrackState)
    (fragment : Fragment) : Result TrackState := do
  let moof ← boxPayload fragment.bytes 0
  if moof.name ≠ code 'm' 'o' 'o' 'f' then
    .error (invalidMedia "fragment is not a moof box")
  else
    let children ← childBoxes moof.payload
    (children.filter fun child => child.name == code 't' 'r' 'a' 'f').foldlM
      (query.readTraf fragment.offset)
      { state with previousEnd := fragment.offset }

end TrackQuery

/-- Every sample of the track asked for, across all fragments, in decode
order. -/
def trackSamples (fragments : List Fragment) (query : TrackQuery) :
    Result (List Sample) := do
  let final ← fragments.foldlM query.readFragment ⟨[], 0, 0⟩
  .ok final.samples

end Segmentor
