import Segmentor.Limits
import Segmentor.SampleIndex

/-!
# Sample tables

The raw tables of one track as `stbl` holds them, and the two functions that
read them: `sampleIndex` builds the compact index, `expandSamples` the list of
samples.  Both walk the chunks `stsc` describes, so they share that loop and
differ in what they do with a chunk.
-/

namespace Segmentor

open General

inductive SampleSizes
  | constant (size count : ℕ)
  | table (sizes : List ℕ)
  deriving DecidableEq, Repr

namespace SampleSizes

def count : SampleSizes → ℕ
  | .constant _ count => count
  | .table sizes => sizes.length

/-- The size of each sample. -/
def expand : SampleSizes → List ℕ
  | .constant size count => List.replicate count size
  | .table sizes => sizes

def sizeOf : SampleSizes → ℕ → ℕ
  | .constant size _, _ => size
  | .table sizes, index => sizes[index]?.getD 0

end SampleSizes

/-- The raw sample tables of one track.  The parser reads every field from a
word of the file, which is what the bounds say. -/
structure SampleTables where
  /-- `(sample_count, sample_delta)` runs from `stts`. -/
  timeToSample : List (ℕ × ℕ)
  /-- `(sample_count, sample_offset)` runs from `ctts`. -/
  composition : Option (List (ℕ × ℤ))
  /-- One-based numbers of the random-access samples from `stss`. -/
  sync : Option (List ℕ)
  /-- `(first_chunk, samples_per_chunk)` runs from `stsc`. -/
  sampleToChunk : List (ℕ × ℕ)
  sizes : SampleSizes
  chunkOffsets : List ℕ
  count_lt : sizes.count < 2 ^ 32
  sizes_lt : ∀ size ∈ sizes.expand, size < 2 ^ 32
  deltas_lt : ∀ run ∈ timeToSample, run.2 < 2 ^ 32
  composition_range : ∀ runs, composition = some runs →
    ∀ run ∈ runs, -2 ^ 31 ≤ run.2 ∧ run.2 < 2 ^ 31

section StscLoop

variable {σ : Type}

/-- The chunks an `stsc` entry stands for: from its first chunk up to the
first chunk of the next entry, or to the last chunk there is. -/
def chunkNumbers (firstChunk chunkCount : ℕ) (rest : List (ℕ × ℕ)) : List ℕ :=
  List.range' firstChunk (rest.head?.elim (chunkCount + 1) Prod.fst - firstChunk)

/-- The loop over the entries of `stsc` and the chunks each stands for. -/
def forChunks (chunkCount : ℕ) (body : ℕ → σ → ℕ → Result σ) :
    List (ℕ × ℕ) → σ → Result σ
  | [], state => .ok state
  | (firstChunk, samplesPerChunk) :: rest, state =>
      if firstChunk = 0 ∨ samplesPerChunk = 0 then
        .error (invalidMedia "invalid stsc entry")
      else do
        let state ← (chunkNumbers firstChunk chunkCount rest).foldlM
          (body samplesPerChunk) state
        forChunks chunkCount body rest state

end StscLoop

/-! ## The compact index -/

/-- The chunk table while `stsc` is walked. -/
structure Chunks where
  first : List ℕ
  /-- `none` while every chunk used so far is the next one of the file. -/
  copied : Option (List ℕ)
  beyondSource : Option String
  mapped : ℕ

namespace Chunks

/-- The byte offset of each chunk used so far. -/
def offset (chunks : Chunks) (offsets : List ℕ) : List ℕ :=
  chunks.copied.getD (offsets.take chunks.first.length)

def rows (chunks : Chunks) (offsets : List ℕ) : List ChunkRow :=
  List.zipWith ChunkRow.mk chunks.first (chunks.offset offsets)

/-- Enters the next used chunk, whose samples end at `stop`. -/
def push (chunks : Chunks) (offsets : List ℕ) (chunkIndex offset stop sourceLen : ℕ) :
    Chunks where
  first := chunks.first ++ [chunks.mapped]
  copied :=
    match chunks.copied with
    | none =>
        if chunkIndex = chunks.first.length then none
        else some (offsets.take chunks.first.length ++ [offset])
    | some copied => some (copied ++ [offset])
  beyondSource :=
    if sourceLen < stop ∧ chunks.beyondSource.isNone then
      some "sample byte range exceeds source length"
    else chunks.beyondSource
  mapped := chunks.mapped

/-- What `chunks` does with one chunk of the file. -/
def step (offsets sizes : List ℕ) (sourceLen samplesPerChunk : ℕ)
    (chunks : Chunks) (chunkNumber : ℕ) : Result Chunks := do
  let chunkIndex := chunkNumber - 1
  let offset ← okOr offsets[chunkIndex]?
    (invalidMedia "stsc references a missing chunk")
  let take := min samplesPerChunk (sizes.length - chunks.mapped)
  let stop ← okOr
    (((sizes.drop chunks.mapped).take take).foldlM (checkedAdd (2 ^ 64)) offset)
    (invalidMedia "sample offset overflow")
  let entered :=
    if 0 < take then chunks.push offsets chunkIndex offset stop sourceLen
    else chunks
  if take < samplesPerChunk then
    .error (invalidMedia "stsc maps more samples than stsz")
  else .ok { entered with mapped := chunks.mapped + take }

end Chunks

/-- Each chunk's first sample and offset, from `stsc` and `stco`/`co64`. -/
def chunks (sampleToChunk : List (ℕ × ℕ)) (offsets sizes : List ℕ)
    (sourceLen : ℕ) : Result Chunks := do
  if sampleToChunk.isEmpty then
    .error (invalidMedia "missing stsc entries")
  else
    let chunks ← forChunks offsets.length (Chunks.step offsets sizes sourceLen)
      sampleToChunk ⟨[], none, none, 0⟩
    if chunks.mapped ≠ sizes.length then
      .error (invalidMedia "stsc maps fewer samples than stsz")
    else .ok chunks

def sttsMismatch : Error :=
  invalidMedia "stts entry count does not match sample count"

def cttsMismatch : Error :=
  invalidMedia "ctts entry count does not match sample count"

structure TimingRuns where
  rows : List TimeRow
  decodeTime : ℕ
  position : ℕ

def TimingRuns.step (sampleCount : ℕ) (timing : TimingRuns)
    (run : ℕ × ℕ) : Result TimingRuns :=
  if sampleCount < timing.position + run.1 then .error sttsMismatch
  else if run.1 = 0 then .ok timing
  else do
    let decodeTime ← okOr
      ((checkedMul (2 ^ 64) run.1 run.2).bind
        (checkedAdd (2 ^ 64) timing.decodeTime))
      (invalidMedia "decode timestamp overflow")
    .ok
      { rows := timing.rows ++ [⟨timing.position, timing.decodeTime, run.2⟩]
        decodeTime := decodeTime
        position := timing.position + run.1 }

/-- Timing runs from `stts`. -/
def timingRuns (runs : List (ℕ × ℕ)) (sampleCount : ℕ) :
    Result (List TimeRow) := do
  let timing ← runs.foldlM (TimingRuns.step sampleCount) ⟨[], 0, 0⟩
  if timing.position ≠ sampleCount then .error sttsMismatch
  else .ok timing.rows

structure CompositionRuns where
  rows : List CompositionRow
  position : ℕ

def CompositionRuns.step (sampleCount : ℕ) (runs : CompositionRuns)
    (run : ℕ × ℤ) : Result CompositionRuns :=
  if sampleCount < runs.position + run.1 then .error cttsMismatch
  else if run.1 = 0 then .ok runs
  else
    .ok
      { rows := runs.rows ++ [⟨runs.position, run.2⟩]
        position := runs.position + run.1 }

/-- Composition runs from `ctts`. -/
def compositionRuns (runs : List (ℕ × ℤ)) (sampleCount : ℕ) :
    Result (List CompositionRow) := do
  let composition ←
    runs.foldlM (CompositionRuns.step sampleCount) ⟨[], 0⟩
  if composition.position ≠ sampleCount then .error cttsMismatch
  else .ok composition.rows

/-- The sync samples of the track, ascending and unique: `stss` lists
one-based numbers in no required order, and those outside the track are
ignored. -/
def syncSamples (numbers : List ℕ) (sampleCount : ℕ) : List ℕ :=
  (((numbers.filterMap fun number => checkedSub number 1).filter
    fun index => index < sampleCount).mergeSort
      fun a b => decide (a ≤ b)).destutter (· ≠ ·)

/-- Builds the compact index of the tables, checking what expanding them
would. -/
def sampleIndex (tables : SampleTables) (sourceLen : ℕ)
    (limits : LimitsConfig) : Result SampleIndex := do
  let sampleCount := tables.sizes.count
  if limits.maxSamplesPerTrack < sampleCount then
    .error (invalidMedia "sample count exceeds configured limit")
  else
    let sizes := tables.sizes.expand
    let chunks ←
      chunks tables.sampleToChunk tables.chunkOffsets sizes sourceLen
    let times ← timingRuns tables.timeToSample sampleCount
    let composition ← tables.composition.elim (.ok []) fun runs =>
      compositionRuns runs sampleCount
    match chunks.beyondSource with
    | some message => .error (invalidMedia message)
    | none =>
        .ok (SampleIndex.new
          { sizes := sizes
            chunks := chunks.rows tables.chunkOffsets
            times := times
            composition := composition
            sync := tables.sync.map fun numbers =>
              syncSamples numbers sampleCount })

/-! ## The expansion -/

/-- The samples of one chunk: `remaining` more of them, from `offset` on. -/
def placeSamples (sizes : SampleSizes) (sampleCount : ℕ) :
    ℕ → ℕ → List Sample → Result (List Sample)
  | 0, _, samples => .ok samples
  | remaining + 1, offset, samples =>
      if samples.length = sampleCount then
        .error (invalidMedia "stsc maps more samples than stsz")
      else do
        let size := sizes.sizeOf samples.length
        let next ← okOr (checkedAdd (2 ^ 64) offset size)
          (invalidMedia "sample offset overflow")
        placeSamples sizes sampleCount remaining next
          (samples ++ [⟨offset, size, 0, 0, 0, true⟩])

/-- What `sample_positions` does with one chunk of the file. -/
def positionsStep (tables : SampleTables) (sampleCount samplesPerChunk : ℕ)
    (samples : List Sample) (chunkNumber : ℕ) : Result (List Sample) := do
  let offset ← okOr tables.chunkOffsets[chunkNumber - 1]?
    (invalidMedia "stsc references a missing chunk")
  placeSamples tables.sizes sampleCount samplesPerChunk offset samples

/-- Every sample's size and byte offset. -/
def samplePositions (tables : SampleTables) (sampleCount : ℕ) :
    Result (List Sample) := do
  if tables.sampleToChunk.isEmpty then
    .error (invalidMedia "missing stsc entries")
  else
    let samples ← forChunks tables.chunkOffsets.length
      (positionsStep tables sampleCount) tables.sampleToChunk []
    if samples.length ≠ sampleCount then
      .error (invalidMedia "stsc maps fewer samples than stsz")
    else .ok samples

/-- Times the `remaining` samples of a run from `position` on. -/
def setTimes (delta : ℕ) :
    ℕ → ℕ → List Sample → ℕ → Result (List Sample × ℕ)
  | 0, _, samples, decodeTime => .ok (samples, decodeTime)
  | remaining + 1, position, samples, decodeTime => do
      let timed := samples.modify position fun sample =>
        { sample with decodeTime := decodeTime, duration := delta }
      let next ← okOr (checkedAdd (2 ^ 64) decodeTime delta)
        (invalidMedia "decode timestamp overflow")
      setTimes delta remaining (position + 1) timed next

structure TimedSamples where
  samples : List Sample
  decodeTime : ℕ
  position : ℕ

def TimedSamples.step (timed : TimedSamples) (run : ℕ × ℕ) :
    Result TimedSamples :=
  if timed.samples.length < timed.position + run.1 then .error sttsMismatch
  else do
    let (samples, decodeTime) ←
      setTimes run.2 run.1 timed.position timed.samples timed.decodeTime
    .ok ⟨samples, decodeTime, timed.position + run.1⟩

/-- Decode times and durations from `stts` runs. -/
def applyTimes (samples : List Sample) (runs : List (ℕ × ℕ)) :
    Result (List Sample) := do
  let timed ← runs.foldlM TimedSamples.step ⟨samples, 0, 0⟩
  if timed.position ≠ timed.samples.length then .error sttsMismatch
  else .ok timed.samples

/-- Sets the composition offset of the `remaining` samples of a run. -/
def setOffsets (offset : ℤ) : ℕ → ℕ → List Sample → List Sample
  | 0, _, samples => samples
  | remaining + 1, position, samples =>
      setOffsets offset remaining (position + 1)
        (samples.modify position fun sample =>
          { sample with compositionOffset := offset })

structure ComposedSamples where
  samples : List Sample
  position : ℕ

def ComposedSamples.step (composed : ComposedSamples) (run : ℕ × ℤ) :
    Result ComposedSamples :=
  if composed.samples.length < composed.position + run.1 then
    .error cttsMismatch
  else
    .ok
      { samples := setOffsets run.2 run.1 composed.position composed.samples
        position := composed.position + run.1 }

/-- Composition offsets from `ctts` runs. -/
def applyComposition (samples : List Sample) (runs : List (ℕ × ℤ)) :
    Result (List Sample) := do
  let composed ← runs.foldlM ComposedSamples.step ⟨samples, 0⟩
  if composed.position ≠ composed.samples.length then .error cttsMismatch
  else .ok composed.samples

/-- Marks the sample with a one-based number, if there is one. -/
def markSync (samples : List Sample) (number : ℕ) : List Sample :=
  (checkedSub number 1).elim samples fun index =>
    samples.modify index fun sample => { sample with isSync := true }

/-- Marks the listed samples, and no others, as sync samples. -/
def applySync (samples : List Sample) (numbers : List ℕ) : List Sample :=
  numbers.foldl markSync
    (samples.map fun sample => { sample with isSync := false })

def checkWithinSource (sourceLen : ℕ) (sample : Sample) : Result Unit := do
  let stop ← okOr (checkedAdd (2 ^ 64) sample.offset sample.size)
    (invalidMedia "sample byte range overflow")
  if sourceLen < stop then
    .error (invalidMedia "sample byte range exceeds source length")
  else .ok ()

/-- One record per sample: the expansion the compact index replaced. -/
def expandSamples (tables : SampleTables) (sourceLen : ℕ)
    (limits : LimitsConfig) : Result (List Sample) := do
  let sampleCount := tables.sizes.count
  if limits.maxSamplesPerTrack < sampleCount then
    .error (invalidMedia "sample count exceeds configured limit")
  else
    let samples ← samplePositions tables sampleCount
    let samples ← applyTimes samples tables.timeToSample
    let samples ← tables.composition.elim (.ok samples)
      (applyComposition samples)
    let samples := tables.sync.elim samples (applySync samples)
    samples.forM (checkWithinSource sourceLen)
    .ok samples

end Segmentor
