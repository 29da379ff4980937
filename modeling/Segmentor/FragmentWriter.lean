import Segmentor.Boxes
import Segmentor.SegmentPlanner

/-!
# Writing fragments

A fragment is a `moof` box that describes the samples of a segment, and an
`mdat` box with their bytes.  What is prepared is everything up to the
payload, and the byte ranges of the source the payload is read from.
-/

namespace Segmentor

open General

def TRUN_FLAGS : ℕ := 0x00000f01
def TFHD_DEFAULT_BASE_IS_MOOF : ℕ := 0x00020000
def SYNC_SAMPLE_FLAGS : ℕ := 0x02000000
def NON_SYNC_SAMPLE_FLAGS : ℕ := 0x01010000

structure PreparedSegment where
  header : List UInt8
  ranges : List ByteRange
  contentLength : ℕ
  deriving DecidableEq, Repr

def writeFullBoxFields (version flags : ℕ) : List UInt8 :=
  encode 1 version ++ (encode 4 flags).drop 1

def writeBoxHeader (size : ℕ) (name : List UInt8) : Result (List UInt8) :=
  if size < 2 ^ 32 then .ok (encode 4 size ++ name)
  else .error (.invalidMedia "large-size boxes are not supported")

def writeBox (name payload : List UInt8) : Result (List UInt8) := do
  let size ← okOr (checkedAdd (2 ^ 64) payload.length 8)
    (.invalidMedia "box size overflow")
  let header ← writeBoxHeader size name
  .ok (header ++ payload)

/-- The flags a sample is listed with. -/
def sampleFlags (kind : TrackKind) (sample : Sample) : ℕ :=
  match kind, sample.isSync with
  | .audio, _ => SYNC_SAMPLE_FLAGS
  | .video, true => SYNC_SAMPLE_FLAGS
  | .video, false => NON_SYNC_SAMPLE_FLAGS

/-- A sample's entry in a `trun`. -/
def trunEntry (kind : TrackKind) (sample : Sample) : List UInt8 :=
  encode 4 sample.duration ++ encode 4 sample.size ++
    encode 4 (sampleFlags kind sample) ++
    encode 4 (toWord 32 sample.compositionOffset)

/-- One track's `traf` box, its `trun` pointing `dataOffset` bytes past the
start of the `moof`. -/
def buildTraf (trackId : ℕ) (kind : TrackKind) (samples : List Sample)
    (decodeTime : ℕ) (dataOffset : ℤ) (extra : List UInt8) :
    Result (List UInt8) := do
  let tfhd := writeFullBoxFields 0 TFHD_DEFAULT_BASE_IS_MOOF ++
    encode 4 trackId
  let tfdt := writeFullBoxFields 1 0 ++ encode 8 decodeTime
  if 2 ^ 32 ≤ samples.length then
    .error (.invalidMedia "fragment has too many samples")
  else
    let trun := writeFullBoxFields 1 TRUN_FLAGS ++
      encode 4 samples.length ++ encode 4 (toWord 32 dataOffset) ++
      samples.flatMap (trunEntry kind)
    let tfhdBox ← writeBox (code 't' 'f' 'h' 'd') tfhd
    let tfdtBox ← writeBox (code 't' 'f' 'd' 't') tfdt
    let trunBox ← writeBox (code 't' 'r' 'u' 'n') trun
    writeBox (code 't' 'r' 'a' 'f') (tfhdBox ++ tfdtBox ++ trunBox ++ extra)

/-- A `moof` holding `trafs`, each a complete `traf` box, after
`moofExtra`. -/
def moofOf (sequenceNumber : ℕ) (moofExtra : List UInt8)
    (trafs : List (List UInt8)) : Result (List UInt8) := do
  let mfhd := writeFullBoxFields 0 0 ++ encode 4 sequenceNumber
  let mfhdBox ← writeBox (code 'm' 'f' 'h' 'd') mfhd
  writeBox (code 'm' 'o' 'o' 'f') (mfhdBox ++ moofExtra ++ trafs.flatten)

def buildMoof (trackId : ℕ) (kind : TrackKind) (samples : List Sample)
    (decodeTime sequenceNumber : ℕ) (dataOffset : ℤ)
    (extra moofExtra : List UInt8) : Result (List UInt8) := do
  let traf ← buildTraf trackId kind samples decodeTime dataOffset extra
  moofOf sequenceNumber moofExtra [traf]

/-- Adds a sample's range, joined to the last one where they touch. -/
def coalesce (ranges : List ByteRange) (sample : Sample) :
    Result (List ByteRange) :=
  match ranges.getLast? with
  | some previous =>
      if previous.stop = some sample.offset then do
        let length ← okOr (checkedAdd (2 ^ 64) previous.length sample.size)
          (.invalidMedia "sample range size overflow")
        .ok (ranges.dropLast ++ [{ previous with length := length }])
      else .ok (ranges ++ [⟨sample.offset, sample.size⟩])
  | none => .ok [⟨sample.offset, sample.size⟩]

def coalescedRanges (samples : List Sample) : Result (List ByteRange) :=
  samples.foldlM coalesce []

/-- The payload of the samples, if its length fits a word. -/
def payloadLength (samples : List Sample) : Result ℕ :=
  samples.foldlM
    (fun total sample => okOr (checkedAdd (2 ^ 64) total sample.size)
      (.invalidMedia "fragment payload size overflow")) 0

/-- An offset as the signed word a `trun` lists it in. -/
def signedOffset (offset : ℕ) (message : String) : Result ℤ :=
  if offset < 2 ^ 31 then .ok offset else .error (.invalidMedia message)

/-- The header of the `mdat`, and the whole fragment's length. -/
def closeHeader (moof : List UInt8) (payload : ℕ) :
    Result (List UInt8 × ℕ) := do
  let mdat ← writeBoxHeader (payload + 8) (code 'm' 'd' 'a' 't')
  let header := moof ++ mdat
  let contentLength ← okOr (checkedAdd (2 ^ 64) header.length payload)
    (.invalidMedia "fragment size overflow")
  .ok (header, contentLength)

def prepareMediaSegment (track : Track) (segment : TrackSegment)
    (sequenceNumber : ℕ) (limits : LimitsConfig) : Result PreparedSegment := do
  if segment.endSample < segment.firstSample ∨
      track.samples.len < segment.endSample then
    .error (.invalidMedia "segment sample range is invalid")
  else
    let samples := track.samples.toVec segment.firstSample segment.endSample
    if samples.isEmpty then
      .error (.invalidMedia "segment contains no samples")
    else
      let provisionalMoof ← buildMoof track.id track.kind samples
        segment.decodeTime sequenceNumber 0 [] []
      let dataOffset ← signedOffset (provisionalMoof.length + 8)
        "fragment header is too large"
      let moof ← buildMoof track.id track.kind samples segment.decodeTime
        sequenceNumber dataOffset [] []
      let payload ← payloadLength samples
      if limits.maxSegmentBytes < payload then
        .error (.invalidMedia "segment payload exceeds configured limit")
      else
        let (header, contentLength) ← closeHeader moof payload
        let ranges ← coalescedRanges samples
        .ok
          { header := header
            ranges := ranges
            contentLength := contentLength }

/-! ## Several tracks in one fragment -/

/-- A part of a fragment with its samples and their bytes. -/
structure ExpandedPart where
  track : Track
  segment : TrackSegment
  samples : List Sample
  payload : ℕ

/-- Expands the part at `index`; a part with no samples is left out, unless
it is the first. -/
def expandPart (parts : List ExpandedPart)
    (part : (Track × TrackSegment) × ℕ) : Result (List ExpandedPart) := do
  let ((track, segment), index) := part
  if segment.endSample < segment.firstSample ∨
      track.samples.len < segment.endSample then
    .error (.invalidMedia "segment sample range is invalid")
  else
    let samples := track.samples.toVec segment.firstSample segment.endSample
    if samples.isEmpty then
      if index = 0 then
        .error (.invalidMedia "segment contains no samples")
      else .ok parts
    else
      let payload ← payloadLength samples
      .ok (parts ++ [⟨track, segment, samples, payload⟩])

def partTraf (part : ExpandedPart) (offset : ℤ) : Result (List UInt8) :=
  buildTraf part.track.id part.track.kind part.samples part.segment.decodeTime
    offset []

/-- A `traf` for each part, at its offset. -/
def trafs (expanded : List ExpandedPart) (offsets : List ℤ) :
    Result (List (List UInt8)) :=
  (expanded.zip offsets).mapM fun (part, offset) => partTraf part offset

/-- Where each part's payload starts, the first at `offset`. -/
def partOffsets : ℕ → List ExpandedPart → Result (List ℤ)
  | _, [] => .ok []
  | offset, part :: rest => do
      let first ← signedOffset offset "fragment is too large"
      let others ← partOffsets (offset + part.payload) rest
      .ok (first :: others)

def totalPayload (expanded : List ExpandedPart) : Result ℕ :=
  expanded.foldlM
    (fun total part => okOr (checkedAdd (2 ^ 64) total part.payload)
      (.invalidMedia "fragment payload size overflow")) 0

/-- One fragment holding several tracks' samples for the same segment: a
`traf` for each part in order, then one `mdat` with each part's samples after
the previous part's. -/
def prepareMuxedSegment (parts : List (Track × TrackSegment))
    (sequenceNumber : ℕ) (limits : LimitsConfig) : Result PreparedSegment := do
  let expanded ← parts.zipIdx.foldlM expandPart []
  let payload ← totalPayload expanded
  if limits.maxSegmentBytes < payload then
    .error (.invalidMedia "segment payload exceeds configured limit")
  else if limits.maxSamplesPerSegment <
      (expanded.map fun part => part.samples.length).sum then
    .error (.invalidMedia "segment sample count exceeds configured limit")
  else
    let provisionalTrafs ← trafs expanded (List.replicate expanded.length 0)
    let provisionalMoof ← moofOf sequenceNumber [] provisionalTrafs
    let offsets ← partOffsets (provisionalMoof.length + 8) expanded
    let finalTrafs ← trafs expanded offsets
    let moof ← moofOf sequenceNumber [] finalTrafs
    let (header, contentLength) ← closeHeader moof payload
    let ranges ← expanded.mapM fun part => coalescedRanges part.samples
    .ok
      { header := header
        ranges := ranges.flatten
        contentLength := contentLength }

end Segmentor
