import Segmentor.Limits
import Segmentor.MediaIndex
import Segmentor.General.Tiling

/-!
# The segment planner

Cuts are decided on the reference track: the video track, whose cuts fall on
sync samples, or, with no video, the first audio track.  The remaining audio
tracks are cut at the same instants.
-/

namespace Segmentor

open General

structure TrackSegment where
  trackId : ℕ
  firstSample : ℕ
  endSample : ℕ
  decodeTime : ℕ
  duration : ℕ
  deriving DecidableEq, Repr

structure Segment where
  index : ℕ
  tracks : List TrackSegment
  deriving DecidableEq, Repr

structure SegmentPlan where
  segments : List Segment
  deriving DecidableEq, Repr

def rescale (value fromTimescale toTimescale : ℕ) : Result ℕ :=
  okOr
    ((checkedMul (2 ^ 64) value toTimescale).bind fun scaled =>
      checkedDiv scaled fromTimescale)
    (.invalidMedia "timestamp rescaling overflow")

def trackEnd (track : Track) : Result ℕ := do
  let last ← okOr track.samples.last (.invalidMedia "track contains no samples")
  okOr (checkedAdd (2 ^ 64) last.decodeTime last.duration)
    (.invalidMedia "track duration overflow")

def audioSegment (audio video : Track) (videoStart videoEnd : ℕ)
    (isFinalSegment : Bool) : Result TrackSegment := do
  let start ← rescale videoStart video.timescale audio.timescale
  let stop ← rescale videoEnd video.timescale audio.timescale
  let firstSample := audio.samples.partitionByDecodeTime start
  let endSample :=
    if isFinalSegment then audio.samples.len
    else audio.samples.partitionByDecodeTime stop
  let decodeTime :=
    if firstSample < audio.samples.len then
      audio.samples.decodeTime firstSample
    else start
  let actualEnd ←
    (if endSample = audio.samples.len then trackEnd audio
    else .ok (audio.samples.decodeTime endSample))
  .ok
    { trackId := audio.id
      firstSample := firstSample
      endSample := endSample
      decodeTime := decodeTime
      duration := actualEnd - decodeTime }

/-- Cuts where every sample may start a segment: each is the first sample at
the target, at least one past the cut before it. -/
def cutsAnywhere (samples : SampleIndex) (targetTicks : ℕ) :
    ℕ → ℕ → ℕ → List ℕ
  | 0, _, _ => []
  | fuel + 1, current, target =>
      let next := max (samples.partitionByDecodeTime target) (current + 1)
      if samples.len ≤ next then []
      else
        next :: cutsAnywhere samples targetTicks fuel next
          (saturatingAdd (2 ^ 64) (samples.decodeTime next) targetTicks)

/-- Cuts among the given sync samples: each is the first one at or after the
target. -/
def cutsAtSync (samples : SampleIndex) (targetTicks : ℕ) :
    List ℕ → ℕ → List ℕ
  | [], _ => []
  | next :: rest, target =>
      if target ≤ samples.decodeTime next then
        next :: cutsAtSync samples targetTicks rest
          (saturatingAdd (2 ^ 64) (samples.decodeTime next) targetTicks)
      else cutsAtSync samples targetTicks rest target

/-- Sample indexes at which segments start, plus the end. -/
def referenceBoundaries (reference : Track) (targetTicks : ℕ) : List ℕ :=
  let samples := reference.samples
  let target := saturatingAdd (2 ^ 64) (samples.decodeTime 0) targetTicks
  let cuts :=
    if samples.everySampleIsSync then
      cutsAnywhere samples targetTicks samples.len 0 target
    else
      cutsAtSync samples targetTicks
        (samples.syncIndices.filter fun index => 0 < index) target
  0 :: cuts ++ [samples.len]

def MediaIndex.videoTracks (index : MediaIndex) : List Track :=
  index.tracks.filter fun track => track.kind == .video

def MediaIndex.audioTracks (index : MediaIndex) : List Track :=
  index.tracks.filter fun track => track.kind == .audio

/-- The track that decides where segments are cut. -/
def MediaIndex.reference (index : MediaIndex) : Option Track :=
  index.videoTracks.head? <|> index.audioTracks.head?

/-- The audio tracks cut at the reference's instants. -/
def MediaIndex.followers (index : MediaIndex) (reference : Track) :
    List Track :=
  index.audioTracks.filter fun track => track.id != reference.id

def targetTicks (reference : Track) (targetDurationMs : ℕ) : Result ℕ :=
  okOr
    (((checkedMul (2 ^ 64) targetDurationMs reference.timescale).bind
      fun duration => checkedDiv duration 1000).filter fun duration =>
        duration != 0)
    (.invalidMedia "invalid target segment duration")

/-- When the segment ending before sample `endSample` of the reference ends. -/
def referenceTime (reference : Track) (referenceEnd endSample : ℕ) : ℕ :=
  if endSample = reference.samples.len then referenceEnd
  else reference.samples.decodeTime endSample

/-- Adds a follower's part of a segment, unless the follower has ended. -/
def addFollower (reference : Track) (decodeTime endTime : ℕ)
    (isFinalSegment : Bool) (tracks : List TrackSegment) (audio : Track) :
    Result (List TrackSegment) := do
  let part ← audioSegment audio reference decodeTime endTime isFinalSegment
  if part.firstSample = audio.samples.len then .ok tracks
  else .ok (tracks ++ [part])

/-- One segment of the plan: the reference's samples between two cuts, and
the followers' samples of the same time. -/
def planSegment (reference : Track) (followers : List Track)
    (referenceEnd : ℕ) (limits : LimitsConfig)
    (window : (ℕ × ℕ) × ℕ) : Result Segment := do
  let ((firstSample, endSample), segmentIndex) := window
  let decodeTime := reference.samples.decodeTime firstSample
  let endTime := referenceTime reference referenceEnd endSample
  let duration ← okOr (checkedSub endTime decodeTime)
    (.invalidMedia "samples are not in decode order")
  let tracks ← followers.foldlM
    (addFollower reference decodeTime endTime
      (endSample = reference.samples.len))
    [⟨reference.id, firstSample, endSample, decodeTime, duration⟩]
  if tracks.any fun track =>
      limits.maxSamplesPerSegment < track.endSample - track.firstSample then
    .error (.invalidMedia "segment sample count exceeds configured limit")
  else if 2 ^ 32 ≤ segmentIndex then
    .error (.invalidMedia "segment index overflow")
  else .ok { index := segmentIndex, tracks := tracks }

/-- The segments of a file: where each starts and ends in every track. -/
def plan (index : MediaIndex) (targetDurationMs : ℕ) (limits : LimitsConfig) :
    Result SegmentPlan := do
  if 1 < index.videoTracks.length then
    .error (.unsupported
      ("input must contain at most one video track, found " ++
        toString index.videoTracks.length))
  else
    let reference ← okOr index.reference
      (.unsupported "input has no audio or video track")
    if reference.samples.isEmpty ∨ reference.samples.nthSync 0 ≠ some 0 then
      .error (.invalidMedia "the first track must begin with a sync sample")
    else
      let ticks ← targetTicks reference targetDurationMs
      let referenceEnd ← trackEnd reference
      let segments ← (pairs (referenceBoundaries reference ticks)).zipIdx.mapM
        (planSegment reference (index.followers reference) referenceEnd limits)
      .ok { segments := segments }

/-- One track's segments in playback order. -/
def SegmentPlan.trackSegments (plan : SegmentPlan) (trackId : ℕ) :
    List TrackSegment :=
  plan.segments.filterMap fun segment =>
    segment.tracks.find? fun candidate => candidate.trackId == trackId

end Segmentor
