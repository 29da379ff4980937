import Segmentor.Presentation
import Segmentor.KeyLines
import Segmentor.ServedSubtitles

/-!
# What renderers read of a track's media

The language, label and codec of a track, the codec strings that manifests
declare, and the rates of a track's segments and keyframes.
-/

namespace Segmentor

open General

/-! ## Codecs -/

/-- The sample entry of an HEVC track: it says where the parameter sets
live. -/
inductive HevcTag
  | hvc1
  | hev1
  deriving DecidableEq, Repr

def HevcTag.text : HevcTag → Text
  | .hvc1 => "hvc1".toList
  | .hev1 => "hev1".toList

/-- What `hvcC` says of a track, as far as its codec string goes. -/
structure HevcRecord where
  tag : HevcTag
  profile : UInt8
  compatibility : BitVec 32
  constraints : List UInt8
  level : UInt8
  deriving DecidableEq, Repr

/-- What packaging needs of a track's codec.  The fields of HEVC, VP9 and AV1
that make the codec string stand here in place of the string. -/
inductive CodecConfig
  | avc (width height : ℕ) (profile compatibility level : UInt8)
  | hevc (width height : ℕ) (record : HevcRecord)
  | vp9 (width height : ℕ) (profile level depthAndSampling : UInt8)
  | av1 (width height : ℕ) (profileAndLevel flags : UInt8)
  | aac (sampleRate channels objectType : ℕ)
  | ac3 (sampleRate channels : ℕ)
  | eac3 (sampleRate channels : ℕ)
  | opus (channels : ℕ)
  | flac (sampleRate channels : ℕ)
  deriving DecidableEq, Repr

def upperHexDigit (n : ℕ) : Char :=
  if n < 10 then Char.ofNat (48 + n) else Char.ofNat (65 + (n - 10))

/-- A number in hexadecimal, without leading zeros. -/
def upperHex (n : ℕ) : Text :=
  if n = 0 then ['0'] else (Nat.digits 16 n).reverse.map upperHexDigit

/-- Profile space and idc, the compatibility flags in the other bit order,
tier and level, then the constraint bytes without trailing zeros. -/
def HevcRecord.codecs (record : HevcRecord) : Text :=
  let space : Text :=
    match record.profile.toNat / 64 with
    | 1 => ['A']
    | 2 => ['B']
    | 3 => ['C']
    | _ => []
  let tier : Char :=
    if record.profile.toNat / 32 % 2 = 0 then 'L' else 'H'
  let used := (record.constraints.reverse.dropWhile (· == 0)).reverse
  record.tag.text ++ '.' :: (space ++ decimal (record.profile.toNat % 32) ++
    '.' :: (upperHex record.compatibility.reverse.toNat ++
      '.' :: tier :: (decimal record.level.toNat ++
        used.flatMap fun byte => '.' :: upperHex byte.toNat)))

def av1Codecs (profileAndLevel flags : UInt8) : Text :=
  let tier : Char := if flags.toNat / 128 = 0 then 'M' else 'H'
  let bitDepth :=
    if flags.toNat / 64 % 2 = 0 then 8
    else if flags.toNat / 32 % 2 = 0 then 10
    else 12
  "av01.".toList ++ decimal (profileAndLevel.toNat / 32) ++
    '.' :: (padded 2 (profileAndLevel.toNat % 32) ++
      tier :: '.' :: padded 2 bitDepth)

namespace CodecConfig

/-- The codec string that manifests declare. -/
def codecs : CodecConfig → Text
  | .avc _ _ profile compatibility level =>
      "avc1.".toList ++ (hexString [profile, compatibility, level]).toList
  | .hevc _ _ record => record.codecs
  | .vp9 _ _ profile level depthAndSampling =>
      "vp09.".toList ++ padded 2 profile.toNat ++
        '.' :: (padded 2 level.toNat ++
          '.' :: padded 2 (depthAndSampling.toNat / 16))
  | .av1 _ _ profileAndLevel flags => av1Codecs profileAndLevel flags
  | .aac _ _ objectType => "mp4a.40.".toList ++ decimal objectType
  | .ac3 _ _ => "ac-3".toList
  | .eac3 _ _ => "ec-3".toList
  | .opus _ => "opus".toList
  | .flac _ _ => "fLaC".toList

/-- Width and height in pixels, for video codecs. -/
def dimensions : CodecConfig → Option (ℕ × ℕ)
  | .avc width height .. | .hevc width height _ | .vp9 width height ..
  | .av1 width height .. => some (width, height)
  | _ => none

/-- Sample rate and channel count, for audio codecs.  Opus always decodes at
48 kHz. -/
def audioFormat : CodecConfig → Option (ℕ × ℕ)
  | .aac sampleRate channels _ | .ac3 sampleRate channels
  | .eac3 sampleRate channels | .flac sampleRate channels =>
      some (sampleRate, channels)
  | .opus channels => some (48000, channels)
  | _ => none

end CodecConfig

/-! ## Languages -/

/-- The language `mdhd` packs: three five-bit letters after a padding bit,
each an offset from `0x60`. -/
def packedLanguage (packed : ℕ) : Text :=
  [10, 5, 0].map fun shift => Char.ofNat (packed / 2 ^ shift % 32 + 0x60)

/-- A track's three-letter language, where it has one. -/
def trackLanguage (language : Text) : Option Text :=
  if language.length = 3 ∧ language.all Char.isLower ∧
      language ≠ "und".toList then
    some language
  else none

/-! ## Details -/

structure TrackDetails where
  language : Text
  /-- The name a mapper gave the audio. -/
  label : Option Text
  duration : ℕ
  codec : CodecConfig
  deriving DecidableEq, Repr

/-- The view of a media file with all that playlists and manifests declare of
it; `details` are those of the track with an id. -/
structure MediaPresentation extends Presentation where
  details : ℕ → TrackDetails
  subtitles : List Subtitle
  /-- Whether HLS video segments carry the default audio track. -/
  muxedAudio : Bool
  /-- Whether HLS offers I-frame playlists. -/
  iframes : Bool

structure Bandwidth where
  average : ℕ
  peak : ℕ
  deriving DecidableEq, Repr

namespace MediaPresentation

variable (presentation : MediaPresentation)

/-- The video track, absent in an audio-only asset. -/
def video : Option Track :=
  presentation.tracks.find? fun track => track.kind == .video

/-- Audio tracks in file order; the first is the default rendition. -/
def audioTracks : List Track :=
  presentation.tracks.filter fun track => track.kind == .audio

def codecs (track : Track) : Text :=
  (presentation.details track.id).codec.codecs

def dimensions (track : Track) : Option (ℕ × ℕ) :=
  (presentation.details track.id).codec.dimensions

def language (track : Track) : Option Text :=
  trackLanguage (presentation.details track.id).language

def duration (track : Track) : ℕ :=
  (presentation.details track.id).duration

/-- Whether the keys change over the timeline. -/
def rotating : Bool :=
  presentation.encryption.any Encryption.isRotating

/-- The presentation's length in seconds, rounded up. -/
def durationSeconds : ℕ :=
  ((presentation.tracks.map fun track =>
    (presentation.duration track + track.timescale - 1) /
      track.timescale).max?).getD 0

end MediaPresentation

/-! ## Rates -/

def bitsPerSecond (bytes ticks timescale : ℕ) : Option ℕ := do
  let bits ← checkedMul (2 ^ 64) bytes 8
  let scaled ← checkedMul (2 ^ 64) bits timescale
  checkedDiv scaled ticks

/-- Average is total payload over track duration; peak is the burstiest
segment. -/
def MediaPresentation.bandwidth (presentation : MediaPresentation)
    (track : Track) : Result Bandwidth := do
  let samples := track.samples
  let average ← okOr
    (bitsPerSecond (samples.payloadBytes 0 samples.len)
      (presentation.duration track) track.timescale)
    (.invalidMedia "bandwidth calculation overflow")
  let peak ← (presentation.trackSegments track.id).foldlM
    (fun peak segment =>
      if segment.endSample < segment.firstSample ∨
          samples.len < segment.endSample then
        .error (.invalidMedia "segment sample range is invalid")
      else
        let bytes :=
          samples.payloadBytes segment.firstSample segment.endSample
        match bitsPerSecond bytes segment.duration track.timescale with
        | some rate => .ok (max peak rate)
        | none => .ok peak) average
  .ok { average := average, peak := peak }

/-- A sync sample: how long it stays on screen, and how big it is. -/
structure Keyframe where
  /-- Ticks to the next keyframe, or to the end of the track. -/
  interval : ℕ
  bytes : ℕ
  deriving DecidableEq, Repr

def keyframes (track : Track) : Result (List Keyframe) := do
  let overflow : Error := .invalidMedia "keyframe interval overflow"
  let samples := track.samples
  let sync := samples.syncIndices
  let last ← okOr samples.last overflow
  let stop ← okOr (checkedAdd (2 ^ 64) last.decodeTime last.duration) overflow
  (sync.zip (sync.drop 1 |>.map some |>.concat none)).mapM
    fun (index, next) => do
      let following := (next.map samples.decodeTime).getD stop
      let interval ← okOr (checkedSub following (samples.decodeTime index))
        overflow
      .ok { interval := interval, bytes := (samples.get index).size }

/-- The largest keyframe, over the interval it stands for. -/
def peakBandwidth (frames : List Keyframe) (timescale : ℕ) : Option ℕ :=
  (frames.filterMap fun frame =>
    bitsPerSecond frame.bytes frame.interval timescale).max?

/-- All keyframes' bytes over the time they cover. -/
def averageBandwidth (frames : List Keyframe) (timescale : ℕ) : Option ℕ :=
  bitsPerSecond (frames.map Keyframe.bytes).sum
    (frames.map Keyframe.interval).sum timescale

end Segmentor
