import Segmentor.FragmentWriter
import Segmentor.Manifests
import Segmentor.Protection

/-!
# Packaged assets

A loaded file with its plan and keys: what each request for one of its
segments prepares, and how the bytes are encrypted once they are read.
-/

namespace Segmentor

open General

/-! ## Encryption -/

/-- What is left to do to a segment once its bytes are read. -/
inductive PendingEncryption
  /-- The samples are decrypted first, then go through `followedBy`. -/
  | decrypt (header : List UInt8) (firstSample : ℕ) (sizes : List ℕ)
      (followedBy : Option PendingEncryption)
  | cbcs (trackId : ℕ) (kind : TrackKind) (samples : List Sample)
      (decodeTime sequenceNumber : ℕ) (protection : TrackProtection)
  /-- A clear segment of an asset whose keys change. -/
  | clear (trackId : ℕ) (kind : TrackKind) (samples : List Sample)
      (decodeTime sequenceNumber : ℕ) (rotation : FragmentRotation)
  /-- Header and payload encrypted together as one message. -/
  | wholeSegment (header : List UInt8) (segmentIndex : ℕ) (key : Aes128)

/-- The initialization vector of a segment that is encrypted whole. -/
def PendingEncryption.iv : PendingEncryption → Option (List UInt8)
  | .wholeSegment _ segmentIndex _ => some (Aes128.iv segmentIndex)
  | .decrypt _ _ _ (some followedBy) => followedBy.iv
  | _ => none

/-- A prepared segment and the encryption it is still to go through. -/
structure PendingSegment where
  prepared : PreparedSegment
  encryption : Option PendingEncryption

/-! ## Assets -/

/-- The tracks an HLS variant carries in one stream. -/
structure Muxed where
  video : TrackKey
  audio : TrackKey
  deriving DecidableEq, Repr

structure PackagedAsset where
  index : MediaIndex
  plan : SegmentPlan
  limits : LimitsConfig
  version : String
  protection : Option AssetProtection
  aes128 : Option Aes128
  /-- The tracks whose source is protected. -/
  decryption : List ℕ
  muxed : Option Muxed
  planned : ∃ targetDurationMs,
    Segmentor.plan index targetDurationMs limits = .ok plan
  protection_built : ∀ built ∈ protection,
    AssetProtection.new built.encryption index.tracks plan = .ok built

/-- The part of a segment that is `trackId`'s. -/
def Segment.part (segment : Segment) (trackId : ℕ) : Option TrackSegment :=
  segment.tracks.find? fun candidate => candidate.trackId == trackId

namespace PackagedAsset

def encryption (asset : PackagedAsset) : Option Encryption :=
  asset.protection.map AssetProtection.encryption

/-- The read-only view renderers work from. -/
def presentation (asset : PackagedAsset) : Presentation where
  tracks := asset.index.tracks
  plan := asset.plan
  version := asset.version
  encryption := asset.encryption
  aes128 := asset.aes128

def track (asset : PackagedAsset) (key : TrackKey) : Result Track :=
  asset.presentation.track key

/-- A segment encrypted whole, with its media sequence number. -/
def wholeSegment (key : Aes128) (header : List UInt8) (segmentIndex : ℕ) :
    PendingEncryption :=
  .wholeSegment header segmentIndex key

/-- Marks an encrypted track's segment as still to be encrypted. -/
def withEncryption (asset : PackagedAsset) (track : Track)
    (segment : TrackSegment) (sequenceNumber : ℕ)
    (prepared : PreparedSegment) : PendingSegment :=
  let samples := track.samples.toVec segment.firstSample segment.endSample
  let protection := asset.protection.bind fun protection =>
    protection.forSegment (sequenceNumber - 1) track.id
  let encryption : Option PendingEncryption :=
    match protection with
    | some (.encrypted protection) =>
        some (.cbcs track.id track.kind samples segment.decodeTime
          sequenceNumber protection)
    | some (.clear rotation) =>
        some (.clear track.id track.kind samples segment.decodeTime
          sequenceNumber rotation)
    | none => asset.aes128.map fun key =>
        wholeSegment key prepared.header (sequenceNumber - 1)
  { prepared := prepared
    encryption :=
      if track.id ∈ asset.decryption then
        some (.decrypt prepared.header
          (track.samples.start + segment.firstSample)
          (samples.map Sample.size) encryption)
      else encryption }

/-- The fragment of the track's segment `segmentIndex`, with the sequence
number the caller chose. -/
def prepareNumberedSegment (asset : PackagedAsset) (key : TrackKey)
    (segmentIndex sequenceNumber : ℕ) : Result PendingSegment := do
  let track ← asset.track key
  let segment ← okOr asset.plan.segments[segmentIndex]?
    (.notFound "segment does not exist")
  let trackSegment ← okOr (segment.part track.id)
    (.notFound "segment does not exist")
  let prepared ← Segmentor.prepareMediaSegment track trackSegment
    sequenceNumber asset.limits
  .ok (asset.withEncryption track trackSegment sequenceNumber prepared)

def prepareMediaSegment (asset : PackagedAsset) (key : TrackKey)
    (segmentIndex : ℕ) : Result PendingSegment :=
  asset.prepareNumberedSegment key segmentIndex
    (saturatingAdd (2 ^ 32) segmentIndex 1)

def muxedKeys (asset : PackagedAsset) : Result Muxed :=
  okOr asset.muxed (.notFound "track does not exist")

/-- The muxed stream's media playlist is the video's. -/
def hlsMuxedPlaylist (asset : PackagedAsset) : Result (List PlaylistLine) := do
  let muxed ← asset.muxedKeys
  mediaPlaylist asset.presentation muxed.video

/-- The part of `segment` that is the track's called `key`, if it has one. -/
def muxedPart (asset : PackagedAsset) (segment : Segment) (key : TrackKey) :
    Result (Option (Track × TrackSegment)) := do
  let track ← asset.track key
  .ok ((segment.part track.id).map fun part => (track, part))

/-- Segment `segmentIndex` of the muxed stream. -/
def prepareMuxedSegment (asset : PackagedAsset) (segmentIndex : ℕ) :
    Result PendingSegment := do
  let muxed ← asset.muxedKeys
  let segment ← okOr asset.plan.segments[segmentIndex]?
    (.notFound "segment does not exist")
  let found ← [muxed.video, muxed.audio].mapM (asset.muxedPart segment)
  let parts := found.filterMap id
  if parts.head?.all fun part => part.1.key != muxed.video then
    .error (.invalidMedia "segment is missing its video")
  else
    let prepared ← Segmentor.prepareMuxedSegment parts
      (saturatingAdd (2 ^ 32) segmentIndex 1) asset.limits
    .ok
      { prepared := prepared
        encryption := asset.aes128.map fun key =>
          wholeSegment key prepared.header segmentIndex }

end PackagedAsset

end Segmentor
