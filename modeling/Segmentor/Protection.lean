import Segmentor.KeySchedule

/-!
# Protection by content keys

How each segment of each track of an encrypted asset is protected, built once
when the asset is loaded.
-/

namespace Segmentor

open General

/-- Of `crypt + skip` blocks, how many are encrypted; both zero for all. -/
structure Pattern where
  crypt : ℕ
  skip : ℕ
  deriving DecidableEq, Repr

/-- Video: one block in ten. -/
def Pattern.video : Pattern where
  crypt := 1
  skip := 9

/-- Audio: every whole block. -/
def Pattern.full : Pattern where
  crypt := 0
  skip := 0

def TrackKind.pattern : TrackKind → Pattern
  | .video => .video
  | .audio => .full

/-- A `seig` entry. -/
inductive SampleGroup
  | clear
  | encrypted (cryptByteBlock skipByteBlock : ℕ)
      (keyId constantIv : List UInt8)
  deriving DecidableEq, Repr

/-- How a fragment says which key protects it when that is not the init
segment's. -/
structure FragmentRotation where
  group : Option SampleGroup
  /-- Whole `pssh` boxes, back to back. -/
  pssh : List UInt8
  deriving DecidableEq, Repr

structure TrackProtection where
  key : ContentKey
  kind : TrackKind
  rotation : Option FragmentRotation
  deriving DecidableEq, Repr

/-- Each track's protection, by its id. -/
abbrev TrackProtections : Type := List (ℕ × TrackProtection)

inductive PeriodContent
  | encrypted (tracks : TrackProtections)
  | clear (rotation : FragmentRotation)
  deriving DecidableEq, Repr

structure PeriodProtection where
  firstSegment : ℕ
  content : PeriodContent
  deriving DecidableEq, Repr

/-- How one segment of one track is protected. -/
inductive SegmentProtection
  | encrypted (protection : TrackProtection)
  | clear (rotation : FragmentRotation)
  deriving DecidableEq, Repr

structure AssetProtection where
  encryption : Encryption
  /-- The first encrypted period's, which the init segments declare. -/
  tracks : TrackProtections
  pssh : List (List UInt8)
  /-- Empty when one key covers everything. -/
  periods : List PeriodProtection
  deriving DecidableEq, Repr

def systemPssh (period : PeriodKeys) : List (List UInt8) :=
  period.systems.filterMap DrmSystem.pssh

/-- A track's protection under `period`'s keys; under other keys than
`primary`'s a fragment says so. -/
def trackProtection (period primary : PeriodKeys) (rotating : Bool)
    (kind : TrackKind) : TrackProtection :=
  let key := period.keyFor kind
  { key := key
    kind := kind
    rotation :=
      if rotating then
        some
          { group :=
              if key ≠ primary.keyFor kind then
                some (.encrypted kind.pattern.crypt kind.pattern.skip
                  key.keyId key.iv)
              else none
            pssh := (systemPssh period).flatten }
      else none }

def trackProtections (period primary : PeriodKeys) (tracks : List Track)
    (rotating : Bool) : TrackProtections :=
  tracks.map fun track =>
    (track.id, trackProtection period primary rotating track.kind)

/-- Every fragment of a clear period says that it is. -/
def clearRotation : FragmentRotation where
  group := some .clear
  pssh := []

def periodProtection (primary : PeriodKeys) (tracks : List Track)
    (period : ScheduledPeriod) : PeriodProtection where
  firstSegment := period.firstSegment
  content :=
    match period.keys with
    | some keys => .encrypted (trackProtections keys primary tracks true)
    | none => .clear clearRotation

namespace AssetProtection

def new (encryption : Encryption) (tracks : List Track)
    (plan : SegmentPlan) : Result AssetProtection := do
  let periods ←
    (if encryption.isRotating then do
      let scheduled ← schedule encryption tracks plan
      .ok (scheduled.map (periodProtection encryption.toPeriodKeys tracks))
    else .ok [] : Result (List PeriodProtection))
  .ok
    { encryption := encryption
      tracks := trackProtections encryption.toPeriodKeys
        encryption.toPeriodKeys tracks encryption.isRotating
      pssh := systemPssh encryption.toPeriodKeys
      periods := periods }

end AssetProtection

def TrackProtections.get (tracks : TrackProtections) (trackId : ℕ) :
    Option TrackProtection :=
  (tracks.find? fun entry => entry.1 == trackId).map Prod.snd

/-- How `trackId`'s segment `segmentIndex` is protected. -/
def AssetProtection.forSegment (protection : AssetProtection)
    (segmentIndex trackId : ℕ) : Option SegmentProtection :=
  if protection.periods.isEmpty then
    (protection.tracks.get trackId).map .encrypted
  else do
    let next := partitionPoint
      (fun period => decide (period.firstSegment ≤ segmentIndex))
      protection.periods
    let current ← checkedSub next 1
    let period ← protection.periods[current]?
    match period.content with
    | .encrypted tracks => (tracks.get trackId).map .encrypted
    | .clear rotation => some (.clear rotation)

end Segmentor
