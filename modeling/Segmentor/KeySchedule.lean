import Segmentor.Keys
import Segmentor.SegmentPlanner

/-!
# Key periods on segments

A period of a rotating asset begins at the first segment that starts at or
after it, on the clock of the track that cuts the segments.
-/

namespace Segmentor

open General

/-- A key period placed on the segments; a clear one has no keys. -/
structure ScheduledPeriod where
  firstSegment : ℕ
  keys : Option PeriodKeys
  deriving DecidableEq, Repr

/-- When a segment starts, by the first track of it, with that track's
clock. -/
def startOf (tracks : List Track) (segment : Segment) : Option (ℕ × ℕ) := do
  let part ← segment.tracks.head?
  let track ← tracks.find? fun track => track.id == part.trackId
  some (part.decodeTime, track.timescale)

/-- Where the first segment starts. -/
def scheduleBase (tracks : List Track) (plan : SegmentPlan) : ℕ :=
  ((plan.segments.head?.bind (startOf tracks)).map Prod.fst).getD 0

/-- Whether `segment` starts at or after `startMs`, counted from `base`. -/
def startsBy (tracks : List Track) (base startMs : ℕ) (segment : Segment) :
    Bool :=
  (startOf tracks segment).any fun (time, timescale) =>
    startMs * timescale ≤ (time - base) * 1000

/-- Adds one period to those placed before it. -/
def placePeriod (tracks : List Track) (plan : SegmentPlan)
    (placed : List ScheduledPeriod) (period : KeyPeriod) :
    Result (List ScheduledPeriod) :=
  match plan.segments.find?
      (startsBy tracks (scheduleBase tracks plan) period.startMs) with
  | none => .ok placed
  | some first =>
      if placed.getLast?.any fun previous =>
          first.index ≤ previous.firstSegment then
        .error (.invalidMedia
          "two encryption periods begin in the same segment")
      else .ok (placed ++ [⟨first.index, period.keys⟩])

/-- The periods of `encryption` placed on `plan`; one that begins after the
last segment is dropped. -/
def schedule (encryption : Encryption) (tracks : List Track)
    (plan : SegmentPlan) : Result (List ScheduledPeriod) :=
  if encryption.isRotating then
    encryption.periods.foldlM (placePeriod tracks plan) []
  else .ok [⟨0, some encryption.toPeriodKeys⟩]

end Segmentor
