import Segmentor.KeySchedule
import Segmentor.General.BigEndian

/-!
# The view renderers work from

Tracks, the segment plan and the keys of one media file, as the playlists and
manifests read them.
-/

namespace Segmentor

open General

/-- The key of an asset whose HLS segments are encrypted whole, and where
players fetch it. -/
structure Aes128 where
  key : List UInt8
  uri : String
  deriving DecidableEq, Repr

/-- The default initialization vector of the segment with media sequence
number `segmentIndex`: that number in sixteen bytes. -/
def Aes128.iv (segmentIndex : ℕ) : List UInt8 :=
  List.replicate 12 0 ++ encode 4 segmentIndex

theorem Aes128.iv_eq {segmentIndex : ℕ} (h : segmentIndex < 2 ^ 32) :
    Aes128.iv segmentIndex = encode 16 segmentIndex :=
  (@encode_of_lt 4 _ (by omega) 12).symm

structure Presentation where
  tracks : List Track
  plan : SegmentPlan
  version : String
  encryption : Option Encryption
  aes128 : Option Aes128

namespace Presentation

def track (presentation : Presentation) (key : TrackKey) : Result Track :=
  okOr (presentation.tracks.find? fun track => track.key == key)
    (.notFound "track does not exist")

/-- The key periods placed on the segments; empty unless the keys change over
the timeline.  A schedule that cannot be placed is refused when the asset is
loaded. -/
def keySchedule (presentation : Presentation) : List ScheduledPeriod :=
  match presentation.encryption with
  | some encryption =>
      if encryption.isRotating then
        match schedule encryption presentation.tracks presentation.plan with
        | .ok periods => periods
        | .error _ => []
      else []
  | none => []

/-- One track's segments in playback order. -/
def trackSegments (presentation : Presentation) (trackId : ℕ) :
    List TrackSegment :=
  presentation.plan.trackSegments trackId

theorem track_eq_ok {presentation : Presentation} {key : TrackKey}
    {track : Track} (h : presentation.track key = .ok track) :
    track ∈ presentation.tracks ∧ track.key = key := by
  have hfind := okOr_eq_ok_iff.mp h
  exact ⟨List.mem_of_find?_eq_some hfind,
    by simpa using List.find?_some hfind⟩

end Presentation

end Segmentor
