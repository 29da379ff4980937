import Segmentor.Error

/-!
# Resource limits

The limits the modelled functions read.  A configuration with a limit of zero
is refused when it is loaded, so none is built here.
-/

namespace Segmentor

theorem defaults_validated :
    0 < 64 * 1024 * 1024 ∧ 0 < 20000 ∧ 0 < 16 ∧ 0 < 2000000 ∧ 0 < 100000 ∧
      0 < 64 * 1024 * 1024 := by
  decide

structure LimitsConfig where
  maxMetadataBytes : ℕ := 64 * 1024 * 1024
  maxFragments : ℕ := 20000
  metadataConcurrency : ℕ := 16
  /-- Serve the complete fragments of a fragmented file that ends partway
  through one, instead of refusing it. -/
  tolerateTruncatedTail : Bool := false
  maxSamplesPerTrack : ℕ := 2000000
  maxSamplesPerSegment : ℕ := 100000
  maxSegmentBytes : ℕ := 64 * 1024 * 1024
  validated : 0 < maxMetadataBytes ∧ 0 < maxFragments ∧
    0 < metadataConcurrency ∧ 0 < maxSamplesPerTrack ∧
    0 < maxSamplesPerSegment ∧ 0 < maxSegmentBytes := by
      first | exact defaults_validated | decide

end Segmentor
