import Segmentor.SampleIndexLookups

/-!
# Tracks and the media index

What planning and packaging read of a parsed file.  A track's samples are
valid, in decode order and not empty, its timescale is not zero, and it is
named after its kind; the tracks of one file have different ids.  The parser refuses every other file.
-/

namespace Segmentor

inductive TrackKind
  | audio
  | video
  deriving DecidableEq, Repr

/-- A track's name in URLs: there is one video track, and audio tracks are
numbered from one in file order. -/
structure TrackKey where
  kind : TrackKind
  ordinal : ℕ
  deriving DecidableEq, Repr

def TrackKey.video : TrackKey where
  kind := .video
  ordinal := 1

def TrackKey.audio (ordinal : ℕ) : TrackKey where
  kind := .audio
  ordinal := ordinal

structure Track where
  id : ℕ
  key : TrackKey
  kind : TrackKind
  timescale : ℕ
  samples : SampleIndex
  id_lt : id < 2 ^ 32
  timescale_pos : 0 < timescale
  timescale_lt : timescale < 2 ^ 32
  samples_valid : samples.Valid
  samples_nonempty : 0 < samples.len
  key_kind : key.kind = kind := by rfl

/-- Whether a track can have these numbers and samples. -/
def Track.passes (id timescale : ℕ) (samples : SampleIndex) : Bool :=
  decide (id < 2 ^ 32 ∧ 0 < timescale ∧ timescale < 2 ^ 32 ∧ 0 < samples.len) &&
    samples.check

theorem Track.passes_iff {id timescale : ℕ} {samples : SampleIndex} :
    Track.passes id timescale samples = true ↔
      (id < 2 ^ 32 ∧ 0 < timescale ∧ timescale < 2 ^ 32 ∧ 0 < samples.len) ∧
        samples.check = true := by
  rw [passes, Bool.and_eq_true, decide_eq_true_eq]

/-- The track of numbers and samples that were checked, named after its
kind. -/
def Track.checked (id : ℕ) (key : TrackKey) (timescale : ℕ)
    (samples : SampleIndex) (h : Track.passes id timescale samples = true) :
    Track where
  id := id
  key := key
  kind := key.kind
  timescale := timescale
  samples := samples
  id_lt := (passes_iff.mp h).1.1
  timescale_pos := (passes_iff.mp h).1.2.1
  timescale_lt := (passes_iff.mp h).1.2.2.1
  samples_valid := SampleIndex.valid_of_check (passes_iff.mp h).2
  samples_nonempty := (passes_iff.mp h).1.2.2.2

structure MediaIndex where
  tracks : List Track
  ids_unique : (tracks.map Track.id).Nodup

theorem Track.decodeTime_lt (track : Track) {index : ℕ}
    (hindex : index < track.samples.len) :
    track.samples.decodeTime index < 2 ^ 64 := by
  have := track.samples_valid.sample_end_lt hindex
  omega

theorem MediaIndex.eq_of_id_eq (index : MediaIndex) {a b : Track}
    (ha : a ∈ index.tracks) (hb : b ∈ index.tracks) (hid : a.id = b.id) :
    a = b :=
  List.inj_on_of_nodup_map index.ids_unique ha hb hid

end Segmentor
