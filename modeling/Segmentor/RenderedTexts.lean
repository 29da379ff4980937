import Segmentor.PlaylistTexts
import Segmentor.MpdTexts

/-!
# The texts of what is rendered

Master playlists, the playlists of I-frames and subtitles, and manifests keep
the texts of the presentations they are written from in their places.
-/

namespace Segmentor

open General

/-! ## Master playlists -/

/-- The codec strings collected for a variant can be quoted. -/
def SequenceVariant.CodecsFit (variant : SequenceVariant) : Prop :=
  (∀ codec ∈ variant.videoCodecs, Text.Quotable codec) ∧
    ∀ codec ∈ variant.audioCodecs, Text.Quotable codec

theorem quotable_pushDistinct {list : List Text} {value : Text}
    (hlist : ∀ codec ∈ list, Text.Quotable codec)
    (hvalue : value.Quotable) :
    ∀ codec ∈ pushDistinct list value, Text.Quotable codec := by
  unfold pushDistinct
  split
  · exact hlist
  · rw [List.forall_mem_append, List.forall_mem_singleton]
    exact ⟨hlist, hvalue⟩

theorem SequenceVariant.CodecsFit.addClip {withAudio : Bool}
    {variant next : SequenceVariant} (h : variant.CodecsFit)
    {presentation : MediaPresentation}
    (hnext : variant.addClip withAudio presentation = .ok next) :
    next.CodecsFit := by
  unfold SequenceVariant.addClip at hnext
  obtain ⟨rates, -, hnext⟩ := bind_eq_ok_iff.mp hnext
  obtain ⟨reference, -, hnext⟩ := bind_eq_ok_iff.mp hnext
  obtain ⟨weighted, -, hnext⟩ := bind_eq_ok_iff.mp hnext
  obtain ⟨totalMs, -, hnext⟩ := bind_eq_ok_iff.mp hnext
  obtain rfl := Except.ok.inj hnext
  have hvideo : ∀ counted : SequenceVariant, counted.CodecsFit →
      (presentation.video.elim counted
        (counted.addVideo presentation)).CodecsFit := by
    intro counted hcounted
    cases presentation.video with
    | none => exact hcounted
    | some track => exact ⟨quotable_pushDistinct hcounted.1
        (presentation.quotable_codecs track), hcounted.2⟩
  have haudio : ∀ (counted : SequenceVariant) (audio : Option Track),
      counted.CodecsFit → (audio.elim counted
        (counted.addAudio presentation)).CodecsFit := by
    intro counted audio hcounted
    cases audio with
    | none => exact hcounted
    | some track => exact ⟨hcounted.1, quotable_pushDistinct hcounted.2
        (presentation.quotable_codecs track)⟩
  exact haudio _ _ (hvideo _ h)

theorem SequenceVariant.CodecsFit.quotable {variant : SequenceVariant}
    (h : variant.CodecsFit) :
    Text.Quotable (joinCodecs variant.codecs) := by
  apply quotable_joinCodecs
  unfold SequenceVariant.codecs
  rw [List.forall_mem_append]
  exact h

/-- The texts of the renditions of an adaptive sequence. -/
def SequenceVideo.TextsFit (entry : SequenceVideo) : Prop :=
  Text.Plain entry.id ∧ ∀ clip ∈ entry.clips, clip.presentation.TextsFit

def SequenceAudio.TextsFit (member : SequenceAudio) : Prop :=
  ∀ clip ∈ member.clips, clip.presentation.TextsFit

namespace Dash

end Dash

end Segmentor
