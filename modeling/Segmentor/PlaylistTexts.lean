import Segmentor.AcceptedTexts
import Segmentor.PlaylistKeys

/-!
# The texts of playlists keep their places

Each line of a playlist fits: its quoted strings hold no quote and no line
break, and what stands without quotes is plain.
-/

namespace Segmentor

open General

/-! ## Tags -/

namespace Text

variable {a b : Text}

theorem Quotable.append (ha : a.Quotable) (hb : b.Quotable) :
    Text.Quotable (a ++ b) :=
  Free.append ha hb

theorem Plain.quotable (h : a.Plain) : a.Quotable :=
  h.free (by decide)

theorem IsUrl.quotable (h : a.IsUrl) : a.Quotable := by
  intro c hc hstop
  have hurl := h c hc
  simp only [List.mem_cons, List.not_mem_nil, or_false] at hstop
  rcases hstop with rfl | rfl | rfl <;> revert hurl <;> decide

/-- Without its quotes a label is no longer than its place. -/
theorem NoControls.quotable (h : a.NoControls) :
    Text.Quotable (withoutQuotes a) := by
  intro c hc hstop
  obtain ⟨d, hd, rfl⟩ := List.mem_map.mp hc
  have hcontrol := h d hd
  simp only [List.mem_cons, List.not_mem_nil, or_false] at hstop
  split at hstop
  · revert hstop
    decide
  · rename_i hquote
    rcases hstop with rfl | rfl | rfl
    · exact hquote rfl
    · revert hcontrol
      decide
    · revert hcontrol
      decide

end Text

def KeyLine.TextsFit : KeyLine → Prop
  | .clear => True
  | .aes128 uri => Text.Quotable uri.toList
  | .sampleAes attributes _ => Text.Quotable attributes.uri.toList

structure Subtitle.TextsFit (subtitle : Subtitle) : Prop where
  language : Text.Plain subtitle.language.toList
  label : Text.NoControls subtitle.label.toList

/-- The texts a media presentation carries for its renderers. -/
structure MediaPresentation.TextsFit (presentation : MediaPresentation) :
    Prop where
  version : Text.Plain presentation.version.toList
  encryption : ∀ encryption ∈ presentation.encryption,
    Encryption.TextsFit encryption
  aes128 : ∀ key ∈ presentation.aes128, Text.Quotable key.uri.toList
  label : ∀ track, ∀ label ∈ (presentation.details track).label,
    Text.IsLabel label
  subtitles : ∀ subtitle ∈ presentation.subtitles, subtitle.TextsFit

theorem quotable_joinCodecs {codecs : List Text}
    (h : ∀ codec ∈ codecs, Text.Quotable codec) :
    Text.Quotable (joinCodecs codecs) := by
  induction codecs with
  | nil => exact (by decide : Text.Quotable [])
  | cons codec rest ih =>
      obtain ⟨hcodec, hrest⟩ := List.forall_mem_cons.mp h
      cases rest with
      | nil => exact hcodec
      | cons next rest =>
          rw [joinCodecs]
          · exact hcodec.append (Free.append
              (by decide : Free _ [',']) (ih hrest))
          · simp

theorem MediaPresentation.quotable_codecs (presentation : MediaPresentation)
    (track : Track) : Text.Quotable (presentation.codecs track) :=
  (Text.plain_codecs _).quotable

def PlaylistLine.TextsFit : PlaylistLine → Prop
  | .key line => line.TextsFit
  | _ => True

end Segmentor
