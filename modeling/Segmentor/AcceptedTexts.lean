import Segmentor.MpdTexts

/-!
# The texts of an accepted answer

What interpreting an answer has checked of its texts: ids and languages are
plain, labels hold no control character, URIs can be quoted, and an audio
label can be written into XML.
-/

namespace Segmentor

open General

/-- A text that can stand between double quotes on a line. -/
def Text.Quotable (text : Text) : Prop :=
  Free ['"', '\n', '\r'] text

instance (text : Text) : Decidable (Text.Quotable text) :=
  inferInstanceAs (Decidable (Free _ _))

def Text.NoControls (text : Text) : Prop :=
  ∀ c ∈ text, isControl c = false

structure DrmSystem.TextsFit (system : DrmSystem) : Prop where
  license : ∀ url ∈ system.licenseUrl, Text.IsUrl url.toList
  hls : ∀ uri ∈ system.hlsUri, Text.Quotable uri.toList

def PeriodKeys.TextsFit (period : PeriodKeys) : Prop :=
  ∀ system ∈ period.systems, system.TextsFit

structure Encryption.TextsFit (encryption : Encryption) : Prop where
  primary : encryption.toPeriodKeys.TextsFit
  periods : ∀ period ∈ encryption.periods, ∀ keys ∈ period.keys,
    PeriodKeys.TextsFit keys

namespace Mapper

variable {Location : Type} {parseUrl : String → Option ParsedUrl}

def WireKeys.licenseUrls (wire : WireKeys) : List String :=
  wire.systems.filterMap WireSystem.licenseUrl

def WireEncryption.licenseUrls (wire : WireEncryption) : List String :=
  (wire.content :: wire.periods.map WirePeriod.content).flatMap
    WireKeys.licenseUrls

/-- The URLs of an answer that playlists and manifests are given. -/
def WireAnswer.licenseUrls (wire : WireAnswer Location) : List String :=
  ((wire.encryption :: wire.clips).filterMap id).flatMap
    WireEncryption.licenseUrls

/-- What is relied on of the URL parser: what it makes of each of `texts` is
written in visible ASCII, without quotes and angle brackets. -/
def SerializesUrls (parseUrl : String → Option ParsedUrl)
    (texts : List String) : Prop :=
  ∀ text ∈ texts, ∀ url, parseUrl text = some url →
    Text.IsUrl url.serialized.toList

theorem SerializesUrls.mono {texts others : List String}
    (h : SerializesUrls parseUrl texts) (hsubset : others ⊆ texts) :
    SerializesUrls parseUrl others :=
  fun text htext => h text (hsubset htext)

structure Rendition.TextsFit (rendition : Rendition) : Prop where
  id : Text.Plain rendition.id.toList
  label : ∀ overrides ∈ rendition.audio, ∀ label ∈ overrides.label,
    Text.IsLabel label.toList

structure SubtitleFits (subtitle : SubtitleLocation Location) : Prop where
  language : Text.Plain subtitle.language.toList
  label : Text.NoControls subtitle.label.toList

structure Answer.TextsFit (answer : Answer Location) : Prop where
  renditions : ∀ rendition ∈ answer.renditions, rendition.TextsFit
  subtitles : ∀ subtitle ∈ answer.subtitles, SubtitleFits subtitle
  encryption : ∀ encryption ∈ answer.encryption,
    Encryption.TextsFit encryption
  clips : ∀ clip ∈ answer.clips, ∀ encryption ∈ clip,
    Encryption.TextsFit encryption
  aes128 : ∀ key ∈ answer.hlsAes128, Text.Quotable key.uri.toList

/-! ## Labels, ids and languages -/

end Mapper

end Segmentor
