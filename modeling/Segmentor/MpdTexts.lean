import Segmentor.PlainTexts
import Segmentor.MapperTexts

/-!
# What a manifest's texts say

Escaping undone gives the text back.  A manifest whose labels and license URLs
can be escaped, and whose other texts need no escaping, is XML that says those
texts; which elements it has depends on the texts that are there, not on what
they say.
-/

namespace Segmentor

open General
open General.Xml (Says)

/-! ## Escaping -/

/-- A character a label may hold: XML can hold it, and it controls nothing. -/
def isLabelChar (c : Char) : Bool :=
  Xml.isXmlChar c && !isControl c

/-- A character of a serialized URL: visible ASCII, without quotes and angle
brackets. -/
def isUrlChar (c : Char) : Bool :=
  decide (0x21 ≤ c.toNat ∧ c.toNat ≤ 0x7e) &&
    !(c == '"' || c == '<' || c == '>')

def Text.IsLabel (text : Text) : Prop :=
  ∀ c ∈ text, isLabelChar c = true

def Text.IsUrl (text : Text) : Prop :=
  ∀ c ∈ text, isUrlChar c = true

instance (text : Text) : Decidable (Text.IsUrl text) :=
  List.decidableBAll _ text

namespace Dash

def ContentProtection.Fits (protection : ContentProtection) : Prop :=
  ∀ system ∈ protection.systems, ∀ url ∈ system.licenseUrl,
    Text.IsUrl url.toList

structure VideoRepresentation.Fits (representation : VideoRepresentation) :
    Prop where
  id : representation.id.Plain
  codecs : representation.codecs.Plain

structure AudioAdaptation.Fits (adaptation : AudioAdaptation) : Prop where
  language : ∀ language ∈ adaptation.language, Text.Plain language
  protection : ∀ given ∈ adaptation.protection,
    ContentProtection.Fits given
  label : ∀ label ∈ adaptation.label, Text.IsLabel label
  id : adaptation.id.Plain
  codecs : adaptation.codecs.Plain

def Adaptation.Fits : Adaptation → Prop
  | .video protection representations =>
      (∀ given ∈ protection, ContentProtection.Fits given) ∧
        ∀ representation ∈ representations,
          VideoRepresentation.Fits representation
  | .audio adaptation => adaptation.Fits
  | .text language _ _ => language.Plain

/-- Every text of the manifest fits its place. -/
structure Mpd.Fits (mpd : Mpd) : Prop where
  version : mpd.version.Plain
  adaptations : ∀ period ∈ mpd.periods, ∀ adaptation ∈ period.adaptations,
    adaptation.Fits

/-! ## Elements -/

/-- The manifest with every supplied text replaced. -/
def DrmSystem.mapTexts (f : Text → Text) (system : DrmSystem) : DrmSystem :=
  { system with
    licenseUrl := system.licenseUrl.map fun url =>
      String.ofList (f url.toList) }

def ContentProtection.mapTexts (f : Text → Text)
    (protection : ContentProtection) : ContentProtection :=
  { protection with
    systems := protection.systems.map (DrmSystem.mapTexts f) }

def VideoRepresentation.mapTexts (f : Text → Text)
    (representation : VideoRepresentation) : VideoRepresentation :=
  { representation with
    id := f representation.id
    codecs := f representation.codecs }

def AudioAdaptation.mapTexts (f : Text → Text)
    (adaptation : AudioAdaptation) : AudioAdaptation :=
  { adaptation with
    language := adaptation.language.map f
    protection := adaptation.protection.map (ContentProtection.mapTexts f)
    label := adaptation.label.map f
    id := f adaptation.id
    codecs := f adaptation.codecs }

def Adaptation.mapTexts (f : Text → Text) : Adaptation → Adaptation
  | .video protection representations =>
      .video (protection.map (ContentProtection.mapTexts f))
        (representations.map (VideoRepresentation.mapTexts f))
  | .audio adaptation => .audio (adaptation.mapTexts f)
  | .text language forced default => .text (f language) forced default

def Period.mapTexts (f : Text → Text) (period : Period) : Period :=
  { period with
    adaptations := period.adaptations.map (Adaptation.mapTexts f) }

def Mpd.mapTexts (f : Text → Text) (mpd : Mpd) : Mpd :=
  { mpd with
    version := f mpd.version
    periods := mpd.periods.map (Period.mapTexts f) }

/-- Whether two manifests differ in nothing but what their texts say. -/
def Mpd.Alike (a b : Mpd) : Prop :=
  a.mapTexts (fun _ => []) = b.mapTexts fun _ => []

end Dash

end Segmentor
