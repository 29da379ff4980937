import Segmentor.General.Fallible
import Segmentor.SubtitleText

/-!
# What a mapper answers

A mapper's answer for an asset: the locations of its media, what is to be
cut and served of them, and how long the answer may be used.  Two answers
name the same objects when they differ in signatures and deadlines alone.
Keys, windows, track selections and audio overrides are only ever compared.
-/

namespace Segmentor

open General

/-- A URL, and its port or the default one of its scheme. -/
structure Url where
  scheme : Text
  host : Option Text
  port : Option ℕ
  path : Text
  query : Option Text
  deriving DecidableEq, Repr

inductive AssetLocation
  | file (path : Text)
  | http (url : Url)
  deriving DecidableEq, Repr

namespace AssetLocation

def isHttp : AssetLocation → Bool
  | .file _ => false
  | .http _ => true

/-- Whether both locations name the same object, whatever a URL's query. -/
def sameObject : AssetLocation → AssetLocation → Bool
  | .file a, .file b => a == b
  | .http a, .http b =>
      a.scheme == b.scheme && a.host == b.host && a.port == b.port &&
        a.path == b.path
  | _, _ => false

/-- The location without what only signs it. -/
def object : AssetLocation → AssetLocation
  | .file path => .file path
  | .http url => .http { url with query := none }

theorem sameObject_iff {a b : AssetLocation} :
    a.sameObject b = true ↔ a.object = b.object := by
  cases a with
  | file a => cases b <;> simp [sameObject, object]
  | http a =>
      cases b with
      | file b => simp [sameObject, object]
      | http b => simp [sameObject, object, and_assoc]

end AssetLocation

variable (Value : Type)

/-- One clip of a sequence: a file, and what of it is played. -/
structure ClipPart where
  location : AssetLocation
  window : Value
  encryption : Option Value
  tracks : Option Value

/-- What a rendition plays: one file, or several clips back to back. -/
inductive RenditionPart
  | location (location : AssetLocation)
  | clips (clips : List (ClipPart Value))

structure AnsweredRendition where
  id : Text
  source : RenditionPart Value
  tracks : Option Value
  audio : Option Value

inductive LocationKey
  | main
  | rendition (id : Text)
  | clip (position : ℕ)
  | renditionClip (id : Text) (position : ℕ)
  deriving DecidableEq, Repr

/-- A resolver's answer for one asset.  Instants are in nanoseconds. -/
structure Answer where
  location : Option AssetLocation
  renditions : List (AnsweredRendition Value)
  clips : List (ClipPart Value)
  version : Text
  validUntil : ℕ
  hardExpiry : Option ℕ
  encryption : Option Value
  hlsAes128 : Option Value
  sourceEncryption : Option Value
  tracks : Option Value

namespace Answer

variable {Value}

/-- Every location the answer names, each with its key. -/
def locations (answer : Answer Value) : List (LocationKey × AssetLocation) :=
  match answer.location with
  | some location => [(.main, location)]
  | none =>
      if answer.renditions.isEmpty then
        answer.clips.mapIdx fun position clip =>
          (.clip position, clip.location)
      else
        answer.renditions.flatMap fun rendition =>
          match rendition.source with
          | .location location => [(.rendition rendition.id, location)]
          | .clips clips =>
              clips.mapIdx fun position clip =>
                (.renditionClip rendition.id position, clip.location)

/-- The location served under a key. -/
def locationFor (answer : Answer Value) :
    LocationKey → Option AssetLocation
  | .main => answer.location
  | .rendition id =>
      (answer.renditions.find? fun candidate => candidate.id == id).bind
        fun candidate =>
          match candidate.source with
          | .location location => some location
          | .clips _ => none
  | .renditionClip id position =>
      ((answer.renditions.find? fun candidate => candidate.id == id).bind
        fun candidate =>
          match candidate.source with
          | .clips clips => clips[position]?
          | .location _ => none).map ClipPart.location
  | .clip position => answer.clips[position]?.map ClipPart.location

/-- Whether every pair of elements at one place of both lists agrees, and
the lists are of one length. -/
def pairwise {α : Type} (same : α → α → Bool) (as bs : List α) : Bool :=
  as.length == bs.length && (as.zip bs).all fun pair => same pair.1 pair.2

variable [DecidableEq Value]

/-- Whether two clips cut the same windows from the same tracks. -/
def sameCut (a b : ClipPart Value) : Bool :=
  a.window == b.window && a.encryption == b.encryption && a.tracks == b.tracks

def sameRenditionCuts : RenditionPart Value → RenditionPart Value → Bool
  | .location _, .location _ => true
  | .clips a, .clips b => pairwise sameCut a b
  | _, _ => false

def sameRendition (a b : AnsweredRendition Value) : Bool :=
  a.id == b.id && a.tracks == b.tracks && a.audio == b.audio &&
    sameRenditionCuts a.source b.source

/-- Whether an answer leaves what was loaded from another one as it is. -/
def sameObjects (a b : Answer Value) : Bool :=
  a.version == b.version && a.encryption == b.encryption &&
    a.hlsAes128 == b.hlsAes128 && a.sourceEncryption == b.sourceEncryption &&
    a.tracks == b.tracks && pairwise sameCut a.clips b.clips &&
    pairwise sameRendition a.renditions b.renditions &&
    pairwise (fun a b => a.1 == b.1 && a.2.sameObject b.2) a.locations
      b.locations

/-! ## What two answers agree in -/

/-- What is cut of a clip. -/
def cut (clip : ClipPart Value) : Value × Option Value × Option Value :=
  (clip.window, clip.encryption, clip.tracks)

/-- What is cut of a rendition, where it has clips. -/
def cuts : RenditionPart Value →
    Option (List (Value × Option Value × Option Value))
  | .location _ => none
  | .clips clips => some (clips.map cut)

/-- Two answers agree in the version, in the objects they name, in order, and
in what is to be served of them. -/
structure Agrees (a b : Answer Value) : Prop where
  version : a.version = b.version
  encryption : a.encryption = b.encryption
  hlsAes128 : a.hlsAes128 = b.hlsAes128
  sourceEncryption : a.sourceEncryption = b.sourceEncryption
  tracks : a.tracks = b.tracks
  clips : a.clips.map cut = b.clips.map cut
  renditions :
    (a.renditions.map fun r => (r.id, r.tracks, r.audio, cuts r.source)) =
      b.renditions.map fun r => (r.id, r.tracks, r.audio, cuts r.source)
  objects : (a.locations.map fun l => (l.1, l.2.object)) =
    b.locations.map fun l => (l.1, l.2.object)

omit [DecidableEq Value] in
theorem Agrees.refl (a : Answer Value) : a.Agrees a := by
  constructor <;> rfl

omit [DecidableEq Value] in
theorem Agrees.trans {a b c : Answer Value} (hab : a.Agrees b)
    (hbc : b.Agrees c) : a.Agrees c where
  version := hab.version.trans hbc.version
  encryption := hab.encryption.trans hbc.encryption
  hlsAes128 := hab.hlsAes128.trans hbc.hlsAes128
  sourceEncryption := hab.sourceEncryption.trans hbc.sourceEncryption
  tracks := hab.tracks.trans hbc.tracks
  clips := hab.clips.trans hbc.clips
  renditions := hab.renditions.trans hbc.renditions
  objects := hab.objects.trans hbc.objects

theorem pairwise_iff {α β : Type} {same : α → α → Bool} {project : α → β}
    (hsame : ∀ a b, same a b = true ↔ project a = project b)
    {as bs : List α} :
    pairwise same as bs = true ↔ as.map project = bs.map project := by
  unfold pairwise
  rw [Bool.and_eq_true, beq_iff_eq]
  induction as generalizing bs with
  | nil => cases bs <;> simp
  | cons a as ih =>
      cases bs with
      | nil => simp
      | cons b bs =>
          rw [List.length_cons, List.length_cons, Nat.add_right_cancel_iff,
            List.zip_cons_cons, List.all_cons, Bool.and_eq_true, hsame,
            List.map_cons, List.map_cons, List.cons.injEq, ← ih]
          exact and_left_comm

theorem sameCut_iff {a b : ClipPart Value} :
    sameCut a b = true ↔ cut a = cut b := by
  simp only [sameCut, cut, Bool.and_eq_true, beq_iff_eq, Prod.mk.injEq,
    and_assoc]

theorem sameRenditionCuts_iff {a b : RenditionPart Value} :
    sameRenditionCuts a b = true ↔ cuts a = cuts b := by
  cases a with
  | location a => cases b <;> simp [sameRenditionCuts, cuts]
  | clips a =>
      cases b with
      | location b => simp [sameRenditionCuts, cuts]
      | clips b =>
          rw [sameRenditionCuts, pairwise_iff fun _ _ => sameCut_iff]
          simp only [cuts, Option.some.injEq]

theorem sameObjects_iff {a b : Answer Value} :
    a.sameObjects b = true ↔ a.Agrees b := by
  have hrendition : ∀ a b : AnsweredRendition Value,
      sameRendition a b = true ↔
        (a.id, a.tracks, a.audio, cuts a.source) =
          (b.id, b.tracks, b.audio, cuts b.source) := by
    intro a b
    simp only [sameRendition, Bool.and_eq_true, beq_iff_eq, Prod.mk.injEq,
      sameRenditionCuts_iff, and_assoc]
  have hlocation : ∀ a b : LocationKey × AssetLocation,
      (a.1 == b.1 && a.2.sameObject b.2) = true ↔
        (a.1, a.2.object) = (b.1, b.2.object) := by
    intro a b
    rw [Bool.and_eq_true, beq_iff_eq, AssetLocation.sameObject_iff,
      Prod.mk.injEq]
  simp only [sameObjects, Bool.and_eq_true, beq_iff_eq,
    pairwise_iff fun _ _ => sameCut_iff, pairwise_iff hrendition,
    pairwise_iff hlocation, and_assoc]
  constructor
  · rintro ⟨h₁, h₂, h₃, h₄, h₅, h₆, h₇, h₈⟩
    exact ⟨h₁, h₂, h₃, h₄, h₅, h₆, h₇, h₈⟩
  · intro h
    exact ⟨h.version, h.encryption, h.hlsAes128, h.sourceEncryption, h.tracks,
      h.clips, h.renditions, h.objects⟩

end Answer

end Segmentor
