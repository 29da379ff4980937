import Segmentor.MediaIndex
import Segmentor.SubtitleText

/-!
# Renditions and the audio they share

An adaptive asset is several files served as one title.  Which file answers
for a track is the same question for an asset of whole files and for each
clip of an adaptive sequence.
-/

namespace Segmentor

open General

/-- One rendition: its id in URLs and the file behind it. -/
structure RenditionEntry (File : Type) where
  id : Text
  asset : File

/-- Where a member of the shared audio group is: in one of the video
renditions, or in a rendition that only has audio. -/
inductive AudioOwner (videos dedicated : ℕ)
  | video (index : Fin videos)
  | dedicated (index : Fin dedicated)

structure AudioEntry (videos dedicated : ℕ) where
  owner : AudioOwner videos dedicated
  internalKey : TrackKey

structure ClipGrid (File : Type) where
  video : List (RenditionEntry File)
  audioOnly : List (RenditionEntry File)
  audio : List (AudioEntry video.length audioOnly.length)

def audioOrdinal (key : TrackKey) : ℕ :=
  match key.kind with
  | .video => 0
  | .audio => key.ordinal

/-- The answer for a track that is not there. -/
def noTrack : Error :=
  .notFound "track does not exist"

namespace ClipGrid

variable {File : Type}

def ownerAsset (grid : ClipGrid File)
    (owner : AudioOwner grid.video.length grid.audioOnly.length) : File :=
  match owner with
  | .video index => (grid.video.get index).asset
  | .dedicated index => (grid.audioOnly.get index).asset

/-- The member of the audio group called `audio-{n}`. -/
def audioMember (grid : ClipGrid File) (key : TrackKey) :
    Option (AudioEntry grid.video.length grid.audioOnly.length) :=
  (checkedSub (audioOrdinal key) 1).bind fun member => grid.audio[member]?

/-- The file that holds a track, and the key the track has inside it. -/
def resolve (grid : ClipGrid File) (rendition : Option Text) (key : TrackKey) :
    Result (File × TrackKey) :=
  match key.kind with
  | .video => do
      let id ← okOr rendition noTrack
      let entry ← okOr (grid.video.find? fun entry => entry.id == id) noTrack
      .ok (entry.asset, .video)
  | .audio =>
      if rendition.isSome then .error noTrack
      else do
        let entry ← okOr (grid.audioMember key) noTrack
        .ok (grid.ownerAsset entry.owner, entry.internalKey)

end ClipGrid

/-- What was rendered for a track: for a video rendition under its id, for the
members of the audio group in order, counted from one. -/
def renderedFor {Rendered : Type} (video : Text → Option Rendered)
    (audio : List Rendered) (rendition : Option Text) (key : TrackKey) :
    Result Rendered :=
  match key.kind with
  | .video => do
      let id ← okOr rendition noTrack
      okOr (video id) noTrack
  | .audio =>
      if rendition.isSome then .error noTrack
      else
        okOr ((checkedSub (audioOrdinal key) 1).bind fun member =>
          audio[member]?) noTrack

/-! ## Clips of renditions -/

/-- A grid for every clip, with the numbers the clips' segments start at. -/
structure ClipRows (File : Type) where
  grids : List (ClipGrid File)
  firstVideo : List ℕ
  firstAudio : List (List ℕ)

namespace ClipRows

variable {File : Type} (rows : ClipRows File)

/-- The file that holds a track in one clip, and the key the track has inside
it. -/
def resolve (rendition : Option Text) (key : TrackKey) (clip : ℕ) :
    Result (File × TrackKey) := do
  let grid ← okOr rows.grids[clip]? (.notFound "clip does not exist")
  grid.resolve rendition key

/-- The numbers the clips of a track start at. -/
def firsts (key : TrackKey) : Result (List ℕ) :=
  match key.kind with
  | .video => .ok rows.firstVideo
  | .audio =>
      okOr ((checkedSub (audioOrdinal key) 1).bind fun member =>
        rows.firstAudio[member]?) noTrack

/-- Where global segment `segmentIndex` of a track is: in which file, under
which key, and its number there.  The first clip starts at zero, so the lookup
always finds a clip. -/
def locate (rendition : Option Text) (key : TrackKey) (segmentIndex : ℕ) :
    Result (File × TrackKey × ℕ) := do
  let firsts ← rows.firsts key
  let clip :=
    partitionPoint (fun first => decide (first ≤ segmentIndex)) firsts - 1
  let (file, internal) ← rows.resolve rendition key clip
  .ok (file, internal, segmentIndex - firsts[clip]?.getD 0)

end ClipRows

end Segmentor
