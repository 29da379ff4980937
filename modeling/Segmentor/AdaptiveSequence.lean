import Segmentor.MpdManifests
import Segmentor.PackagedAsset
import Segmentor.Renditions

/-!
# Adaptive sequences

Every clip of an adaptive sequence is a grid of renditions.  Each video
rendition and each member of the audio group is a sequence of its own across
the grids, its segments numbered on from clip to clip, and the playlists and
the manifest are written from those sequences.
-/

namespace Segmentor

open General

/-- The file behind a rendition, with what playlists and manifests declare of
its tracks. -/
structure RenditionFile where
  asset : PackagedAsset
  details : ℕ → TrackDetails
  /-- Whether the mapper made this file's audio the default. -/
  audioDefault : Bool

/-- The read-only view renderers work from. -/
def RenditionFile.presentation (file : RenditionFile) : MediaPresentation :=
  { file.asset.presentation with
    details := file.details
    subtitles := []
    muxedAudio := file.asset.muxed.isSome
    iframes := file.asset.decryption.isEmpty }

/-- The first audio is the default unless a mapper flagged another. -/
def ClipGrid.defaultAudio (grid : ClipGrid RenditionFile) : ℕ :=
  (grid.audio.findIdx? fun entry =>
    (grid.ownerAsset entry.owner).audioDefault).getD 0

/-- The key a member of the audio group has in URLs. -/
def memberKey (member : ℕ) : Result TrackKey :=
  if member + 1 < 2 ^ 16 then .ok (.audio (member + 1))
  else .error (.invalidMedia "too many audio renditions")

/-- The file of a video rendition in one clip.  Every grid has the renditions
of the first. -/
def videoFile (rendition : ℕ) (grid : ClipGrid RenditionFile) :
    Result RenditionFile :=
  okOr (grid.video[rendition]?.map RenditionEntry.asset)
    (.invalidMedia "an adaptive asset needs at least one video rendition")

/-- The file of a member of the audio group in one clip. -/
def audioFile (member : ℕ) (grid : ClipGrid RenditionFile) :
    Result RenditionFile :=
  okOr (grid.audio[member]?.map fun entry => grid.ownerAsset entry.owner)
    (.invalidMedia "the audio group differs between clips")

/-- Each clip's first segment number when the clips' segments are counted one
after another, the first clip's being `next`. -/
def cumulative : ℕ → List (Result ℕ) → Result (List ℕ)
  | _, [] => .ok []
  | next, count :: rest => do
      let count ← count
      let following ← okOr
        (if count < 2 ^ 32 then checkedAdd (2 ^ 32) next count else none)
        (.invalidMedia "a sequence has too many segments")
      let others ← cumulative following rest
      .ok (next :: others)

/-- How many segments the plan of a file has. -/
def plannedSegments (file : Result RenditionFile) : Result ℕ :=
  file.map fun file => file.asset.plan.segments.length

/-- The numbers of the video's first segments: the first rendition of every
clip counts for all. -/
def firstVideo (grids : List (ClipGrid RenditionFile)) : Result (List ℕ) :=
  cumulative 0 (grids.map fun grid => plannedSegments (videoFile 0 grid))

/-- The numbers of the first segments of each member of the audio group. -/
def firstAudio (grids : List (ClipGrid RenditionFile)) :
    Result (List (List ℕ)) :=
  (List.range (grids.head?.elim 0 fun grid => grid.audio.length)).mapM
    fun member => cumulative 0
      (grids.map fun grid => plannedSegments (audioFile member grid))

structure AdaptiveSequence extends ClipRows RenditionFile where
  /-- Where each clip starts on the timeline. -/
  starts : List Clip.TimelinePosition
  total : Clip.TimelinePosition
  version : String
  nonempty : grids ≠ []
  video_numbered : Segmentor.firstVideo grids = .ok firstVideo
  audio_numbered : Segmentor.firstAudio grids = .ok firstAudio

namespace AdaptiveSequence

variable (sequence : AdaptiveSequence)

/-- The clips of one rendition or member, with their first numbers. -/
def rowClips (file : ClipGrid RenditionFile → Result RenditionFile)
    (firsts : List ℕ) : Result (List MediaClip) :=
  ((sequence.grids.zip firsts).zip sequence.starts).mapM
    fun ((grid, firstSegment), start) => do
      let file ← file grid
      .ok
        { presentation := file.presentation
          firstSegment := firstSegment
          start := start }

def firstGrid : ClipGrid RenditionFile :=
  sequence.grids.head sequence.nonempty

/-- The video renditions across the clips. -/
def video : Result (List SequenceVideo) :=
  sequence.firstGrid.video.zipIdx.mapM fun (entry, rendition) => do
    let clips ← sequence.rowClips (videoFile rendition) sequence.firstVideo
    .ok { id := entry.id, clips := clips }

/-- One member of the audio group across the clips. -/
def audioRow {videos dedicated : ℕ} (member : ℕ)
    (entry : AudioEntry videos dedicated) : Result SequenceAudio := do
  let clips ← sequence.rowClips (audioFile member)
    ((sequence.firstAudio[member]?).getD [])
  let key ← memberKey member
  .ok
    { key := key
      internalKey := entry.internalKey
      default := member == sequence.firstGrid.defaultAudio
      clips := clips }

/-- The members of the audio group across the clips. -/
def audio : Result (List SequenceAudio) :=
  sequence.firstGrid.audio.zipIdx.mapM fun (entry, member) =>
    sequence.audioRow member entry

/-- The media playlist of one rendition or member. -/
def rowPlaylist (clips : List MediaClip) (key : TrackKey) :
    Result (List PlaylistLine) :=
  sequenceMediaPlaylist (clips.map MediaClip.toSequenceClip) key

def hlsVideo : Result (List (List PlaylistLine)) := do
  let video ← sequence.video
  video.mapM fun entry => rowPlaylist entry.clips .video

def hlsAudio : Result (List (List PlaylistLine)) := do
  let audio ← sequence.audio
  audio.mapM fun member => rowPlaylist member.clips member.internalKey

def hlsMaster : Result (List TaggedLines.Line) := do
  let video ← sequence.video
  let audio ← sequence.audio
  adaptiveSequenceMasterPlaylist sequence.version video audio

def dash : Result Dash.Mpd := do
  let video ← sequence.video
  let audio ← sequence.audio
  Dash.adaptiveSequenceManifest video audio sequence.total sequence.version

end AdaptiveSequence

end Segmentor
