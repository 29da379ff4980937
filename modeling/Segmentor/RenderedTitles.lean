import Segmentor.AdaptiveSequence
import Segmentor.MediaPlaylists
import Segmentor.MapperTexts
import Mathlib.Data.List.MinMax

/-!
# Titles and what is rendered of them

A title is one file, renditions of one film, clips, or clips of renditions.
Its playlists and its manifest are written from the files behind it, and their
texts come from the mapper's answer and from the media.
-/

namespace Segmentor

open General

/-! ## Renditions of one title -/

structure CompositeTitle where
  grid : ClipGrid RenditionFile
  subtitles : List Subtitle
  version : String

namespace CompositeTitle

variable (title : CompositeTitle)

/-- A file as the renderers of the title see it, under the title's version. -/
def presentationFor (file : RenditionFile) : MediaPresentation :=
  { file.asset.presentation with
    version := title.version
    details := file.details
    subtitles := []
    muxedAudio := false
    iframes := true }

/-- One video rendition, with the view its entries are written from. -/
structure VideoView where
  id : Text
  presentation : MediaPresentation
  track : Track
  bandwidth : Bandwidth

/-- One member of the audio group, with its key in URLs. -/
structure AudioView where
  key : TrackKey
  presentation : MediaPresentation
  track : Track

/-- The video renditions, the lowest peak first. -/
def videoViews : Result (List VideoView) := do
  let views ← title.grid.video.mapM fun entry => do
    let presentation := title.presentationFor entry.asset
    let track ← okOr presentation.video
      (.invalidMedia s!"rendition `{String.ofList entry.id}` has no video track")
    let bandwidth ← presentation.bandwidth track
    .ok
      { id := entry.id
        presentation := presentation
        track := track
        bandwidth := bandwidth : VideoView }
  .ok (views.mergeSort fun a b => a.bandwidth.peak ≤ b.bandwidth.peak)

def audioViews : Result (List AudioView) :=
  title.grid.audio.zipIdx.mapM fun (entry, index) => do
    let presentation :=
      title.presentationFor (title.grid.ownerAsset entry.owner)
    let track ← presentation.track entry.internalKey
    let key ← memberKey index
    .ok
      { key := key
        presentation := presentation
        track := track : AudioView }

/-- The peak of a rendition's video, zero where there is none. -/
def peakOf (file : RenditionFile) : ℕ :=
  let presentation := title.presentationFor file
  match presentation.video.map presentation.bandwidth with
  | some (.ok bandwidth) => bandwidth.peak
  | _ => 0

/-- The rendition I-frames come from: scrubbing needs no more than the lowest
bandwidth. -/
def iframeSource : Option RenditionFile :=
  (title.grid.video.map RenditionEntry.asset).argmin title.peakOf

/-- The view the I-frames and the subtitle playlists are written from. -/
def iframePresentation : Result MediaPresentation :=
  okOr (title.iframeSource.map title.presentationFor)
    (.invalidMedia "an adaptive asset needs at least one video rendition")

/-- Every rendition is encrypted with the same keys. -/
def encryption : Option Encryption :=
  title.grid.video.head?.bind fun entry => entry.asset.asset.encryption

def hlsMaster : Result (List TaggedLines.Line) := do
  let video ← title.videoViews
  let audio ← title.audioViews
  let source ← title.iframePresentation
  let iframes ← iframeStream source
  adaptiveMasterPlaylist title.version
    (video.map fun view =>
      { id := view.id
        codec := (view.presentation.details view.track.id).codec
        bandwidth := view.bandwidth })
    (audio.mapIdx fun index view =>
      { key := view.key
        details := view.presentation.details view.track.id
        default := index == title.grid.defaultAudio })
    title.subtitles iframes title.encryption

def hlsVideo : List (Result (List PlaylistLine)) :=
  title.grid.video.map fun entry =>
    mediaPlaylist (title.presentationFor entry.asset).toPresentation .video

def hlsAudio : List (Result (List PlaylistLine)) :=
  title.grid.audio.map fun entry =>
    mediaPlaylist
      (title.presentationFor (title.grid.ownerAsset entry.owner)).toPresentation
      entry.internalKey

def hlsIframes : Result (List TaggedLines.Line) := do
  let source ← title.iframePresentation
  let playlist ← Hls.iframePlaylist source
  okOr playlist (.notFound "asset has no video track")

def hlsSubtitle : Result (List TaggedLines.Line) := do
  let source ← title.iframePresentation
  .ok (Hls.subtitlePlaylist source)

/-- One set of every video rendition, one for each member of the audio group
and one for each subtitle file. -/
def dash : Result Dash.Mpd := do
  let video ← title.videoViews
  let audio ← title.audioViews
  let first ← okOr video.head?
    (.invalidMedia "an adaptive asset needs at least one video rendition")
  let representations ← video.mapM fun view =>
    Dash.videoRepresentation view.presentation view.track (videoName view.id)
      .plain
  let members ← audio.mapM fun view =>
    Dash.audioAdaptation view.presentation view.track view.key.text.toList
      .plain
  let duration ← Dash.trackDuration first.presentation first.track
  .ok
    { durationMs := duration
      encrypted := title.encryption.isSome
      version := title.version.toList
      periods :=
        [{ clip := none
           startMs := 0
           adaptations :=
             .video (Dash.contentProtection first.presentation first.track)
                 representations ::
               (members ++
                 title.subtitles.map Dash.subtitleAdaptation) }] }

end CompositeTitle

/-! ## Titles -/

/-- The clips of a sequence with their first numbers and where they start. -/
structure SequenceTitle where
  clips : List (RenditionFile × ℕ × Clip.TimelinePosition)
  total : Clip.TimelinePosition
  version : String

def SequenceTitle.views (title : SequenceTitle) : List MediaClip :=
  title.clips.map fun (file, firstSegment, start) =>
    { presentation := file.presentation
      firstSegment := firstSegment
      start := start }

/-- What a request may be answered from. -/
inductive Title
  | single (file : RenditionFile) (subtitles : List Subtitle)
  | composite (title : CompositeTitle)
  | sequence (title : SequenceTitle)
  | adaptive (title : AdaptiveSequence)

/-- The view of a single file, with its subtitles. -/
def singlePresentation (file : RenditionFile) (subtitles : List Subtitle) :
    MediaPresentation :=
  { file.presentation with subtitles := subtitles }

def singleIframes (presentation : MediaPresentation) :
    Result (List TaggedLines.Line) := do
  let playlist ← Hls.iframePlaylist presentation
  okOr playlist (.notFound "asset has no video track")

namespace Title

/-- The playlists of tracks, under the version in their URLs. -/
def tracksOf (version : String) (playlists : List (Result (List PlaylistLine))) :
    List (Result (List TaggedLines.Line)) :=
  playlists.map fun playlist => playlist.map (playlistLines version)

/-- The playlists of a list that renders as a whole or not at all. -/
def rowsOf (version : String) (playlists : Result (List (List PlaylistLine))) :
    List (Result (List TaggedLines.Line)) :=
  match playlists with
  | .ok playlists => tracksOf version (playlists.map .ok)
  | .error error => [.error error]

/-- Every master, media, I-frame and subtitle playlist of a title, as far as
each can be rendered. -/
def playlists : Title → List (Result (List TaggedLines.Line))
  | .single file subtitles =>
      let presentation := singlePresentation file subtitles
      [Hls.masterPlaylist presentation, singleIframes presentation,
        .ok (Hls.subtitlePlaylist presentation)] ++
        tracksOf presentation.version (presentation.tracks.map fun track =>
          mediaPlaylist presentation.toPresentation track.key)
  | .composite title =>
      [title.hlsMaster, title.hlsIframes, title.hlsSubtitle] ++
        tracksOf title.version (title.hlsVideo ++ title.hlsAudio)
  | .sequence title =>
      sequenceMasterPlaylist title.views title.version ::
        tracksOf title.version
          ((title.views.head?.elim [] fun clip =>
              clip.presentation.tracks).map fun track =>
            sequenceMediaPlaylist (title.views.map MediaClip.toSequenceClip)
              track.key)
  | .adaptive title =>
      title.hlsMaster ::
        (rowsOf title.version title.hlsVideo ++
          rowsOf title.version title.hlsAudio)

def manifest : Title → Result Dash.Mpd
  | .single file subtitles =>
      Dash.manifest (singlePresentation file subtitles)
  | .composite title => title.dash
  | .sequence title =>
      Dash.sequenceManifest title.views title.total title.version
  | .adaptive title => title.dash

/-! ## Where the texts come from -/

variable {Location : Type}

/-- A version in URLs is a digest in hexadecimal. -/
def IsDigest (version : String) : Prop :=
  ∃ digest : List UInt8, version = hexString digest

/-- The keys and the label of a file are the answer's; the rest of what is
declared of it, the media's own. -/
structure FileFrom (answer : Mapper.Answer Location) (file : RenditionFile) :
    Prop where
  version : IsDigest file.asset.version
  encryption : ∀ encryption ∈ file.asset.encryption,
    answer.encryption = some encryption ∨ some encryption ∈ answer.clips
  aes128 : ∀ key ∈ file.asset.aes128, answer.hlsAes128 = some key
  label : ∀ track, ∀ label ∈ (file.details track).label,
    ∃ rendition ∈ answer.renditions, ∃ overrides ∈ rendition.audio,
      ∃ given ∈ overrides.label, label = given.toList

/-- The ids of renditions are the answer's, and so are their files' texts. -/
structure EntryFrom (answer : Mapper.Answer Location)
    (entry : RenditionEntry RenditionFile) : Prop where
  id : ∃ rendition ∈ answer.renditions, entry.id = rendition.id.toList
  file : FileFrom answer entry.asset

structure GridFrom (answer : Mapper.Answer Location)
    (grid : ClipGrid RenditionFile) : Prop where
  video : ∀ entry ∈ grid.video, EntryFrom answer entry
  audioOnly : ∀ entry ∈ grid.audioOnly, EntryFrom answer entry

def SubtitlesFrom (answer : Mapper.Answer Location)
    (subtitles : List Subtitle) : Prop :=
  ∀ subtitle ∈ subtitles, ∃ location ∈ answer.subtitles,
    subtitle.language = location.language ∧ subtitle.label = location.label

/-- A title built for an answer: every text in it is the answer's, a digest,
or read from the media. -/
def From (answer : Mapper.Answer Location) : Title → Prop
  | .single file subtitles =>
      FileFrom answer file ∧ SubtitlesFrom answer subtitles
  | .composite title =>
      GridFrom answer title.grid ∧ SubtitlesFrom answer title.subtitles ∧
        IsDigest title.version
  | .sequence title =>
      (∀ clip ∈ title.clips, FileFrom answer clip.1) ∧ IsDigest title.version
  | .adaptive title =>
      (∀ grid ∈ title.grids, GridFrom answer grid) ∧ IsDigest title.version

end Title

end Segmentor
