import Segmentor.ClipTimeline
import Segmentor.Manifests
import Segmentor.TrackDetails
import Segmentor.General.TaggedLines

/-!
# Master playlists

What a title offers, as the lines of its master playlist: session keys, audio
and subtitle renditions, I-frames and variants; for a single file, for
renditions of one title, for clips, and for renditions of clips.
-/

namespace Segmentor

open General

/-! ## Lines -/

def plainValue (text : String) : TaggedLines.Value :=
  .plain text.toList

def quotedValue (text : String) : TaggedLines.Value :=
  .quoted text.toList

def numberValue (n : ℕ) : TaggedLines.Value :=
  .plain (decimal n)

def hlsTag (name : String) (attributes : List (String × TaggedLines.Value)) :
    TaggedLines.Line :=
  .tag name.toList (attributes.map fun named => (named.1.toList, named.2))

def hlsLine (text : String) : TaggedLines.Line :=
  .text text.toList

/-- The lines every playlist opens with. -/
def playlistOpening : List TaggedLines.Line :=
  [hlsLine "#EXTM3U", hlsLine "#EXT-X-VERSION:7"]

/-- A file of the playlist's own title, with the version in its URL. -/
def versioned (path : Text) (version : String) : Text :=
  path ++ "?v=".toList ++ version.toList

/-- Double quotes would end the string they are written in. -/
def withoutQuotes (text : Text) : Text :=
  text.map fun c => if c = '"' then Char.ofNat 39 else c

def yesNo (value : Bool) : TaggedLines.Value :=
  plainValue (if value then "YES" else "NO")

/-! ## Keys -/

def KeyAttributes.list (attributes : KeyAttributes) :
    List (String × TaggedLines.Value) :=
  [("METHOD", plainValue "SAMPLE-AES"), ("URI", quotedValue attributes.uri)] ++
    (attributes.keyId.toList.map fun keyId =>
      ("KEYID", plainValue ("0x" ++ hexString keyId))) ++
    [("KEYFORMAT", quotedValue attributes.keyFormat.text),
      ("KEYFORMATVERSIONS", quotedValue "1")]

/-- Every encrypted stretch of the timeline, in order. -/
def Encryption.encryptedPeriods (encryption : Encryption) : List PeriodKeys :=
  if encryption.periods = [] then [encryption.toPeriodKeys]
  else encryption.periods.filterMap KeyPeriod.keys

/-- The session-key lines of the systems, each with the key it is first given
for; `seen` are the lines before but for their key IDs. -/
def sessionKeyLines (seen : List String) :
    List (DrmSystem × ContentKey) → List TaggedLines.Line
  | [] => []
  | (system, key) :: rest =>
      match hlsAttributes system none with
      | none => sessionKeyLines seen rest
      | some identity =>
          if identity.text ∈ seen then sessionKeyLines seen rest
          else
            ((hlsAttributes system (some key.keyId)).toList.map fun attributes =>
              hlsTag "EXT-X-SESSION-KEY" attributes.list) ++
              sessionKeyLines (identity.text :: seen) rest

def hlsSessionKeys (encryptions : List Encryption) : List TaggedLines.Line :=
  sessionKeyLines [] <|
    (encryptions.flatMap Encryption.encryptedPeriods).flatMap fun period =>
      period.distinctKeys.flatMap fun key =>
        period.systems.map fun system => (system, key)

/-! ## Renditions -/

/-- The name a viewer sees of an audio track: its label, or its position and
language. -/
def audioName (number : ℕ) (language : Option Text) : Text :=
  "Audio ".toList ++ decimal number ++
    match language with
    | some language => " (".toList ++ language ++ [')']
    | none => []

def languageAttribute (language : Option Text) :
    List (String × TaggedLines.Value) :=
  language.toList.map fun language => ("LANGUAGE", .quoted language)

/-- One audio line of a shared audio group. -/
def writeAdaptiveAudioMedia (index : ℕ) (key : TrackKey)
    (details : TrackDetails) (default : Bool) (version : String) :
    TaggedLines.Line :=
  let language := trackLanguage details.language
  let name :=
    match details.label with
    | some label => withoutQuotes label
    | none => audioName (index + 1) language
  hlsTag "EXT-X-MEDIA" <|
    [("TYPE", plainValue "AUDIO"), ("GROUP-ID", quotedValue "audio"),
      ("NAME", .quoted name)] ++ languageAttribute language ++
    [("DEFAULT", yesNo default), ("AUTOSELECT", plainValue "YES"),
      ("URI", .quoted
        (versioned (key.text.toList ++ "/index.m3u8".toList) version))]

/-- One audio line of a file's own tracks; audio carried in the variant's own
segments has no URI. -/
def writeAudioRendition (track : Track) (language : Option Text) (index : ℕ)
    (version : String) (ownUri : Bool) : TaggedLines.Line :=
  hlsTag "EXT-X-MEDIA" <|
    [("TYPE", plainValue "AUDIO"), ("GROUP-ID", quotedValue "audio"),
      ("NAME", .quoted (audioName (index + 1) language))] ++
    languageAttribute language ++
    [("DEFAULT", yesNo (index == 0)), ("AUTOSELECT", plainValue "YES")] ++
    if ownUri then
      [("URI", .quoted
        (versioned (track.key.text.toList ++ "/index.m3u8".toList) version))]
    else []

/-- One subtitle line.  `AUTOSELECT` follows `DEFAULT`, and `FORCED` marks a
track a player shows unasked. -/
def writeSubtitleRendition (version : String) (subtitle : Subtitle) :
    TaggedLines.Line :=
  hlsTag "EXT-X-MEDIA"
    [("TYPE", plainValue "SUBTITLES"), ("GROUP-ID", quotedValue "subs"),
      ("NAME", .quoted (withoutQuotes subtitle.label.toList)),
      ("LANGUAGE", quotedValue subtitle.language),
      ("DEFAULT", yesNo subtitle.default),
      ("AUTOSELECT", yesNo (subtitle.default || subtitle.forced)),
      ("FORCED", yesNo subtitle.forced),
      ("URI", .quoted (versioned ("subtitles/".toList ++
        subtitle.language.toList ++ "/index.m3u8".toList) version))]

/-! ## Variants -/

def resolutionText (width height : ℕ) : Text :=
  decimal width ++ 'x' :: decimal height

def resolutionAttribute (resolution : Option (ℕ × ℕ)) :
    List (String × TaggedLines.Value) :=
  resolution.toList.map fun (width, height) =>
    ("RESOLUTION", .plain (resolutionText width height))

def groupAttribute (name : String) (group : String) (present : Bool) :
    List (String × TaggedLines.Value) :=
  if present then [(name, quotedValue group)] else []

/-- Codec strings, with commas between them. -/
def joinCodecs : List Text → Text
  | [] => []
  | [codec] => codec
  | codec :: rest => codec ++ ',' :: joinCodecs rest

/-- A variant and the URI it is about. -/
def streamInf (peak average : ℕ) (codecs : Text)
    (resolution : Option (ℕ × ℕ)) (audio subtitles : Bool) (path : Text)
    (version : String) : List TaggedLines.Line :=
  [hlsTag "EXT-X-STREAM-INF"
      ([("BANDWIDTH", numberValue peak), ("AVERAGE-BANDWIDTH",
        numberValue average), ("CODECS", .quoted codecs)] ++
        resolutionAttribute resolution ++
        groupAttribute "AUDIO" "audio" audio ++
        groupAttribute "SUBTITLES" "subs" subtitles),
    .text (versioned (path ++ "/index.m3u8".toList) version)]

/-- The I-frame line of the video track, where I-frames are offered. -/
def iframeStream (presentation : MediaPresentation) :
    Result (Option TaggedLines.Line) :=
  match presentation.video with
  | none => .ok none
  | some track =>
      if presentation.aes128.isSome || presentation.rotating ||
          !presentation.iframes then
        .ok none
      else do
        let frames ← keyframes track
        match peakBandwidth frames track.timescale,
            averageBandwidth frames track.timescale with
        | some peak, some average =>
            .ok (some (hlsTag "EXT-X-I-FRAME-STREAM-INF" <|
              [("BANDWIDTH", numberValue peak),
                ("AVERAGE-BANDWIDTH", numberValue average),
                ("CODECS", .quoted (presentation.codecs track))] ++
              resolutionAttribute (presentation.dimensions track) ++
              [("URI", .quoted (versioned "video/iframes.m3u8".toList
                presentation.version))]))
        | _, _ => .ok none

/-! ## One file -/

/-- The rates of the tracks a variant stands for, added up. -/
def addBandwidths (presentation : MediaPresentation) (tracks : List Track) :
    Result (ℕ × ℕ) :=
  tracks.foldlM (fun (peak, average) track => do
    let bandwidth ← presentation.bandwidth track
    let peak ← okOr (checkedAdd (2 ^ 64) peak bandwidth.peak)
      (.invalidMedia "bandwidth overflow")
    let average ← okOr (checkedAdd (2 ^ 64) average bandwidth.average)
      (.invalidMedia "bandwidth overflow")
    .ok (peak, average)) (0, 0)

def Hls.masterPlaylist (presentation : MediaPresentation) :
    Result (List TaggedLines.Line) := do
  let video := presentation.video
  let audioTracks := presentation.audioTracks
  let audio := audioTracks.head?
  let version := presentation.version
  let variant := video.toList ++ audio.toList
  if variant.isEmpty then
    .error (.invalidMedia "asset contains no tracks")
  else
    let muxed := presentation.muxedAudio && video.isSome && audio.isSome
    let audioGroup :=
      if muxed then decide (1 < audioTracks.length)
      else audio.isSome && (video.isSome || decide (1 < audioTracks.length))
    let (peak, average) ← addBandwidths presentation variant
    let iframes ← iframeStream presentation
    let name :=
      if muxed then "muxed".toList
      else (((video.or audio).map Track.key).getD .video).text.toList
    .ok (playlistOpening ++
      hlsSessionKeys presentation.encryption.toList ++
      (if audioGroup then
        audioTracks.mapIdx fun index track =>
          writeAudioRendition track (presentation.language track) index
            version (!(muxed && index == 0))
      else []) ++
      presentation.subtitles.map (writeSubtitleRendition version) ++
      iframes.toList ++
      streamInf peak average (joinCodecs (variant.map presentation.codecs))
        (video.bind presentation.dimensions) audioGroup
        (!presentation.subtitles.isEmpty) name version)

/-! ## Renditions of one title -/

/-- One video rendition, with what its variant declares. -/
structure AdaptiveVideo where
  id : Text
  codec : CodecConfig
  bandwidth : Bandwidth

/-- One member of the shared audio group. -/
structure AdaptiveAudio where
  key : TrackKey
  details : TrackDetails
  default : Bool

def audioMedia (version : String) (audio : List AdaptiveAudio) :
    List TaggedLines.Line :=
  audio.mapIdx fun index entry =>
    writeAdaptiveAudioMedia index entry.key entry.details entry.default
      version

def videoName (id : Text) : Text :=
  "video-".toList ++ id

/-- The master playlist of an adaptive asset, the caller's renditions in order
of bandwidth. -/
def adaptiveMasterPlaylist (version : String) (video : List AdaptiveVideo)
    (audio : List AdaptiveAudio) (subtitles : List Subtitle)
    (iframes : Option TaggedLines.Line) (encryption : Option Encryption) :
    Result (List TaggedLines.Line) :=
  if video.isEmpty then
    .error (.invalidMedia "composite asset has no video renditions")
  else
    .ok (playlistOpening ++ hlsSessionKeys encryption.toList ++
      audioMedia version audio ++
      subtitles.map (writeSubtitleRendition version) ++ iframes.toList ++
      video.flatMap fun entry =>
        streamInf entry.bandwidth.peak entry.bandwidth.average
          (joinCodecs (entry.codec.codecs ::
            audio.head?.toList.map fun first => first.details.codec.codecs))
          entry.codec.dimensions (!audio.isEmpty) (!subtitles.isEmpty)
          (videoName entry.id) version)

/-! ## Clips -/

/-- One clip of a sequence, with where it starts. -/
structure MediaClip where
  presentation : MediaPresentation
  firstSegment : ℕ
  start : Clip.TimelinePosition

def MediaClip.toSequenceClip (clip : MediaClip) : SequenceClip where
  presentation := clip.presentation.toPresentation
  firstSegment := clip.firstSegment

/-- What the variant of a sequence declares, over the clips so far. -/
structure SequenceVariant where
  peak : ℕ
  weighted : ℕ
  totalMs : ℕ
  videoCodecs : List Text
  audioCodecs : List Text
  resolution : Option (ℕ × ℕ)
  deriving DecidableEq, Repr

def SequenceVariant.empty : SequenceVariant where
  peak := 0
  weighted := 0
  totalMs := 0
  videoCodecs := []
  audioCodecs := []
  resolution := none

def pushDistinct (list : List Text) (value : Text) : List Text :=
  if list.contains value then list else list ++ [value]

/-- The larger of two pictures, the one there is where there is one. -/
def largerResolution (best : Option (ℕ × ℕ)) (width height : ℕ) :
    Option (ℕ × ℕ) :=
  match best with
  | none => some (width, height)
  | some (bestWidth, bestHeight) =>
      if bestWidth * bestHeight < width * height then some (width, height)
      else best

def SequenceVariant.addVideo (variant : SequenceVariant)
    (presentation : MediaPresentation) (track : Track) : SequenceVariant :=
  { variant with
    videoCodecs :=
      pushDistinct variant.videoCodecs (presentation.codecs track)
    resolution :=
      match presentation.dimensions track with
      | some (width, height) =>
          largerResolution variant.resolution width height
      | none => variant.resolution }

def SequenceVariant.addAudio (variant : SequenceVariant)
    (presentation : MediaPresentation) (track : Track) : SequenceVariant :=
  { variant with
    audioCodecs :=
      pushDistinct variant.audioCodecs (presentation.codecs track) }

/-- One clip more: the highest peak, and the average weighted by duration. -/
def SequenceVariant.addClip (withAudio : Bool) (variant : SequenceVariant)
    (presentation : MediaPresentation) : Result SequenceVariant := do
  let overflow : Error := .invalidMedia "bandwidth overflow"
  let video := presentation.video
  let audio := if withAudio then presentation.audioTracks.head? else none
  let (clipPeak, clipAverage) ←
    addBandwidths presentation (video.toList ++ audio.toList)
  let reference ← okOr (video.or audio)
    (.invalidMedia "a clip has no tracks")
  let milliseconds :=
    presentation.duration reference * 1000 / reference.timescale
  let weighted ← okOr
    (checkedAdd (2 ^ 128) variant.weighted (clipAverage * milliseconds))
    overflow
  let totalMs ← okOr (checkedAdd (2 ^ 128) variant.totalMs milliseconds)
    overflow
  let counted : SequenceVariant :=
    { variant with
      peak := max variant.peak clipPeak
      weighted := weighted
      totalMs := totalMs }
  let pictured := video.elim counted (counted.addVideo presentation)
  .ok (audio.elim pictured (pictured.addAudio presentation))

/-- The average rate, where it fits a word. -/
def SequenceVariant.average (variant : SequenceVariant) : Result ℕ :=
  let average := variant.weighted / variant.totalMs
  if average < 2 ^ 64 then .ok average
  else .error (.invalidMedia "bandwidth overflow")

def sequenceVariantWith (withAudio : Bool) (clips : List MediaClip) :
    Result (SequenceVariant × ℕ) := do
  let variant ← clips.foldlM
    (fun variant clip => variant.addClip withAudio clip.presentation) .empty
  let average ← variant.average
  .ok (variant, average)

def SequenceVariant.codecs (variant : SequenceVariant) : List Text :=
  variant.videoCodecs ++ variant.audioCodecs

/-- The first clip's track that names a language labels the rendition. -/
def labellingTrack (clips : List MediaClip) (key : TrackKey) :
    Option (Track × MediaPresentation) :=
  clips.findSome? fun clip =>
    match clip.presentation.track key with
    | .ok track =>
        if (clip.presentation.language track).isSome then
          some (track, clip.presentation)
        else none
    | .error _ => none

/-- One audio line of a sequence. -/
def sequenceAudioRendition (clips : List MediaClip)
    (first : MediaPresentation) (version : String)
    (entry : TrackKey × ℕ) : Result TaggedLines.Line := do
  let (track, presentation) ← match labellingTrack clips entry.1 with
    | some found => .ok found
    | none => do
        let track ← first.track entry.1
        .ok (track, first)
  .ok (writeAudioRendition track (presentation.language track) entry.2
    version true)

def sequenceMasterPlaylist (clips : List MediaClip) (version : String) :
    Result (List TaggedLines.Line) := do
  let first ← okOr clips.head? (.invalidMedia "a sequence has no clips")
  let videoKey := first.presentation.video.map Track.key
  let audioKeys := first.presentation.audioTracks.map Track.key
  let audioGroup := decide (audioKeys ≠ []) &&
    (videoKey.isSome || decide (1 < audioKeys.length))
  let renditions ←
    if audioGroup then
      audioKeys.zipIdx.mapM
        (sequenceAudioRendition clips first.presentation version)
    else .ok []
  let (variant, average) ← sequenceVariantWith true clips
  let entry := (videoKey.or audioKeys.head?).getD .video
  .ok (playlistOpening ++
    hlsSessionKeys
      (clips.filterMap fun clip => clip.presentation.encryption) ++
    renditions ++
    streamInf variant.peak average (joinCodecs variant.codecs)
      variant.resolution audioGroup false entry.text.toList version)

/-! ## Clips of renditions -/

/-- One video rendition of an adaptive sequence. -/
structure SequenceVideo where
  id : Text
  clips : List MediaClip

/-- One member of the shared audio group, with its key in its own clips. -/
structure SequenceAudio where
  key : TrackKey
  internalKey : TrackKey
  default : Bool
  clips : List MediaClip

/-- Every video rendition with its variant, the lowest peak first. -/
def variantsByBandwidth (video : List SequenceVideo) :
    Result (List (SequenceVideo × SequenceVariant × ℕ)) := do
  if video.isEmpty then
    .error (.invalidMedia "an adaptive sequence has no video renditions")
  else
    let variants ← video.mapM fun entry => do
      let variant ← sequenceVariantWith false entry.clips
      .ok (entry, variant)
    .ok (variants.mergeSort fun a b => a.2.1.peak ≤ b.2.1.peak)

def videoByBandwidth (video : List SequenceVideo) :
    Result (List SequenceVideo) := do
  let variants ← variantsByBandwidth video
  .ok (variants.map Prod.fst)

/-- The audio line of one member, labelled by the first clip that names a
language. -/
def sequenceAudioMedia (version : String) (entry : SequenceAudio × ℕ) :
    Result TaggedLines.Line := do
  let tracks ← entry.1.clips.mapM fun clip => do
    let track ← clip.presentation.track entry.1.internalKey
    .ok (clip.presentation.details track.id)
  let details ← okOr
    ((tracks.find? fun details =>
      (trackLanguage details.language).isSome).or tracks.head?)
    (.invalidMedia "an audio rendition has no clips")
  .ok (writeAdaptiveAudioMedia entry.2 entry.1.key details entry.1.default
    version)

/-- The codec strings of the first member's clips, each once. -/
def sequenceAudioCodecs (audio : List SequenceAudio) : Result (List Text) :=
  match audio.head? with
  | none => .ok []
  | some first =>
      first.clips.foldlM (fun codecs clip => do
        let track ← clip.presentation.track first.internalKey
        .ok (pushDistinct codecs (clip.presentation.codecs track))) []

def adaptiveSequenceMasterPlaylist (version : String)
    (video : List SequenceVideo) (audio : List SequenceAudio) :
    Result (List TaggedLines.Line) := do
  let variants ← variantsByBandwidth video
  let renditions ← audio.zipIdx.mapM (sequenceAudioMedia version)
  let audioCodecs ← sequenceAudioCodecs audio
  .ok (playlistOpening ++ renditions ++
    variants.flatMap fun (entry, variant, average) =>
      streamInf variant.peak average
        (joinCodecs (joinCodecs variant.codecs :: audioCodecs))
        variant.resolution (!audio.isEmpty) false (videoName entry.id)
        version)

/-! ## Subtitles and I-frames -/

/-- The opening lines of a media playlist. -/
def mediaOpening (target : ℕ) : List TaggedLines.Line :=
  playlistOpening ++
    [.text ("#EXT-X-TARGETDURATION:".toList ++ decimal target),
      hlsLine "#EXT-X-MEDIA-SEQUENCE:0", hlsLine "#EXT-X-PLAYLIST-TYPE:VOD"]

/-- An `#EXTINF` and the URI it is about. -/
def extinf (milliseconds : ℕ) (path : Text) (version : String) :
    List TaggedLines.Line :=
  [.text ("#EXTINF:".toList ++ decimal (milliseconds / 1000) ++
      '.' :: (padded 3 (milliseconds % 1000) ++ [','])),
    .text (versioned path version)]

/-- The playlist that lists a subtitle file: one segment as long as the
presentation. -/
def Hls.subtitlePlaylist (presentation : MediaPresentation) :
    List TaggedLines.Line :=
  let seconds := max presentation.durationSeconds 1
  mediaOpening seconds ++
    extinf (seconds * 1000) "sub.vtt".toList presentation.version ++
    [hlsLine "#EXT-X-ENDLIST"]

end Segmentor
