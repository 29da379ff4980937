import Segmentor.MasterPlaylists
import Segmentor.General.Xml

/-!
# DASH manifests

What a manifest declares, and the XML it is written as: a period for a title
or for each of its clips, a set for its video renditions, one for each audio
track and one for each subtitle file.  Labels and license URLs are the texts
that are escaped; the rest stands as it is.
-/

namespace Segmentor

open General

/-! ## Texts -/

/-- `str::replace` of one character. -/
def replaceChar (old : Char) (new : String) (text : Text) : Text :=
  text.flatMap fun c => if c = old then new.toList else [c]

/-- Text as the content of an XML element or the value of an attribute. -/
def xmlEscape (text : Text) : Text :=
  replaceChar '"' "&quot;" <| replaceChar '>' "&gt;" <|
    replaceChar '<' "&lt;" <| replaceChar '&' "&amp;" text

/-- A license URL, which holds no `>`. -/
def urlEscape (url : Text) : Text :=
  replaceChar '<' "&lt;" <| replaceChar '&' "&amp;" url

/-- Sixteen bytes in groups of hexadecimal digits. -/
def uuidString (bytes : List UInt8) : Text :=
  let hex := (hexString bytes).toList
  ['-'].intercalate [hex.take 8, (hex.drop 8).take 4, (hex.drop 12).take 4,
    (hex.drop 16).take 4, hex.drop 20]

/-- Milliseconds as seconds with three decimals. -/
def secondsText (milliseconds : ℕ) : Text :=
  decimal (milliseconds / 1000) ++ '.' :: padded 3 (milliseconds % 1000)

namespace Dash

/-! ## What a manifest declares -/

/-- The key of a set and the systems that license it. -/
structure ContentProtection where
  keyId : List UInt8
  systems : List DrmSystem
  deriving DecidableEq, Repr

structure VideoRepresentation where
  id : Text
  bandwidth : ℕ
  codecs : Text
  width : ℕ
  height : ℕ
  template : SegmentTemplate
  deriving DecidableEq, Repr

structure AudioAdaptation where
  language : Option Text
  protection : Option ContentProtection
  label : Option Text
  id : Text
  bandwidth : ℕ
  codecs : Text
  sampleRate : ℕ
  channels : ℕ
  template : SegmentTemplate
  deriving DecidableEq, Repr

inductive Adaptation
  | video (protection : Option ContentProtection)
      (representations : List VideoRepresentation)
  | audio (adaptation : AudioAdaptation)
  | text (language : Text) (forced default : Bool)
  deriving DecidableEq, Repr

structure Period where
  /-- The clip, for a sequence. -/
  clip : Option ℕ
  startMs : ℕ
  adaptations : List Adaptation
  deriving DecidableEq, Repr

structure Mpd where
  durationMs : ℕ
  encrypted : Bool
  version : Text
  periods : List Period
  deriving DecidableEq, Repr

/-! ## The sets of a title -/

def contentProtection (presentation : MediaPresentation) (track : Track) :
    Option ContentProtection :=
  presentation.encryption.map fun encryption =>
    { keyId := (encryption.keyFor track.kind).keyId
      systems := encryption.systems }

/-- One rendition inside a video set. -/
def videoRepresentation (presentation : MediaPresentation) (track : Track)
    (id : Text) (addressing : Addressing) : Result VideoRepresentation := do
  let (width, height) ← okOr (presentation.dimensions track)
    (.invalidMedia "video track has no dimensions")
  let bandwidth ← presentation.bandwidth track
  .ok
    { id := id
      bandwidth := bandwidth.peak
      codecs := presentation.codecs track
      width := width
      height := height
      template :=
        writeSegmentTemplate presentation.toPresentation track addressing }

/-- A video set of one rendition. -/
def videoAdaptation (presentation : MediaPresentation) (track : Track)
    (id : Text) (addressing : Addressing) : Result Adaptation := do
  let representation ← videoRepresentation presentation track id addressing
  .ok (.video (contentProtection presentation track) [representation])

def audioAdaptation (presentation : MediaPresentation) (track : Track)
    (id : Text) (addressing : Addressing) : Result Adaptation := do
  let details := presentation.details track.id
  let (sampleRate, channels) ← okOr details.codec.audioFormat
    (.invalidMedia "audio track has no audio format")
  let bandwidth ← presentation.bandwidth track
  .ok (.audio
    { language := presentation.language track
      protection := contentProtection presentation track
      label := details.label
      id := id
      bandwidth := bandwidth.peak
      codecs := presentation.codecs track
      sampleRate := sampleRate
      channels := channels
      template :=
        writeSegmentTemplate presentation.toPresentation track addressing })

/-- A subtitle file as a set that names the file directly. -/
def subtitleAdaptation (subtitle : Subtitle) : Adaptation :=
  .text subtitle.language.toList subtitle.forced subtitle.default

/-! ## One file -/

/-- A track's length in milliseconds. -/
def durationMs (presentation : MediaPresentation) (error : String)
    (track : Track) : Result ℕ :=
  okOr
    ((checkedMul (2 ^ 64) (presentation.duration track) 1000).bind
      fun duration => checkedDiv duration track.timescale)
    (.invalidMedia error)

def presentationDuration (presentation : MediaPresentation) : Result ℕ := do
  let lengths ← presentation.tracks.mapM
    (durationMs presentation "presentation duration overflow")
  okOr lengths.max? (.invalidMedia "asset contains no tracks")

/-- The track's own length, where no one file is the whole title. -/
def trackDuration (presentation : MediaPresentation) (track : Track) :
    Result ℕ :=
  durationMs presentation "track duration overflow" track

/-- The sets of a file's own tracks. -/
def trackAdaptations (presentation : MediaPresentation)
    (addressing : Track → Result Addressing) : Result (List Adaptation) := do
  let video ← presentation.video.toList.mapM fun track => do
    let addressing ← addressing track
    videoAdaptation presentation track track.key.text.toList addressing
  let audio ← presentation.audioTracks.mapM fun track => do
    let addressing ← addressing track
    audioAdaptation presentation track track.key.text.toList addressing
  .ok (video ++ audio)

def manifest (presentation : MediaPresentation) : Result Mpd := do
  let duration ← presentationDuration presentation
  let tracks ← trackAdaptations presentation fun _ => .ok .plain
  .ok
    { durationMs := duration
      encrypted := presentation.encryption.isSome
      version := presentation.version.toList
      periods :=
        [{ clip := none
           startMs := 0
           adaptations :=
             tracks ++ presentation.subtitles.map subtitleAdaptation }] }

/-! ## Clips -/

def nanosAsMs (nanos : ℕ) : ℕ :=
  nanos / 1000000

def MediaClip.addressing (clip : MediaClip) (position : ℕ) (track : Track) :
    Result Addressing :=
  Clip.clipAddressing clip.firstSegment position clip.start track

def clipPeriod (entry : MediaClip × ℕ) : Result Period := do
  let (clip, position) := entry
  let tracks ← trackAdaptations clip.presentation
    (MediaClip.addressing clip position)
  .ok
    { clip := some position
      startMs := nanosAsMs clip.start.nanos
      adaptations := tracks }

/-- One period for each clip, each starting at its clip's place on the
timeline. -/
def sequenceManifest (clips : List MediaClip) (total : Clip.TimelinePosition)
    (version : String) : Result Mpd := do
  let periods ← clips.zipIdx.mapM clipPeriod
  .ok
    { durationMs := nanosAsMs total.nanos
      encrypted := clips.any fun clip => clip.presentation.encryption.isSome
      version := version.toList
      periods := periods }

/-- The video set of one clip of the renditions; its protection is read from
the first. -/
def gridVideo (position : ℕ) (ordered : List SequenceVideo) :
    Result (Option ContentProtection × List VideoRepresentation) := do
  let entries ← ordered.mapM fun entry => do
    let clip ← okOr entry.clips[position]?
      (.invalidMedia ("every rendition of an adaptive sequence needs the " ++
        "same, non-zero number of clips"))
    let track ← okOr clip.presentation.video
      (.invalidMedia s!"rendition `{String.ofList entry.id}` has no video track")
    let addressing ← MediaClip.addressing clip position track
    let representation ← videoRepresentation clip.presentation track
      (videoName entry.id) addressing
    .ok (contentProtection clip.presentation track, representation)
  .ok ((entries.head?.map Prod.fst).getD none, entries.map Prod.snd)

def gridAudio (position : ℕ) (member : SequenceAudio) :
    Result Adaptation := do
  let clip ← okOr member.clips[position]?
    (.invalidMedia ("every rendition of an adaptive sequence needs the " ++
      "same, non-zero number of clips"))
  let track ← clip.presentation.track member.internalKey
  let addressing ← MediaClip.addressing clip position track
  audioAdaptation clip.presentation track member.key.text.toList addressing

def gridPeriod (ordered : List SequenceVideo) (audio : List SequenceAudio)
    (entry : MediaClip × ℕ) : Result Period := do
  let (clip, position) := entry
  let (protection, representations) ← gridVideo position ordered
  let members ← audio.mapM (gridAudio position)
  .ok
    { clip := some position
      startMs := nanosAsMs clip.start.nanos
      adaptations := .video protection representations :: members }

/-- One period for each clip, each holding every video rendition and every
member of the audio group. -/
def adaptiveSequenceManifest (video : List SequenceVideo)
    (audio : List SequenceAudio) (total : Clip.TimelinePosition)
    (version : String) : Result Mpd := do
  let ordered ← videoByBandwidth video
  let first ← okOr ordered.head?
    (.invalidMedia "an adaptive sequence has no video renditions")
  let count := first.clips.length
  if count = 0 ∨ (ordered.any fun entry => entry.clips.length != count) ∨
      (audio.any fun member => member.clips.length != count) then
    .error (.invalidMedia ("every rendition of an adaptive sequence needs " ++
      "the same, non-zero number of clips"))
  else
    let periods ← first.clips.zipIdx.mapM (gridPeriod ordered audio)
    .ok
      { durationMs := nanosAsMs total.nanos
        encrypted := false
        version := version.toList
        periods := periods }

/-! ## The manifest as XML -/

/-- How labels and license URLs are spelled. -/
structure TextForm where
  label : Text → Text
  url : Text → Text

/-- The texts as the renderer writes them. -/
def TextForm.escaped : TextForm where
  label := xmlEscape
  url := urlEscape

def spaces (n : ℕ) : Text :=
  List.replicate n ' '

abbrev Attributes := List (String × Text)

/-- An element from the start of a line to its end. -/
def element (indent : ℕ) (name : String) (attributes : Attributes)
    (inside : Xml.Content) : Xml.Content :=
  .element (spaces indent) name.toList
    (attributes.map fun named => (named.1.toList, named.2)) inside
    (.text ['\n'])

/-- An element that holds nothing. -/
def leaf (indent : ℕ) (name : String) (attributes : Attributes) :
    Xml.Content :=
  element indent name attributes (.text [])

/-- An element that holds text. -/
def textElement (indent : ℕ) (name : String) (text : Text) : Xml.Content :=
  element indent name [] (.text text)

/-- An element that holds others, on lines of their own. -/
def block (indent : ℕ) (name : String) (attributes : Attributes)
    (children : List Xml.Content) : Xml.Content :=
  element indent name attributes
    (Xml.Content.text ['\n'] ++ Xml.Content.concat children ++
      Xml.Content.text (spaces indent))

def timelineEntry (entry : TimelineEntry) : Xml.Content :=
  leaf 12 "S" ((entry.start.toList.map fun start => ("t", decimal start)) ++
    [("d", decimal entry.duration)])

def versionedText (path version : Text) : Text :=
  path ++ "?v=".toList ++ version

def initPath : Option ℕ → Text
  | none => "$RepresentationID$/init.mp4".toList
  | some clip =>
      "$RepresentationID$/clips/".toList ++ decimal clip ++
        "/init.mp4".toList

def segmentTemplate (version : Text) (template : SegmentTemplate) :
    Xml.Content :=
  block 8 "SegmentTemplate"
    ([("timescale", decimal template.timescale)] ++
      (template.addressing.presentationTimeOffset.toList.map fun offset =>
        ("presentationTimeOffset", decimal offset)) ++
      [("startNumber", decimal template.addressing.startNumber),
        ("initialization",
          versionedText (initPath template.addressing.clip) version),
        ("media", versionedText
          "$RepresentationID$/segments/$Number$/media.m4s".toList version)])
    [block 10 "SegmentTimeline" [] (template.timeline.map timelineEntry)]

def systemProtection (form : TextForm) (system : DrmSystem) : Xml.Content :=
  block 6 "ContentProtection"
    [("schemeIdUri", "urn:uuid:".toList ++ uuidString system.systemId)]
    ((system.pssh.toList.map fun pssh =>
        textElement 8 "cenc:pssh" (base64 pssh).toList) ++
      system.licenseUrl.toList.map fun url =>
        textElement 8 "dashif:Laurl" (form.url url.toList))

def ContentProtection.content (form : TextForm)
    (protection : ContentProtection) : List Xml.Content :=
  leaf 6 "ContentProtection"
      [("schemeIdUri", "urn:mpeg:dash:mp4protection:2011".toList),
        ("value", "cbcs".toList),
        ("cenc:default_KID", uuidString protection.keyId)] ::
    protection.systems.map (systemProtection form)

def protectionContent (form : TextForm)
    (protection : Option ContentProtection) : List Xml.Content :=
  (protection.map (ContentProtection.content form)).getD []

def VideoRepresentation.content (version : Text)
    (representation : VideoRepresentation) : Xml.Content :=
  block 6 "Representation"
    [("id", representation.id),
      ("bandwidth", decimal representation.bandwidth),
      ("codecs", representation.codecs),
      ("mimeType", "video/mp4".toList),
      ("width", decimal representation.width),
      ("height", decimal representation.height)]
    [segmentTemplate version representation.template]

def AudioAdaptation.content (form : TextForm) (version : Text)
    (adaptation : AudioAdaptation) : Xml.Content :=
  block 4 "AdaptationSet"
    ([("contentType", "audio".toList)] ++
      (adaptation.language.toList.map fun language => ("lang", language)) ++
      [("segmentAlignment", "true".toList)])
    (protectionContent form adaptation.protection ++
      (adaptation.label.toList.map fun label =>
        textElement 6 "Label" (form.label label)) ++
      [block 6 "Representation"
        [("id", adaptation.id), ("bandwidth", decimal adaptation.bandwidth),
          ("codecs", adaptation.codecs), ("mimeType", "audio/mp4".toList),
          ("audioSamplingRate", decimal adaptation.sampleRate)]
        [leaf 8 "AudioChannelConfiguration"
            [("schemeIdUri",
                ("urn:mpeg:dash:23003:3:" ++
                  "audio_channel_configuration:2011").toList),
              ("value", decimal adaptation.channels)],
          segmentTemplate version adaptation.template]])

def role (value : String) : Xml.Content :=
  leaf 8 "Role" [("schemeIdUri", "urn:mpeg:dash:role:2011".toList),
    ("value", value.toList)]

def textAdaptation (version language : Text) (forced default : Bool) :
    Xml.Content :=
  block 4 "AdaptationSet"
    [("contentType", "text".toList), ("lang", language),
      ("mimeType", "text/vtt".toList)]
    ([role (if forced then "forced-subtitle" else "subtitle")] ++
      (if default then [role "main"] else []) ++
      [block 6 "Representation"
        [("id", "subtitles-".toList ++ language),
          ("bandwidth", "256".toList)]
        [textElement 8 "BaseURL" (versionedText ("subtitles/".toList ++
          language ++ "/sub.vtt".toList) version)]])

def Adaptation.content (form : TextForm) (version : Text) :
    Adaptation → Xml.Content
  | .video protection representations =>
      block 4 "AdaptationSet"
        [("contentType", "video".toList), ("segmentAlignment", "true".toList),
          ("startWithSAP", "1".toList)]
        (protectionContent form protection ++
          representations.map (VideoRepresentation.content version))
  | .audio adaptation => adaptation.content form version
  | .text language forced default =>
      textAdaptation version language forced default

def Period.content (form : TextForm) (version : Text) (period : Period) :
    Xml.Content :=
  block 2 "Period"
    ((period.clip.toList.map fun clip =>
        ("id", "clip-".toList ++ decimal clip)) ++
      [("start", startText)])
    (period.adaptations.map (Adaptation.content form version))
where
  /-- The one period of a title without clips starts at a plain zero. -/
  startText : Text :=
    match period.clip with
    | none => "PT0S".toList
    | some _ => "PT".toList ++ secondsText period.startMs ++ ['S']

def Mpd.content (form : TextForm) (mpd : Mpd) : Xml.Content :=
  Xml.Content.text ['\n'] ++
    block 0 "MPD"
      ([("xmlns", "urn:mpeg:dash:schema:mpd:2011".toList)] ++
        (if mpd.encrypted then
          [("xmlns:cenc", "urn:mpeg:cenc:2013".toList),
            ("xmlns:dashif", "https://dashif.org/CPS".toList)]
        else []) ++
        [("type", "static".toList),
          ("mediaPresentationDuration",
            "PT".toList ++ secondsText mpd.durationMs ++ ['S']),
          ("minBufferTime", "PT1.5S".toList),
          ("profiles", "urn:mpeg:dash:profile:isoff-main:2011".toList)])
      (mpd.periods.map (Period.content form mpd.version))

/-- The text of a manifest. -/
def Mpd.text (mpd : Mpd) : Text :=
  Xml.declaration ++ (mpd.content .escaped).write

end Dash

end Segmentor
