import Segmentor.Authorization
import Segmentor.PackagedAsset
import Segmentor.Renditions

/-!
# The media handlers

The handlers of the HLS and DASH routes, in the order in which each of them
looks the asset up, checks the version, names its entity tag, compares it and
looks the resource up.  What a loaded file answers is a record of its methods;
waiting for a job slot, and encrypting a segment, end as the state says.
-/

namespace Segmentor

open General

abbrev Manifest := Text

/-! ## What is served -/

/-- The methods of one loaded file. -/
structure FileAsset (Source : Type) where
  source : Source
  isAes128 : Bool
  hlsMasterPlaylist : Manifest
  dashManifest : Result Manifest
  hlsIframePlaylist : Result Manifest
  hlsMediaPlaylist : TrackKey → Result Manifest
  hlsMuxedPlaylist : Result Manifest
  hlsSubtitlePlaylist : Manifest
  subtitles : List (Text × List UInt8)
  initSegment : TrackKey → Result (List UInt8)
  muxedInitSegment : Result (List UInt8)
  prepareNumberedSegment : TrackKey → ℕ → ℕ → Result PendingSegment
  prepareMuxedSegment : ℕ → Result PendingSegment
  prepareIframe : ℕ → Result PendingSegment

variable {Source : Type}

def FileAsset.prepareMediaSegment (asset : FileAsset Source) (key : TrackKey)
    (segmentIndex : ℕ) : Result PendingSegment :=
  asset.prepareNumberedSegment key segmentIndex
    (saturatingAdd (2 ^ 32) segmentIndex 1)

/-- The subtitle file of a language. -/
def subtitleOf (subtitles : List (Text × List UInt8)) (language : Text) :
    Result (List UInt8) :=
  okOr
    ((subtitles.find? fun subtitle =>
      eqIgnoreAsciiCase subtitle.1 language).map Prod.snd)
    (.notFound "subtitle does not exist")

/-- Several files served as one title; its I-frames come from one of the
video renditions. -/
structure CompositeAsset (File : Type) extends ClipGrid File where
  subtitles : List (Text × List UInt8)
  hlsMaster : Manifest
  hlsVideo : Text → Option Manifest
  hlsAudio : List Manifest
  hlsIframes : Option Manifest
  hlsSubtitle : Manifest
  dash : Manifest
  iframeSource : Fin video.length

namespace CompositeAsset

def mediaPlaylist {File : Type} (asset : CompositeAsset File)
    (rendition : Option Text) (key : TrackKey) : Result Manifest :=
  renderedFor asset.hlsVideo asset.hlsAudio rendition key

end CompositeAsset

/-- What a sequence of clips answers. -/
structure ClipSequence (Source : Type) where
  isAes128 : Bool
  hlsMaster : Manifest
  dash : Manifest
  mediaPlaylist : TrackKey → Result Manifest
  clipInitSegment : TrackKey → ℕ → Result (List UInt8)
  prepareSegment : TrackKey → ℕ → Result (Source × PendingSegment)

/-- A sequence of clips whose every clip has the same renditions. -/
structure AdaptiveClips (File : Type) extends ClipRows File where
  hlsMaster : Manifest
  hlsVideo : Text → Option Manifest
  hlsAudio : List Manifest
  dash : Manifest

namespace AdaptiveClips

def mediaPlaylist {File : Type} (asset : AdaptiveClips File)
    (rendition : Option Text) (key : TrackKey) : Result Manifest :=
  renderedFor asset.hlsVideo asset.hlsAudio rendition key

def clipInitSegment (asset : AdaptiveClips (FileAsset Source))
    (rendition : Option Text) (key : TrackKey) (clip : ℕ) :
    Result (List UInt8) := do
  let (file, internal) ← asset.resolve rendition key clip
  file.initSegment internal

def prepareSegment (asset : AdaptiveClips (FileAsset Source))
    (rendition : Option Text) (key : TrackKey) (segmentIndex : ℕ) :
    Result (Source × PendingSegment) := do
  let (file, internal, local') ← asset.locate rendition key segmentIndex
  let prepared ← file.prepareNumberedSegment internal local'
    (saturatingAdd (2 ^ 32) segmentIndex 1)
  .ok (file.source, prepared)

end AdaptiveClips

inductive ServedKind (Source : Type)
  | single (asset : FileAsset Source)
  | composite (asset : CompositeAsset (FileAsset Source))
  | sequence (asset : ClipSequence Source)
  | adaptiveSequence (asset : AdaptiveClips (FileAsset Source))

/-- What a request for an asset is answered from.  Its URL version is a hash
in hexadecimal. -/
structure Served (Source : Type) where
  version : Text
  kind : ServedKind Source
  version_hex : version.all fun c =>
    c.isDigit || ('a'.toNat ≤ c.toNat && c.toNat ≤ 'f'.toNat)

namespace Served

variable (asset : Served Source)

/-- Whether the asset exists for HLS only. -/
def isHlsOnly : Bool :=
  match asset.kind with
  | .single file => file.isAes128
  | .composite composite => composite.video.head?.any fun entry =>
      entry.asset.isAes128
  | .sequence clips => clips.isAes128
  | .adaptiveSequence _ => false

def hlsMasterPlaylist : Manifest :=
  match asset.kind with
  | .single file => file.hlsMasterPlaylist
  | .composite composite => composite.hlsMaster
  | .sequence clips => clips.hlsMaster
  | .adaptiveSequence clips => clips.hlsMaster

def dashManifest : Result Manifest :=
  if asset.isHlsOnly then
    .error (.notFound "an AES-128 asset has no DASH manifest")
  else
    match asset.kind with
    | .single file => file.dashManifest
    | .composite composite => .ok composite.dash
    | .sequence clips => .ok clips.dash
    | .adaptiveSequence clips => .ok clips.dash

def noIframes : Error :=
  .notFound "a sequence has no I-frame playlist"

def hlsIframePlaylist : Result Manifest :=
  match asset.kind with
  | .single file => file.hlsIframePlaylist
  | .composite composite =>
      okOr composite.hlsIframes (.notFound "asset has no video track")
  | .sequence _ | .adaptiveSequence _ => .error noIframes

/-- A keyframe as a segment, and the file it is read from. -/
def prepareIframe (frameIndex : ℕ) : Result (Source × PendingSegment) :=
  match asset.kind with
  | .single file => do
      let prepared ← file.prepareIframe frameIndex
      .ok (file.source, prepared)
  | .composite composite => do
      let file := (composite.video.get composite.iframeSource).asset
      let prepared ← file.prepareIframe frameIndex
      .ok (file.source, prepared)
  | .sequence _ | .adaptiveSequence _ => .error noIframes

def subtitle (language : Text) : Result (List UInt8) :=
  match asset.kind with
  | .single file => subtitleOf file.subtitles language
  | .composite composite => subtitleOf composite.subtitles language
  | .sequence _ | .adaptiveSequence _ =>
      .error (.notFound "subtitle does not exist")

def hlsSubtitlePlaylist (language : Text) : Result Manifest :=
  match asset.kind with
  | .single file => do
      let _ ← subtitleOf file.subtitles language
      .ok file.hlsSubtitlePlaylist
  | .composite composite => do
      let _ ← subtitleOf composite.subtitles language
      .ok composite.hlsSubtitle
  | .sequence _ | .adaptiveSequence _ =>
      .error (.notFound "subtitle does not exist")

def initSegment (rendition : Option Text) (key : TrackKey) :
    Result (List UInt8) :=
  match asset.kind with
  | .single file =>
      if rendition.isSome then .error noTrack else file.initSegment key
  | .composite composite => do
      let (file, key) ← composite.resolve rendition key
      file.initSegment key
  | .sequence _ | .adaptiveSequence _ =>
      .error (.notFound "a sequence's init segments are per clip")

/-- One clip's init segment; only sequences have them. -/
def clipInitSegment (rendition : Option Text) (key : TrackKey) (clip : ℕ) :
    Result (List UInt8) :=
  match asset.kind with
  | .sequence clips =>
      if rendition.isNone then clips.clipInitSegment key clip
      else .error noTrack
  | .adaptiveSequence clips => clips.clipInitSegment rendition key clip
  | .single _ | .composite _ => .error noTrack

def hlsMediaPlaylist (rendition : Option Text) (key : TrackKey) :
    Result Manifest :=
  match asset.kind with
  | .single file =>
      if rendition.isSome then .error noTrack else file.hlsMediaPlaylist key
  | .composite composite => composite.mediaPlaylist rendition key
  | .sequence clips =>
      if rendition.isSome then .error noTrack else clips.mediaPlaylist key
  | .adaptiveSequence clips => clips.mediaPlaylist rendition key

def hlsMuxedPlaylist : Result Manifest :=
  match asset.kind with
  | .single file => file.hlsMuxedPlaylist
  | _ => .error noTrack

def muxedInitSegment : Result (List UInt8) :=
  match asset.kind with
  | .single file => file.muxedInitSegment
  | _ => .error noTrack

def prepareMuxedSegment (segmentIndex : ℕ) :
    Result (Source × PendingSegment) :=
  match asset.kind with
  | .single file => do
      let prepared ← file.prepareMuxedSegment segmentIndex
      .ok (file.source, prepared)
  | _ => .error noTrack

def prepareMediaSegment (rendition : Option Text) (key : TrackKey)
    (segmentIndex : ℕ) : Result (Source × PendingSegment) :=
  match asset.kind with
  | .single file =>
      if rendition.isSome then .error noTrack
      else do
        let prepared ← file.prepareMediaSegment key segmentIndex
        .ok (file.source, prepared)
  | .composite composite => do
      let (file, key) ← composite.resolve rendition key
      let prepared ← file.prepareMediaSegment key segmentIndex
      .ok (file.source, prepared)
  | .sequence clips =>
      if rendition.isSome then .error noTrack
      else clips.prepareSegment key segmentIndex
  | .adaptiveSequence clips => clips.prepareSegment rendition key segmentIndex

end Served

/-! ## Tracks in URLs -/

def muxedTrack : Text := "muxed".toList

/-- The canonical spelling only, so one track has exactly one URL. -/
def TrackKey.parse (text : Text) : Option TrackKey :=
  if text = "video".toList then some .video
  else do
    let digits ← stripPrefix "audio-".toList text
    let ordinal ← parseUnsigned (2 ^ 16) digits
    if ordinal ≠ 0 ∧ "audio-".toList ++ decimal ordinal = text then
      some (.audio ordinal)
    else none

/-- A `{track}` segment: the video rendition it names, if any, and the
track. -/
structure RequestedTrack where
  rendition : Option Text
  key : TrackKey
  deriving DecidableEq, Repr

def isRenditionId (id : Text) : Bool :=
  id ≠ [] && decide (utf8Length id ≤ 32) &&
    id.all fun c => c.isAlphanum || c == '-'

def trackMissing : HttpError :=
  { status := .notFound, message := "track does not exist" }

def parseTrack (track : Text) : Except HttpError RequestedTrack :=
  match stripPrefix videoPrefix track with
  | some id =>
      if isRenditionId id then .ok { rendition := some id, key := .video }
      else .error trackMissing
  | none =>
      okOr ((TrackKey.parse track).map fun key =>
        { rendition := none, key := key }) trackMissing

/-! ## Handlers -/

inductive Protocol
  | hls
  | dash
  deriving DecidableEq, Repr

/-- What the handlers ask of the rest of the program while one request is
answered. -/
structure AppState (Source : Type) where
  asset : Text → Except HttpError (Served Source)
  maxRequestHeaderBytes : ℕ
  requestSlot : Bool
  authorization : Option AuthorizationSettings
  /-- The `v` parameter of a query, or `none` where it cannot be read. -/
  versionParameter : Option Text → Option (Option Text)
  /-- Whether a quality reads as a number above zero. -/
  positiveQuality : Text → Bool
  segmentPermit : Except HttpError Unit
  encryptSegment : Source → PendingSegment → Except HttpError PreparedSegment

/-- What the handlers read of a request. -/
structure Inbound where
  head : Bool
  protocol : Protocol
  headers : Headers
  version : Option Text
  token : Option QueryToken

def requireVersion (version : Option Text) (current : Text) :
    Except HttpError Unit :=
  if version = some current then .ok ()
  else
    .error
      { status := .notFound, message := "asset version does not exist" }

def requireProtocol (asset : Served Source) (protocol : Protocol) :
    Except HttpError Unit :=
  if asset.isHlsOnly ∧ protocol = .dash then
    .error
      { status := .notFound
        message := "DASH is not available for this asset" }
  else .ok ()

/-- Whether `track` names the muxed stream, which exists under HLS only. -/
def isMuxed (track : Text) (protocol : Protocol) : Except HttpError Bool :=
  if track ≠ muxedTrack then .ok false
  else
    match protocol with
    | .hls => .ok true
    | .dash => .error trackMissing

def immutable : String := "public, max-age=31536000, immutable"

/-- `304` where the client's tags match, else what `rest` gives. -/
def unlessHeld (headers : Headers) (etag : HeaderValue) (cacheControl : String)
    (rest : Handler (Response Source)) : Handler (Response Source) :=
  if notModified headers etag then pure (notModifiedResponse etag cacheControl)
  else rest

def segmentContentType : TrackKind → String
  | .video => "video/mp4"
  | .audio => "audio/mp4"

def mediaResponse (total : ℕ) (range : ByteInterval) (etag : HeaderValue)
    (contentType : String) (body : Body Source) : Response Source :=
  let partialContent : Bool := range.start ≠ 0 || range.stop ≠ total
  { status := if partialContent then 206 else 200
    headers :=
      [("content-type", contentType.toList),
        ("cache-control", immutable.toList),
        ("accept-ranges", "bytes".toList),
        ("content-length", decimal (range.stop - range.start)),
        ("etag", etag)] ++
      if partialContent then
        [("content-range", "bytes ".toList ++ decimal range.start ++
          '-' :: decimal (range.stop - 1) ++ '/' :: decimal total)]
      else []
    body := body }

/-- The asked-for part of bytes in memory. -/
def serveBytes (headers : Headers) (etag : HeaderValue) (contentType : String)
    (bytes : List UInt8) : Handler (Response Source) :=
  match requestedRange headers bytes.length etag with
  | .error () => pure (rangeNotSatisfiable bytes.length)
  | .ok range =>
      let selected := range.getD { start := 0, stop := bytes.length }
      pure (mediaResponse bytes.length selected etag contentType
        (.bytes ((bytes.take selected.stop).drop selected.start)))

section Media

variable (state : AppState Source) (inbound : Inbound)

def initSegment (assetId track : Text) : Handler (Response Source) := do
  let asset ← .ofHttp (state.asset assetId)
  Handler.ofHttp (requireVersion inbound.version asset.version)
  Handler.ofHttp (requireProtocol asset inbound.protocol)
  let muxed ← .ofHttp (isMuxed track inbound.protocol)
  if muxed then do
    let etag ← entityTag asset.version "muxed-init".toList
    unlessHeld inbound.headers etag immutable do
      let bytes ← .ofResult asset.muxedInitSegment
      serveBytes inbound.headers etag (segmentContentType .video) bytes
  else do
    let requested ← .ofHttp (parseTrack track)
    let etag ← entityTag asset.version (track ++ "-init".toList)
    unlessHeld inbound.headers etag immutable do
      let bytes ← .ofResult
        (asset.initSegment requested.rendition requested.key)
      serveBytes inbound.headers etag (segmentContentType requested.key.kind)
        bytes

/-- What encrypting leaves to be served, and whether it holds a job slot. -/
def encryptedSegment (source : Source) (pending : PendingSegment) :
    Except HttpError (PreparedSegment × Bool) :=
  match pending.encryption with
  | none => .ok (pending.prepared, false)
  | some _ => do
      let prepared ← state.encryptSegment source pending
      .ok (prepared, true)

/-- Answers a request for a generated fragment. -/
def serveSegment (etag : HeaderValue) (kind : TrackKind)
    (prepare : Result (Source × PendingSegment)) :
    Handler (Response Source) :=
  unlessHeld inbound.headers etag immutable do
    let (source, pending) ← .ofResult prepare
    let (prepared, permitted) ← .ofHttp (encryptedSegment state source pending)
    let total := prepared.contentLength
    match requestedRange inbound.headers total etag with
    | .error () => pure (rangeNotSatisfiable total)
    | .ok range => do
        let interval := range.getD { start := 0, stop := total }
        if inbound.head then
          pure (mediaResponse total interval etag (segmentContentType kind)
            .empty)
        else do
          Handler.ofHttp (if permitted then .ok () else state.segmentPermit)
          pure (mediaResponse total interval etag (segmentContentType kind)
            (.stream source prepared interval))

def mediaSegment (assetId track : Text) (segmentIndex : ℕ) :
    Handler (Response Source) := do
  let asset ← .ofHttp (state.asset assetId)
  Handler.ofHttp (requireVersion inbound.version asset.version)
  Handler.ofHttp (requireProtocol asset inbound.protocol)
  let etag ← entityTag asset.version
    (track ++ "-segment-".toList ++ decimal segmentIndex)
  let muxed ← .ofHttp (isMuxed track inbound.protocol)
  if muxed then
    serveSegment state inbound etag .video
      (asset.prepareMuxedSegment segmentIndex)
  else do
    let requested ← .ofHttp (parseTrack track)
    serveSegment state inbound etag requested.key.kind
      (asset.prepareMediaSegment requested.rendition requested.key
        segmentIndex)

/-- One clip's init segment. -/
def clipInitSegment (assetId track : Text) (clip : ℕ) :
    Handler (Response Source) := do
  let asset ← .ofHttp (state.asset assetId)
  Handler.ofHttp (requireVersion inbound.version asset.version)
  let requested ← .ofHttp (parseTrack track)
  let etag ← entityTag asset.version
    (track ++ "-clip-".toList ++ decimal clip ++ "-init".toList)
  unlessHeld inbound.headers etag immutable do
    let bytes ← .ofResult
      (asset.clipInitSegment requested.rendition requested.key clip)
    serveBytes inbound.headers etag (segmentContentType requested.key.kind)
      bytes

/-- A sidecar subtitle file. -/
def subtitleFile (assetId language : Text) : Handler (Response Source) := do
  let asset ← .ofHttp (state.asset assetId)
  Handler.ofHttp (requireVersion inbound.version asset.version)
  let etag ← entityTag asset.version
    ("subtitle-".toList ++ language.map Char.toLower)
  unlessHeld inbound.headers etag immutable do
    let bytes ← .ofResult (asset.subtitle language)
    serveBytes inbound.headers etag "text/vtt; charset=utf-8" bytes

/-- One keyframe as a fragment of its own. -/
def iframeSegment (assetId : Text) (frameIndex : ℕ) :
    Handler (Response Source) := do
  let asset ← .ofHttp (state.asset assetId)
  Handler.ofHttp (requireVersion inbound.version asset.version)
  let etag ← entityTag asset.version ("iframe-".toList ++ decimal frameIndex)
  serveSegment state inbound etag .video (asset.prepareIframe frameIndex)

end Media

/-! ## Playlists and manifests -/

def hlsType : String := "application/vnd.apple.mpegurl"

def dashType : String := "application/dash+xml"

def playlistCache : String := "public, max-age=60"

/-- Every place of `needle` replaced, from the start on. -/
def replaceAll (needle replacement : Text) : ℕ → Text → Text
  | 0, text => text
  | fuel + 1, text =>
      match splitOnce needle text with
      | none => text
      | some (before, after) =>
          before ++ replacement ++ replaceAll needle replacement fuel after

/-- The playlist with the token added to every URL that carries the version. -/
def carryToken (playlist : Manifest) (version : Text) (token : QueryToken)
    (xml : Bool) : Text :=
  let versioned := "?v=".toList ++ version
  let joiner := if xml then "&amp;".toList else ['&']
  replaceAll versioned
    (versioned ++ joiner ++ token.parameter ++ '=' :: token.token)
    (playlist.length + 1) playlist

section Playlists

variable (state : AppState Source) (inbound : Inbound)

/-- Answers with the playlist in the best coding, or with `304`. -/
def serve (version resource : Text) (contentType : String)
    (manifest : Result Manifest) : Handler (Response Source) :=
  match inbound.token with
  | some token => do
      let manifest ← .ofResult manifest
      pure
        { status := 200
          headers := [("content-type", contentType.toList),
            ("cache-control", "private, no-store".toList)]
          body := .manifest
            (carryToken manifest version token (contentType == dashType))
            .identity }
  | none => do
      let encoding := negotiate state.positiveQuality
        ((getAll inbound.headers .acceptEncoding).filterMap headerToStr)
      let etag ← entityTag version <|
        match encoding.header with
        | some coding => resource ++ '-' :: coding
        | none => resource
      let vary := ("vary", "Accept-Encoding".toList)
      if notModified inbound.headers etag then
        let response := notModifiedResponse etag playlistCache
        pure { response with headers := response.headers ++ [vary] }
      else do
        let manifest ← .ofResult manifest
        pure
          { status := 200
            headers :=
              [("content-type", contentType.toList),
                ("cache-control", playlistCache.toList), ("etag", etag),
                vary] ++
              encoding.header.toList.map fun coding =>
                ("content-encoding", coding)
            body := .manifest manifest encoding }

def masterPlaylist (assetId : Text) : Handler (Response Source) := do
  let asset ← .ofHttp (state.asset assetId)
  serve state inbound asset.version "hls-master".toList hlsType
    (.ok asset.hlsMasterPlaylist)

def mediaPlaylistHandler (assetId track : Text) :
    Handler (Response Source) := do
  let asset ← .ofHttp (state.asset assetId)
  if track = muxedTrack then
    serve state inbound asset.version "hls-muxed-playlist".toList hlsType
      asset.hlsMuxedPlaylist
  else do
    let requested ← .ofHttp (parseTrack track)
    serve state inbound asset.version
      ("hls-".toList ++ track ++ "-playlist".toList) hlsType
      (asset.hlsMediaPlaylist requested.rendition requested.key)

def iframePlaylist (assetId : Text) : Handler (Response Source) := do
  let asset ← .ofHttp (state.asset assetId)
  serve state inbound asset.version "hls-iframe-playlist".toList hlsType
    asset.hlsIframePlaylist

def subtitlePlaylist (assetId language : Text) :
    Handler (Response Source) := do
  let asset ← .ofHttp (state.asset assetId)
  serve state inbound asset.version
    ("hls-subtitle-".toList ++ language.map Char.toLower ++
      "-playlist".toList) hlsType (asset.hlsSubtitlePlaylist language)

def dashManifestHandler (assetId : Text) : Handler (Response Source) := do
  let asset ← .ofHttp (state.asset assetId)
  serve state inbound asset.version "dash-manifest".toList dashType
    asset.dashManifest

end Playlists

end Segmentor
