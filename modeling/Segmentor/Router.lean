import Segmentor.HttpHandlers

/-!
# Routes

The media routes and the checks in front of them.  A route matches the path
as it stands in the request; a handler reads the pieces it captured
percent-decoded.  The probes and the pages of the operator are left out.
-/

namespace Segmentor

open General

/-! ## Paths -/

inductive Piece
  | literal (text : String)
  | capture

/-- What the captures of a template are in a path's segments. -/
def matchPieces : List Piece → List Text → Option (List Text)
  | [], [] => some []
  | .literal text :: pieces, segment :: segments =>
      if segment = text.toList then matchPieces pieces segments else none
  | .capture :: pieces, segment :: segments =>
      if segment = [] then none
      else (matchPieces pieces segments).map fun captures =>
        segment :: captures
  | _, _ => none

/-- A hexadecimal digit's value. -/
def hexValue (c : Char) : Option ℕ :=
  if c.isDigit then some (c.toNat - '0'.toNat)
  else if 'a' ≤ c ∧ c ≤ 'f' then some (c.toNat - 'a'.toNat + 10)
  else if 'A' ≤ c ∧ c ≤ 'F' then some (c.toNat - 'A'.toNat + 10)
  else none

/-- The octets of a path segment; a `%` without two digits stands for
itself. -/
def percentOctets : Text → List UInt8
  | [] => []
  | '%' :: a :: b :: rest =>
      match hexValue a, hexValue b with
      | some high, some low =>
          UInt8.ofNat (16 * high + low) :: percentOctets rest
      | _, _ => 0x25 :: percentOctets (a :: b :: rest)
  | c :: rest => String.utf8EncodeChar c ++ percentOctets rest

/-- A captured segment as the handlers read it. -/
def percentDecode (segment : Text) : Option Text :=
  (percentOctets segment).toByteArray.utf8Decode?.map Array.toList

/-! ## The routes -/

inductive Endpoint
  | hlsMaster
  | hlsMediaPlaylist
  | hlsIframePlaylist
  | hlsIframeSegment
  | hlsSubtitlePlaylist
  | subtitleFile (protocol : Protocol)
  | init (protocol : Protocol)
  | clipInit (protocol : Protocol)
  | segment (protocol : Protocol)
  | dashManifest
  deriving DecidableEq, Repr

def Protocol.segment : Protocol → String
  | .hls => "hls"
  | .dash => "dash"

namespace Endpoint

def protocol : Endpoint → Protocol
  | .subtitleFile protocol | .init protocol | .clipInit protocol
  | .segment protocol => protocol
  | .dashManifest => .dash
  | _ => .hls

/-- What follows the protocol in the route's path. -/
def template : Endpoint → List Piece
  | .hlsMaster => [.capture, .literal "master.m3u8"]
  | .hlsMediaPlaylist => [.capture, .capture, .literal "index.m3u8"]
  | .hlsIframePlaylist =>
      [.capture, .literal "video", .literal "iframes.m3u8"]
  | .hlsIframeSegment =>
      [.capture, .literal "video", .literal "iframes", .capture,
        .literal "media.m4s"]
  | .hlsSubtitlePlaylist =>
      [.capture, .literal "subtitles", .capture, .literal "index.m3u8"]
  | .subtitleFile _ =>
      [.capture, .literal "subtitles", .capture, .literal "sub.vtt"]
  | .init _ => [.capture, .capture, .literal "init.mp4"]
  | .clipInit _ =>
      [.capture, .capture, .literal "clips", .capture, .literal "init.mp4"]
  | .segment _ =>
      [.capture, .capture, .literal "segments", .capture, .literal "media.m4s"]
  | .dashManifest => [.capture, .literal "manifest.mpd"]

def all : List Endpoint :=
  [.hlsMaster, .hlsMediaPlaylist, .hlsIframePlaylist, .hlsIframeSegment,
    .hlsSubtitlePlaylist, .subtitleFile .hls, .subtitleFile .dash, .init .hls,
    .clipInit .hls, .segment .hls, .dashManifest, .init .dash, .clipInit .dash,
    .segment .dash]

/-- What the route captures of a path. -/
def captures (endpoint : Endpoint) (path : Text) : Option (List Text) :=
  matchPieces
    (.literal "" :: .literal endpoint.protocol.segment :: endpoint.template)
    (path.splitOn '/')

end Endpoint

/-- The route of a path, and what it captures. -/
def findRoute (path : Text) : Option (Endpoint × List Text) :=
  Endpoint.all.findSome? fun endpoint =>
    (endpoint.captures path).map fun captures => (endpoint, captures)

variable {Source : Type}

def plainResponse (status : ℕ) (message : String) : Response Source where
  status := status
  headers := [("content-type", "text/plain; charset=utf-8".toList)]
  body := .message message

def badRequest : Response Source :=
  plainResponse 400 "Invalid URL"

/-- The routes whose handlers read the `v` parameter. -/
def Endpoint.versioned : Endpoint → Bool
  | .hlsIframeSegment | .subtitleFile _ | .init _ | .clipInit _
  | .segment _ => true
  | _ => false

variable (state : AppState Source)

/-- The handler of a route, given what it captured. -/
def Endpoint.handle (inbound : Inbound) (endpoint : Endpoint)
    (captures : List Text) : Handler (Response Source) :=
  match endpoint, captures with
  | .hlsMaster, [asset] => masterPlaylist state inbound asset
  | .hlsMediaPlaylist, [asset, track] =>
      mediaPlaylistHandler state inbound asset track
  | .hlsIframePlaylist, [asset] => iframePlaylist state inbound asset
  | .hlsIframeSegment, [asset, frame] =>
      match parseUnsigned (2 ^ 32) frame with
      | some frame => iframeSegment state inbound asset frame
      | none => pure badRequest
  | .hlsSubtitlePlaylist, [asset, language] =>
      subtitlePlaylist state inbound asset language
  | .subtitleFile _, [asset, language] =>
      Segmentor.subtitleFile state inbound asset language
  | .init _, [asset, track] => initSegment state inbound asset track
  | .clipInit _, [asset, track, clip] =>
      match parseUnsigned (2 ^ 32) clip with
      | some clip => Segmentor.clipInitSegment state inbound asset track clip
      | none => pure badRequest
  | .segment _, [asset, track, index] =>
      match parseUnsigned (2 ^ 32) index with
      | some index => mediaSegment state inbound asset track index
      | none => pure badRequest
  | .dashManifest, [asset] => dashManifestHandler state inbound asset
  | _, _ => pure badRequest

/-- What a handler is called with, or `none` where the path or the query
cannot be read. -/
def readRequest (request : HttpRequest) (token : Option QueryToken)
    (endpoint : Endpoint) (captures : List Text) :
    Option (Inbound × List Text) := do
  let captures ← captures.mapM percentDecode
  let version ←
    if endpoint.versioned then state.versionParameter request.query
    else some none
  some
    ({ head := request.head
       protocol := endpoint.protocol
       headers := request.headers
       version := version
       token := token }, captures)

/-- The checks in front of a handler: the handler a request reaches and what
it is called with, or the answer to a request that reaches none. -/
def dispatch (request : HttpRequest) :
    Except (Response Source) (Endpoint × Inbound × List Text) :=
  if !state.requestSlot then
    .error
      (HttpError.mk .unavailable "too many concurrent requests").response
  else if state.maxRequestHeaderBytes < headerBytes request.headers then
    .error (plainResponse 431 "request headers are too large")
  else
    match findRoute request.path with
    | none => .error (plainResponse 404 "")
    | some (endpoint, captures) =>
        match state.authorization.elim (.ok none) (·.authorize request) with
        | .error denial => .error denial.response
        | .ok token =>
            match readRequest state request token endpoint captures with
            | none => .error badRequest
            | some (inbound, captures) => .ok (endpoint, inbound, captures)

/-- The answer to a request for media. -/
def answer (request : HttpRequest) : Handler (Response Source) :=
  match dispatch state request with
  | .error response => pure response
  | .ok (endpoint, inbound, captures) =>
      (endpoint.handle state inbound captures).respond

end Segmentor
