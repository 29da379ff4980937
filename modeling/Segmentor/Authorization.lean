import Segmentor.HttpMessages

/-!
# Playback tokens

A token grants assets and, where it lists them, renditions and subtitle
languages.  What a request asks for is read from its path as it stands.
Checking a token's signature, times and claims is a parameter.
-/

namespace Segmentor

open General

/-- Why a token was refused. -/
inductive Denial
  | malformed
  | tooLarge
  | wrongAlgorithm
  | badSignature
  | expired
  | notYetValid
  | notCovered
  deriving DecidableEq, Repr

/-- What a caller is told. -/
def Denial.message : Denial → String
  | .expired => "token expired"
  | .notYetValid => "token not yet valid"
  | .notCovered => "the token does not cover this resource"
  | .malformed | .tooLarge | .wrongAlgorithm | .badSignature => "invalid token"

def Denial.status : Denial → ℕ
  | .notCovered => 403
  | _ => 401

/-- What a verified token grants; a list that is absent covers everything. -/
structure Grant where
  assets : List Text
  renditions : Option (List Text)
  subtitles : Option (List Text)
  deriving DecidableEq, Repr

/-- What a request asks for, read from its path. -/
structure Resource where
  asset : Text
  rendition : Option Text
  subtitle : Option Text
  deriving DecidableEq, Repr

/-- What is behind `pre`, where the text starts with it. -/
def stripPrefix (pre text : Text) : Option Text :=
  if pre.isPrefixOf text then some (text.drop pre.length) else none

def videoPrefix : Text := "video-".toList

namespace Resource

/-- The segments of a path, if it names media. -/
def mediaSegments (path : Text) : Option (List Text) :=
  match path with
  | '/' :: rest =>
      match rest.splitOn '/' with
      | protocol :: segments =>
          if protocol = "hls".toList ∨ protocol = "dash".toList then
            some segments
          else none
      | [] => none
  | _ => none

/-- What a media path names behind the asset. -/
def named (asset : Text) : List Text → Resource
  | [] => { asset := asset, rendition := none, subtitle := none }
  | segment :: rest =>
      if segment = "subtitles".toList then
        { asset := asset, rendition := none, subtitle := rest.head? }
      else
        { asset := asset
          rendition := stripPrefix videoPrefix segment
          subtitle := none }

/-- The resource a media path names. -/
def fromPath (path : Text) : Option Resource := do
  let segments ← mediaSegments path
  match segments with
  | [] => none
  | asset :: rest => if asset = [] then none else some (named asset rest)

end Resource

/-- Whether the grant covers the resource: its asset and, where the grant
lists renditions or languages, the one asked for. -/
def Grant.covers (grant : Grant) (resource : Resource) : Bool :=
  grant.assets.contains resource.asset &&
    (match grant.renditions, resource.rendition with
      | some allowed, some rendition => allowed.contains rendition
      | _, _ => true) &&
    (match grant.subtitles, resource.subtitle with
      | some allowed, some language =>
          allowed.any fun candidate => eqIgnoreAsciiCase candidate language
      | _, _ => true)

structure AuthorizationSettings where
  headerTransport : Bool
  cookieTransport : Bool
  queryTransport : Bool
  cookieName : Text
  queryParameter : Text
  verify : Text → Except Denial Grant

/-- A token that arrived as a query parameter. -/
structure QueryToken where
  parameter : Text
  token : Text
  deriving DecidableEq, Repr

namespace AuthorizationSettings

variable (settings : AuthorizationSettings) (request : HttpRequest)

def headerToken : Option Text :=
  if settings.headerTransport then do
    let value ← (getFirst request.headers .authorization).bind headerToStr
    let (scheme, token) ← splitAtFirst (· == ' ') value
    if eqIgnoreAsciiCase scheme "bearer".toList then some (trim token)
    else none
  else none

def cookieToken : Option Text :=
  if settings.cookieTransport then
    (((getAll request.headers .cookie).filterMap headerToStr).flatMap
      fun line => line.splitOn ';').findSome? fun pair =>
        (splitAtFirst (· == '=') (trim pair)).bind fun (name, value) =>
          if name = settings.cookieName then some (trim value) else none
  else none

def queryToken : Option Text :=
  if settings.queryTransport then
    request.query.bind fun query => (query.splitOn '&').findSome? fun pair =>
      (splitAtFirst (· == '=') pair).bind fun (name, value) =>
        if name = settings.queryParameter then some value else none
  else none

/-- The token a request carries, and whether it came in the query: the first
of the enabled transports that has one. -/
def findToken : Option (Text × Bool) :=
  ((settings.headerToken request).map fun token => (token, false)).or
    (((settings.cookieToken request).map fun token => (token, false)).or
      ((settings.queryToken request).map fun token => (token, true)))

/-- Lets a request through, with the token its playlists are to carry. -/
def authorize : Except Denial (Option QueryToken) :=
  match settings.findToken request with
  | none => .error .malformed
  | some (token, fromQuery) => do
      let grant ← settings.verify token
      if (Resource.fromPath request.path).any grant.covers then
        .ok <|
          if fromQuery then
            some { parameter := settings.queryParameter, token := token }
          else none
      else .error .notCovered

end AuthorizationSettings

/-- The answer to a refused request. -/
def Denial.response {Source : Type} (denial : Denial) : Response Source where
  status := denial.status
  headers :=
    ("cache-control", "no-store".toList) ::
      if denial.status = 401 then [("www-authenticate", "Bearer".toList)]
      else []
  body := .message denial.message

end Segmentor
