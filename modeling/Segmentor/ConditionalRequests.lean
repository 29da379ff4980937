import Segmentor.EntityTags

/-!
# Conditional requests

A handler compares the listed tags before it looks its resource up.  What a
request with `If-None-Match` is answered with, next to the answer to the same
request without it.
-/

namespace Segmentor

open General

variable {Source : Type}

/-! ## The same request without `If-None-Match` -/

def Headers.unconditional (headers : Headers) : Headers :=
  headers.filter fun header => header.1 != .ifNoneMatch

def HttpRequest.unconditional (request : HttpRequest) : HttpRequest :=
  { request with headers := Headers.unconditional request.headers }

def Inbound.unconditional (inbound : Inbound) : Inbound :=
  { inbound with headers := Headers.unconditional inbound.headers }

theorem getAll_unconditional (headers : Headers) {name : HeaderName}
    (hname : name ≠ .ifNoneMatch) :
    getAll (Headers.unconditional headers) name = getAll headers name := by
  unfold getAll Headers.unconditional
  rw [List.filter_filter]
  congr 1
  apply List.filter_congr
  intro header _
  rw [Bool.eq_iff_iff, Bool.and_eq_true]
  constructor
  · exact fun h => h.1
  · intro h
    refine ⟨h, ?_⟩
    rw [beq_iff_eq] at h
    rw [h]
    simpa using hname

theorem getAll_ifNoneMatch_unconditional (headers : Headers) :
    getAll (Headers.unconditional headers) .ifNoneMatch = [] := by
  unfold getAll Headers.unconditional
  rw [List.map_eq_nil_iff, List.filter_filter, List.filter_eq_nil_iff]
  intro header _
  simp

theorem notModified_unconditional (headers : Headers) (etag : HeaderValue) :
    notModified (Headers.unconditional headers) etag = false := by
  unfold notModified
  rw [getAll_ifNoneMatch_unconditional]
  cases headerToStr etag <;> rfl

theorem requestedRange_unconditional (headers : Headers) (total : ℕ)
    (etag : HeaderValue) :
    requestedRange (Headers.unconditional headers) total etag =
      requestedRange headers total etag := by
  unfold requestedRange getFirst
  rw [getAll_unconditional headers (by decide),
    getAll_unconditional headers (by decide)]

theorem headerBytes_unconditional_le (headers : Headers) :
    headerBytes (Headers.unconditional headers) ≤ headerBytes headers := by
  unfold headerBytes Headers.unconditional
  apply List.Sublist.sum_le_sum
  · exact (List.filter_sublist).map _
  · intro _ _
    exact Nat.zero_le _

theorem authorize_unconditional (settings : AuthorizationSettings)
    (request : HttpRequest) :
    settings.authorize request.unconditional = settings.authorize request := by
  have htoken : settings.findToken request.unconditional =
      settings.findToken request := by
    unfold AuthorizationSettings.findToken
      AuthorizationSettings.headerToken AuthorizationSettings.cookieToken
      AuthorizationSettings.queryToken getFirst
    dsimp only [HttpRequest.unconditional]
    rw [getAll_unconditional _ (by decide), getAll_unconditional _ (by decide)]
  unfold AuthorizationSettings.authorize
  rw [htoken]
  rfl

/-! ## Statuses -/

namespace Handler

/-- The status a run is answered with, if it does not panic. -/
def status (run : Handler (Response Source)) : Option ℕ :=
  match run.outcome with
  | .ok response => some response.status
  | .error (.refused error) => some error.status.code
  | .error .panicked => none

@[simp] theorem status_pure (response : Response Source) :
    (pure response : Handler (Response Source)).status =
      some response.status := rfl

@[simp] theorem status_respond (run : Handler (Response Source)) :
    run.respond.status = run.status := by
  obtain ⟨names, outcome⟩ := run
  cases outcome with
  | ok response => rfl
  | error failure => cases failure <;> rfl

end Handler

/-- A status a handler gives without `If-None-Match`. -/
def Unconditional (status : Option ℕ) : Prop :=
  status ≠ some 304 ∧ status ≠ some 431

instance (status : Option ℕ) : Decidable (Unconditional status) :=
  inferInstanceAs (Decidable (_ ∧ _))

theorem unconditional_code (error : HttpError) :
    Unconditional (some error.status.code) := by
  unfold Unconditional
  cases error.status <;> decide

/-- How a run answers next to the same run without `If-None-Match`, where
`tag` is the entity tag it compares. -/
structure Held (headers : Headers) (tag : Option HeaderValue)
    (given plain : Handler (Response Source)) : Prop where
  given_eq : given.status =
    if tag.any (notModified headers) then some 304 else plain.status
  plain_status : Unconditional plain.status

/-- A run that compares nothing. -/
theorem held_same {headers : Headers} {run : Handler (Response Source)}
    (h : Unconditional run.status) : Held headers none run run where
  given_eq := rfl
  plain_status := h

theorem held_check {α : Type} {headers : Headers} {x : Except HttpError α}
    {tag : α → Option HeaderValue}
    {given plain : α → Handler (Response Source)}
    (h : ∀ a, x = .ok a → Held headers (tag a) (given a) (plain a)) :
    Held headers (x.toOption.bind tag) (Handler.ofHttp x >>= given)
      (Handler.ofHttp x >>= plain) := by
  cases x with
  | ok a => exact h a rfl
  | error error => exact held_same (unconditional_code error)

/-- The entity tag of a resource, where a header value can hold it. -/
def tagOf (version resource : Text) : Option HeaderValue :=
  headerFromStr ('"' :: (version ++ '-' :: resource ++ ['"']))

theorem held_entityTag {headers : Headers} {version resource : Text}
    {tag : HeaderValue → Option HeaderValue}
    {given plain : HeaderValue → Handler (Response Source)}
    (h : ∀ etag, tagOf version resource = some etag →
      Held headers (tag etag) (given etag) (plain etag)) :
    Held headers ((tagOf version resource).bind tag)
      (entityTag version resource >>= given)
      (entityTag version resource >>= plain) := by
  have hbind : ∀ next : HeaderValue → Handler (Response Source),
      (entityTag version resource >>= next).status =
        (tagOf version resource).elim none fun etag => (next etag).status := by
    intro next
    rw [Handler.bind_eq]
    unfold Handler.bind entityTag Handler.status tagOf
    cases headerFromStr _ with
    | some etag => rfl
    | none => rfl
  constructor
  · rw [hbind, hbind]
    cases htag : tagOf version resource with
    | some etag => exact (h etag htag).given_eq
    | none => rfl
  · rw [hbind]
    cases htag : tagOf version resource with
    | some etag => exact (h etag htag).plain_status
    | none => exact ⟨by simp, by simp⟩

theorem held_unlessHeld {headers : Headers} {etag : HeaderValue}
    {cacheControl : String} {given plain : Handler (Response Source)}
    (hsame : given.status = plain.status)
    (hplain : Unconditional plain.status) :
    Held headers (some etag) (unlessHeld headers etag cacheControl given)
      (unlessHeld (Headers.unconditional headers) etag cacheControl plain) := by
  have hunheld : unlessHeld (Headers.unconditional headers) etag cacheControl
      plain = plain := by
    unfold unlessHeld
    rw [notModified_unconditional, if_neg Bool.false_ne_true]
  rw [hunheld]
  constructor
  · unfold unlessHeld
    rw [Option.any_some]
    split
    · rfl
    · exact hsame
  · exact hplain

/-! ## What is served -/

theorem unconditional_mediaResponse (total : ℕ) (range : ByteInterval)
    (etag : HeaderValue) (contentType : String) (body : Body Source) :
    Unconditional
      (some (mediaResponse total range etag contentType body).status) := by
  unfold mediaResponse
  dsimp only
  split <;> decide

theorem unconditional_serveBytes (headers : Headers) (etag : HeaderValue)
    (contentType : String) (bytes : List UInt8) :
    Unconditional (serveBytes headers etag contentType bytes :
      Handler (Response Source)).status := by
  unfold serveBytes
  split
  · rw [Handler.status_pure]
    exact (by decide : Unconditional (some 416))
  · exact unconditional_mediaResponse _ _ _ _ _

theorem unconditional_ofHttp_bind {α : Type} {x : Except HttpError α}
    {next : α → Handler (Response Source)}
    (h : ∀ a, Unconditional (next a).status) :
    Unconditional (Handler.ofHttp x >>= next).status := by
  cases x with
  | ok a => exact h a
  | error error => exact unconditional_code error

theorem unconditional_ofResult_bind {α : Type} {x : Result α}
    {next : α → Handler (Response Source)}
    (h : ∀ a, Unconditional (next a).status) :
    Unconditional (Handler.ofResult x >>= next).status := by
  cases x with
  | ok a => exact h a
  | error error => exact unconditional_code _

theorem held_bytes (headers : Headers) (etag : HeaderValue)
    (contentType : String) (bytes : Result (List UInt8)) :
    Held headers (some etag)
      (unlessHeld headers etag immutable do
        let bytes ← .ofResult bytes
        (serveBytes headers etag contentType bytes :
          Handler (Response Source)))
      (unlessHeld (Headers.unconditional headers) etag immutable do
        let bytes ← .ofResult bytes
        serveBytes (Headers.unconditional headers) etag contentType bytes) := by
  apply held_unlessHeld
  · unfold serveBytes
    simp only [requestedRange_unconditional]
  · apply unconditional_ofResult_bind
    intro data
    exact unconditional_serveBytes _ _ _ _

variable (state : AppState Source) (inbound : Inbound)

theorem held_serveSegment (etag : HeaderValue) (kind : TrackKind)
    (prepare : Result (Source × PendingSegment)) :
    Held inbound.headers (some etag)
      (serveSegment state inbound etag kind prepare)
      (serveSegment state inbound.unconditional etag kind prepare) := by
  apply held_unlessHeld
  · dsimp only [Inbound.unconditional]
    simp only [requestedRange_unconditional]
    rfl
  · apply unconditional_ofResult_bind
    rintro ⟨source, pending⟩
    apply unconditional_ofHttp_bind
    rintro ⟨prepared, permitted⟩
    dsimp only
    split
    · exact (by decide : Unconditional (some 416))
    · split
      · exact unconditional_mediaResponse _ _ _ _ _
      · apply unconditional_ofHttp_bind
        intro _
        exact unconditional_mediaResponse _ _ _ _ _

/-- The tag a playlist is compared by; one that carries a token has none. -/
def playlistTag (version resource : Text) : Option HeaderValue :=
  if inbound.token.isSome then none
  else do
    let encoding := negotiate state.positiveQuality
      ((getAll inbound.headers .acceptEncoding).filterMap headerToStr)
    let etag ← tagOf version <|
      match encoding.header with
      | some coding => resource ++ '-' :: coding
      | none => resource
    some etag

theorem held_serve (version resource : Text) (contentType : String)
    (manifest : Result Manifest) :
    Held inbound.headers (playlistTag state inbound version resource)
      (serve state inbound version resource contentType manifest)
      (serve state inbound.unconditional version resource contentType
        manifest) := by
  unfold playlistTag serve
  dsimp only [Inbound.unconditional]
  rw [getAll_unconditional _ (by decide)]
  cases inbound.token with
  | some token =>
      apply held_same
      apply unconditional_ofResult_bind
      intro _
      exact (by decide : Unconditional (some 200))
  | none =>
      apply held_entityTag
      intro etag _
      simp only [notModified_unconditional, Bool.false_eq_true, if_false]
      constructor
      · rw [Option.any_some]
        split
        · rfl
        · rfl
      · apply unconditional_ofResult_bind
        intro _
        exact (by decide : Unconditional (some 200))

/-! ## Handlers and the tags they compare -/

variable (assetId : Text)

def initSegmentTag (track : Text) : Option HeaderValue := do
  let asset ← (state.asset assetId).toOption
  let _ ← (requireVersion inbound.version asset.version).toOption
  let _ ← (requireProtocol asset inbound.protocol).toOption
  let muxed ← (isMuxed track inbound.protocol).toOption
  if muxed then do
    let etag ← tagOf asset.version "muxed-init".toList
    some etag
  else do
    let _ ← (parseTrack track).toOption
    let etag ← tagOf asset.version (track ++ "-init".toList)
    some etag

theorem held_initSegment (track : Text) :
    Held inbound.headers (initSegmentTag state inbound assetId track)
      (initSegment state inbound assetId track)
      (initSegment state inbound.unconditional assetId track) := by
  apply held_check
  intro asset _
  apply held_check
  intro _ _
  apply held_check
  intro _ _
  apply held_check
  intro muxed _
  cases muxed with
  | true =>
      apply held_entityTag
      intro etag _
      exact held_bytes _ _ _ _
  | false =>
      apply held_check
      intro requested _
      apply held_entityTag
      intro etag _
      exact held_bytes _ _ _ _

def mediaSegmentTag (track : Text) (segmentIndex : ℕ) :
    Option HeaderValue := do
  let asset ← (state.asset assetId).toOption
  let _ ← (requireVersion inbound.version asset.version).toOption
  let _ ← (requireProtocol asset inbound.protocol).toOption
  let etag ← tagOf asset.version
    (track ++ "-segment-".toList ++ decimal segmentIndex)
  let muxed ← (isMuxed track inbound.protocol).toOption
  if muxed then some etag
  else do
    let _ ← (parseTrack track).toOption
    some etag

theorem held_mediaSegment (track : Text) (segmentIndex : ℕ) :
    Held inbound.headers
      (mediaSegmentTag state inbound assetId track segmentIndex)
      (mediaSegment state inbound assetId track segmentIndex)
      (mediaSegment state inbound.unconditional assetId track
        segmentIndex) := by
  apply held_check
  intro asset _
  apply held_check
  intro _ _
  apply held_check
  intro _ _
  apply held_entityTag
  intro etag _
  apply held_check
  intro muxed _
  cases muxed with
  | true => exact held_serveSegment state inbound _ _ _
  | false =>
      apply held_check
      intro requested _
      exact held_serveSegment state inbound _ _ _

def clipInitSegmentTag (track : Text) (clip : ℕ) : Option HeaderValue := do
  let asset ← (state.asset assetId).toOption
  let _ ← (requireVersion inbound.version asset.version).toOption
  let _ ← (parseTrack track).toOption
  let etag ← tagOf asset.version
    (track ++ "-clip-".toList ++ decimal clip ++ "-init".toList)
  some etag

theorem held_clipInitSegment (track : Text) (clip : ℕ) :
    Held inbound.headers (clipInitSegmentTag state inbound assetId track clip)
      (clipInitSegment state inbound assetId track clip)
      (clipInitSegment state inbound.unconditional assetId track clip) := by
  apply held_check
  intro asset _
  apply held_check
  intro _ _
  apply held_check
  intro requested _
  apply held_entityTag
  intro etag _
  exact held_bytes _ _ _ _

def subtitleFileTag (language : Text) : Option HeaderValue := do
  let asset ← (state.asset assetId).toOption
  let _ ← (requireVersion inbound.version asset.version).toOption
  let etag ← tagOf asset.version
    ("subtitle-".toList ++ language.map Char.toLower)
  some etag

theorem held_subtitleFile (language : Text) :
    Held inbound.headers (subtitleFileTag state inbound assetId language)
      (subtitleFile state inbound assetId language)
      (subtitleFile state inbound.unconditional assetId language) := by
  apply held_check
  intro asset _
  apply held_check
  intro _ _
  apply held_entityTag
  intro etag _
  exact held_bytes _ _ _ _

def iframeSegmentTag (frameIndex : ℕ) : Option HeaderValue := do
  let asset ← (state.asset assetId).toOption
  let _ ← (requireVersion inbound.version asset.version).toOption
  let etag ← tagOf asset.version ("iframe-".toList ++ decimal frameIndex)
  some etag

theorem held_iframeSegment (frameIndex : ℕ) :
    Held inbound.headers (iframeSegmentTag state inbound assetId frameIndex)
      (iframeSegment state inbound assetId frameIndex)
      (iframeSegment state inbound.unconditional assetId frameIndex) := by
  apply held_check
  intro asset _
  apply held_check
  intro _ _
  apply held_entityTag
  intro etag _
  exact held_serveSegment state inbound _ _ _

/-- The tag of a playlist that every asset has one of. -/
def fixedPlaylistTag (resource : Text) : Option HeaderValue := do
  let asset ← (state.asset assetId).toOption
  playlistTag state inbound asset.version resource

theorem held_fixedPlaylist (resource : Text) (contentType : String)
    (manifest : Served Source → Result Manifest) :
    Held inbound.headers (fixedPlaylistTag state inbound assetId resource)
      (do
        let asset ← .ofHttp (state.asset assetId)
        serve state inbound asset.version resource contentType
          (manifest asset))
      (do
        let asset ← .ofHttp (state.asset assetId)
        serve state inbound.unconditional asset.version resource contentType
          (manifest asset)) := by
  apply held_check
  intro asset _
  exact held_serve state inbound _ _ _ _

def mediaPlaylistTag (track : Text) : Option HeaderValue := do
  let asset ← (state.asset assetId).toOption
  if track = muxedTrack then
    playlistTag state inbound asset.version "hls-muxed-playlist".toList
  else do
    let _ ← (parseTrack track).toOption
    playlistTag state inbound asset.version
      ("hls-".toList ++ track ++ "-playlist".toList)

theorem held_mediaPlaylistHandler (track : Text) :
    Held inbound.headers (mediaPlaylistTag state inbound assetId track)
      (mediaPlaylistHandler state inbound assetId track)
      (mediaPlaylistHandler state inbound.unconditional assetId track) := by
  apply held_check
  intro asset _
  by_cases hmuxed : track = muxedTrack
  · simp only [if_pos hmuxed]
    exact held_serve state inbound _ _ _ _
  · simp only [if_neg hmuxed]
    apply held_check
    intro requested _
    exact held_serve state inbound _ _ _ _

/-- The tag a route's handler compares the listed ones with, where the
request gets that far: its resource need not be there. -/
def Endpoint.comparedTag (endpoint : Endpoint) (captures : List Text) :
    Option HeaderValue :=
  match endpoint, captures with
  | .hlsMaster, [asset] =>
      fixedPlaylistTag state inbound asset "hls-master".toList
  | .hlsMediaPlaylist, [asset, track] =>
      mediaPlaylistTag state inbound asset track
  | .hlsIframePlaylist, [asset] =>
      fixedPlaylistTag state inbound asset "hls-iframe-playlist".toList
  | .hlsIframeSegment, [asset, frame] =>
      (parseUnsigned (2 ^ 32) frame).bind
        (iframeSegmentTag state inbound asset)
  | .hlsSubtitlePlaylist, [asset, language] =>
      fixedPlaylistTag state inbound asset
        ("hls-subtitle-".toList ++ language.map Char.toLower ++
          "-playlist".toList)
  | .subtitleFile _, [asset, language] =>
      subtitleFileTag state inbound asset language
  | .init _, [asset, track] => initSegmentTag state inbound asset track
  | .clipInit _, [asset, track, clip] =>
      (parseUnsigned (2 ^ 32) clip).bind
        (clipInitSegmentTag state inbound asset track)
  | .segment _, [asset, track, index] =>
      (parseUnsigned (2 ^ 32) index).bind
        (mediaSegmentTag state inbound asset track)
  | .dashManifest, [asset] =>
      fixedPlaylistTag state inbound asset "dash-manifest".toList
  | _, _ => none

theorem held_badRequest (headers : Headers) :
    Held headers none (pure badRequest : Handler (Response Source))
      (pure badRequest) := by
  apply held_same
  exact (by decide : Unconditional (some 400))

/-- A numbered resource; a number that cannot be read is refused. -/
theorem held_numbered {headers : Headers} {number : Option ℕ}
    {tag : ℕ → Option HeaderValue} {given plain : ℕ → Handler (Response Source)}
    (h : ∀ n, Held headers (tag n) (given n) (plain n)) :
    Held headers (number.bind tag)
      (match number with
        | some n => given n
        | none => pure badRequest)
      (match number with
        | some n => plain n
        | none => pure badRequest) := by
  cases number with
  | some n => exact h n
  | none => exact held_badRequest headers

theorem held_handle (endpoint : Endpoint) (captures : List Text) :
    Held inbound.headers (endpoint.comparedTag state inbound captures)
      (endpoint.handle state inbound captures)
      (endpoint.handle state inbound.unconditional captures) := by
  unfold Endpoint.handle
  split
  · exact held_fixedPlaylist state inbound _ _ _ _
  · exact held_mediaPlaylistHandler state inbound _ _
  · exact held_fixedPlaylist state inbound _ _ _ _
  · exact held_numbered (held_iframeSegment state inbound _)
  · exact held_fixedPlaylist state inbound _ _ _ _
  · exact held_subtitleFile state inbound _ _
  · exact held_initSegment state inbound _ _
  · exact held_numbered (held_clipInitSegment state inbound _ _)
  · exact held_numbered (held_mediaSegment state inbound _ _)
  · exact held_fixedPlaylist state inbound _ _ _ _
  · -- no route captures these pieces
    have htag : endpoint.comparedTag state inbound captures = none := by
      unfold Endpoint.comparedTag
      split
      case h_11 => rfl
      all_goals grind
    rw [htag]
    exact held_badRequest _

/-! ## Whole requests -/

theorem readRequest_unconditional (request : HttpRequest)
    (token : Option QueryToken) (endpoint : Endpoint) (captures : List Text) :
    readRequest state request.unconditional token endpoint captures =
      (readRequest state request token endpoint captures).map fun reached =>
        (reached.1.unconditional, reached.2) := by
  unfold readRequest
  cases captures.mapM percentDecode with
  | none => rfl
  | some decoded =>
      dsimp only [HttpRequest.unconditional]
      cases endpoint.versioned with
      | false => rfl
      | true => cases state.versionParameter request.query <;> rfl

/-- Where its headers are not too large, a request reaches the handler that
it reaches without `If-None-Match`. -/
theorem dispatch_unconditional {request : HttpRequest}
    (hfits : headerBytes request.headers ≤ state.maxRequestHeaderBytes) :
    dispatch state request.unconditional =
      (dispatch state request).map fun reached =>
        (reached.1, reached.2.1.unconditional, reached.2.2) := by
  have hle := headerBytes_unconditional_le request.headers
  have hsame : headerBytes request.unconditional.headers ≤
      state.maxRequestHeaderBytes := hle.trans hfits
  unfold dispatch
  rw [if_neg (Nat.not_lt.mpr hfits), if_neg (Nat.not_lt.mpr hsame)]
  split
  · rfl
  · have hpath : request.unconditional.path = request.path := rfl
    rw [hpath]
    cases findRoute request.path with
    | none => rfl
    | some found =>
        obtain ⟨endpoint, captures⟩ := found
        have hauthorize : state.authorization.elim (.ok none)
            (·.authorize request.unconditional) =
            state.authorization.elim (.ok none) (·.authorize request) := by
          cases state.authorization with
          | none => rfl
          | some settings => exact authorize_unconditional settings request
        dsimp only
        rw [hauthorize]
        cases state.authorization.elim (.ok none) (·.authorize request) with
        | error denial => rfl
        | ok token =>
            dsimp only
            rw [readRequest_unconditional]
            cases readRequest state request token endpoint captures <;> rfl

/-- What keeps the answer as it is without `If-None-Match`: the header does
not make the headers too large, and no listed tag matches the one the
request's handler compares before it looks its resource up. -/
def HttpRequest.Unmatched (request : HttpRequest) : Prop :=
  (state.requestSlot = true →
    headerBytes request.unconditional.headers ≤ state.maxRequestHeaderBytes →
    headerBytes request.headers ≤ state.maxRequestHeaderBytes) ∧
  ∀ endpoint inbound captures etag,
    dispatch state request = .ok (endpoint, inbound, captures) →
    endpoint.comparedTag state inbound captures = some etag →
    notModified inbound.headers etag = false

theorem dispatch_of_busy {request : HttpRequest}
    (hbusy : state.requestSlot = false) :
    dispatch state request =
      .error
        (HttpError.mk .unavailable "too many concurrent requests").response := by
  unfold dispatch
  rw [hbusy]
  rfl

theorem dispatch_of_tooLarge {request : HttpRequest}
    (hfree : state.requestSlot = true)
    (hlarge : state.maxRequestHeaderBytes < headerBytes request.headers) :
    dispatch state request =
      .error (plainResponse 431 "request headers are too large") := by
  unfold dispatch
  rw [hfree, if_pos hlarge]
  rfl

theorem unconditional_denial (denial : Denial) :
    Unconditional (some denial.status) := by
  cases denial <;> decide

/-- The checks in front of a handler answer neither `304` nor, where the
headers fit, `431`. -/
theorem unconditional_refusal {request : HttpRequest}
    {response : Response Source}
    (hfits : headerBytes request.headers ≤ state.maxRequestHeaderBytes)
    (hrefused : dispatch state request = .error response) :
    Unconditional (some response.status) := by
  unfold dispatch at hrefused
  rw [if_neg (Nat.not_lt.mpr hfits)] at hrefused
  split at hrefused
  · obtain rfl := Except.error.inj hrefused
    exact (by decide : Unconditional (some 503))
  · split at hrefused
    · obtain rfl := Except.error.inj hrefused
      exact (by decide : Unconditional (some 404))
    · split at hrefused
      · next denial _ =>
          obtain rfl := Except.error.inj hrefused
          exact unconditional_denial denial
      · split at hrefused
        · obtain rfl := Except.error.inj hrefused
          exact (by decide : Unconditional (some 400))
        · cases hrefused

theorem unconditional_unconditional (request : HttpRequest) :
    request.unconditional.unconditional = request.unconditional := by
  unfold HttpRequest.unconditional Headers.unconditional
  rw [List.filter_filter]
  simp only [Bool.and_self]

/-- Without `If-None-Match`, headers that fit are answered with neither `304`
nor `431`. -/
theorem unconditional_answer {request : HttpRequest} {status : ℕ}
    (hfits : headerBytes (Headers.unconditional request.headers) ≤
      state.maxRequestHeaderBytes)
    (hstatus : (answer state request.unconditional).status = some status) :
    Unconditional (some status) := by
  have hreach := dispatch_unconditional state 
    (show headerBytes request.unconditional.headers ≤ _ from hfits)
  rw [unconditional_unconditional] at hreach
  unfold answer at hstatus
  cases hdispatch : dispatch state request.unconditional with
  | error response =>
      rw [hdispatch] at hstatus
      obtain rfl := Option.some.inj hstatus
      exact unconditional_refusal state hfits hdispatch
  | ok reached =>
      obtain ⟨endpoint, inbound, captures⟩ := reached
      rw [hdispatch] at hstatus hreach
      have hsame : inbound = inbound.unconditional :=
        congrArg (fun reached => reached.2.1) (Except.ok.inj hreach)
      have hheld := held_handle state inbound endpoint captures
      rw [← hsame] at hheld
      dsimp only at hstatus
      rw [Handler.status_respond] at hstatus
      rw [← hstatus]
      exact hheld.plain_status

/-- A request that has an answer without `If-None-Match` is answered alike
with it exactly where no listed tag matches the one its handler compares. -/
theorem conditional_keeps_status_iff {request : HttpRequest} {status : ℕ}
    (hstatus : (answer state request.unconditional).status = some status) :
    (answer state request).status = some status ∧
        (answer state request).status ≠ some 304 ↔
      request.Unmatched state := by
  unfold HttpRequest.Unmatched
  cases hslot : state.requestSlot with
  | false =>
      unfold answer at *
      rw [dispatch_of_busy state hslot] at hstatus ⊢
      obtain rfl := Option.some.inj hstatus
      refine iff_of_true ⟨rfl, ?_⟩ ⟨by simp, by simp⟩
      exact (by decide : some 503 ≠ some 304)
  | true =>
      rcases Nat.lt_or_ge state.maxRequestHeaderBytes
        (headerBytes request.unconditional.headers) with hlarge | hsmall
      · have hlarge' := hlarge.trans_le
          (headerBytes_unconditional_le request.headers)
        unfold answer at *
        rw [dispatch_of_tooLarge state hslot hlarge] at hstatus
        rw [dispatch_of_tooLarge state hslot hlarge']
        obtain rfl := Option.some.inj hstatus
        refine iff_of_true ⟨rfl, ?_⟩
          ⟨fun _ hfits => absurd hfits (Nat.not_le.mpr hlarge), by simp⟩
        exact (by decide : some 431 ≠ some 304)
      · have hplain := unconditional_answer state hsmall hstatus
        rcases Nat.lt_or_ge state.maxRequestHeaderBytes
          (headerBytes request.headers) with hlarge | hfits
        · apply iff_of_false
          · rintro ⟨hsame, -⟩
            unfold answer at hsame
            rw [dispatch_of_tooLarge state hslot hlarge] at hsame
            exact hplain.2 hsame.symm
          · rintro ⟨hfits, -⟩
            exact absurd (hfits rfl hsmall) (Nat.not_le.mpr hlarge)
        · have hreach := dispatch_unconditional state hfits
          unfold answer at hstatus ⊢
          rw [hreach] at hstatus
          cases hdispatch : dispatch state request with
          | error response =>
              rw [hdispatch] at hstatus
              obtain rfl := Option.some.inj hstatus
              exact iff_of_true ⟨rfl, hplain.1⟩ ⟨fun _ _ => hfits, by simp⟩
          | ok reached =>
              obtain ⟨endpoint, inbound, captures⟩ := reached
              rw [hdispatch] at hstatus
              have hstatus : (endpoint.handle state inbound.unconditional
                  captures).status = some status := by
                rw [← Handler.status_respond]
                exact hstatus
              have hheld := held_handle state inbound endpoint captures
              dsimp only
              rw [Handler.status_respond, hheld.given_eq, hstatus]
              constructor
              · rintro ⟨hsame, -⟩
                refine ⟨fun _ _ => hfits, ?_⟩
                intro endpoint' inbound' captures' etag hsame' htag
                obtain ⟨rfl, rfl, rfl⟩ := Prod.mk.inj (Except.ok.inj hsame')
                  |>.imp id Prod.mk.inj
                rw [htag] at hsame
                rw [← Bool.not_eq_true]
                intro hmatched
                rw [Option.any_some, if_pos hmatched] at hsame
                exact hplain.1 hsame.symm
              · rintro ⟨-, hunmatched⟩
                have hany : (endpoint.comparedTag state inbound captures).any
                    (notModified inbound.headers) = false := by
                  cases htag : endpoint.comparedTag state inbound captures with
                  | none => rfl
                  | some etag => exact hunmatched _ _ _ etag rfl htag
                rw [hany]
                exact ⟨rfl, hplain.1⟩

/-- A request for the subtitle of a language that no subtitle has. -/
def missingSubtitle (headers : Headers) : HttpRequest where
  head := false
  path := "/hls/movie/subtitles/fr/sub.vtt".toList
  query := some "v=0123456789abcdef".toList
  headers := headers

theorem missingSubtitle_unmatched :
    (missingSubtitle [(.ifNoneMatch, "\"other\"".toList)]).Unmatched
      subtitledState :=
  (conditional_keeps_status_iff subtitledState
    (by decide +kernel :
      (answer subtitledState (missingSubtitle
        [(.ifNoneMatch, "\"other\"".toList)]).unconditional).status =
          some 404)).mp (by decide)

def starredRequest : HttpRequest :=
  missingSubtitle [(.ifNoneMatch, "*".toList)]

/-- With a star, the missing subtitle is answered as unchanged. -/
theorem starredRequest_not_modified :
    (answer subtitledState starredRequest.unconditional).status = some 404 ∧
      (answer subtitledState starredRequest).status = some 304 := by
  decide +kernel

end Segmentor
