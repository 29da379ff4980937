import Segmentor.ConditionalRequests

/-!
# What a grant covers and what is served under it

A grant is checked against the path as it stands, and the handlers read the
same path percent-decoded.  Which paths are served only what the grant names,
whatever is behind them: those whose decoded names it covers too, and that ask
for no keyframes unless it covers every rendition.
-/

namespace Segmentor

open General

/-! ## What an answer carries -/

/-- What of an asset an answer is made of, where a grant can name it. -/
inductive Content
  | rendition (id : Text)
  | subtitle (language : Text)
  deriving DecidableEq, Repr

/-- A listed rendition; a listed language, in any ASCII case. -/
def Grant.Allows (grant : Grant) : Content → Prop
  | .rendition id => ∀ allowed ∈ grant.renditions, id ∈ allowed
  | .subtitle language => ∀ allowed ∈ grant.subtitles,
      ∃ candidate ∈ allowed, eqIgnoreAsciiCase candidate language = true

variable {Source : Type}

namespace Served

def subtitles (asset : Served Source) : List (Text × List UInt8) :=
  match asset.kind with
  | .single file => file.subtitles
  | .composite composite => composite.subtitles
  | .sequence _ | .adaptiveSequence _ => []

/-- The keyframes of a composite come from one of its video renditions. -/
def iframeContent (asset : Served Source) : Option Content :=
  match asset.kind with
  | .composite composite =>
      some (.rendition (composite.video.get composite.iframeSource).id)
  | _ => none

/-- A track's bytes and playlist are a video rendition's where the track names
one. -/
def trackContent (track : Text) : Option Content :=
  match parseTrack track with
  | .ok requested => requested.rendition.map .rendition
  | .error _ => none

def subtitleContent (asset : Served Source) (language : Text) :
    Option Content :=
  (asset.subtitles.find? fun subtitle =>
    eqIgnoreAsciiCase subtitle.1 language).map fun subtitle =>
      .subtitle subtitle.1

/-- The rendition or the subtitle that a handler's answer is made of. -/
def content (asset : Served Source) (endpoint : Endpoint)
    (captures : List Text) : Option Content :=
  match endpoint, captures with
  | .hlsIframePlaylist, _ => asset.iframeContent
  | .hlsIframeSegment, _ => asset.iframeContent
  | .hlsSubtitlePlaylist, [_, language] => asset.subtitleContent language
  | .subtitleFile _, [_, language] => asset.subtitleContent language
  | .hlsMediaPlaylist, [_, track] => trackContent track
  | .init _, [_, track] => trackContent track
  | .clipInit _, [_, track, _] => trackContent track
  | .segment _, [_, track, _] => trackContent track
  | _, _ => none

end Served

def Handler.Succeeds (run : Handler (Response Source)) : Prop :=
  run.status = some 200 ∨ run.status = some 206

/-- A request that the grant let through to a handler. -/
structure LetThrough (state : AppState Source) (request : HttpRequest)
    (grant : Grant) (endpoint : Endpoint) (inbound : Inbound)
    (captures : List Text) : Prop where
  granted : ∃ settings token fromQuery,
    state.authorization = some settings ∧
      settings.findToken request = some (token, fromQuery) ∧
      settings.verify token = .ok grant
  dispatched : dispatch state request = .ok (endpoint, inbound, captures)

/-- Whatever is behind a path, a request the grant lets through is only served
an asset, a rendition and a language that the grant names. -/
def ServesWhatIsGranted (path : Text) (grant : Grant) : Prop :=
  ∀ (Source : Type) (state : AppState Source) (request : HttpRequest)
    (endpoint : Endpoint) (inbound : Inbound) (captures : List Text)
    (asset : Served Source),
    request.path = path →
    LetThrough state request grant endpoint inbound captures →
    state.asset (captures.headD []) = .ok asset →
    (answer state request).Succeeds →
      captures.headD [] ∈ grant.assets ∧
        ∀ content, asset.content endpoint captures = some content →
          grant.Allows content

/-! ## What the handlers read -/

def Endpoint.isIframes : Endpoint → Bool
  | .hlsIframePlaylist | .hlsIframeSegment => true
  | _ => false

/-- What a handler reads of the decoded captures. -/
def Endpoint.resource (endpoint : Endpoint) (captures : List Text) : Resource :=
  let track := fun text : Text =>
    match parseTrack text with
    | .ok requested => requested.rendition
    | .error _ => none
  { asset := captures.headD []
    rendition :=
      match endpoint, captures with
      | .hlsMediaPlaylist, [_, text] => track text
      | .init _, [_, text] => track text
      | .clipInit _, [_, text, _] => track text
      | .segment _, [_, text, _] => track text
      | _, _ => none
    subtitle :=
      match endpoint, captures with
      | .hlsSubtitlePlaylist, [_, language] => some language
      | .subtitleFile _, [_, language] => some language
      | _, _ => none }

/-- A track that some asset may have under the protocol. -/
def isTrack (protocol : Protocol) (track : Text) : Bool :=
  (track == muxedTrack && protocol == .hls) || (parseTrack track).isOk

/-- Captures that some asset answers with more than an error. -/
def Endpoint.answerable : Endpoint → List Text → Bool
  | .hlsMaster, [_] => true
  | .hlsMediaPlaylist, [_, track] => isTrack .hls track
  | .hlsIframePlaylist, [_] => true
  | .hlsIframeSegment, [_, frame] => (parseUnsigned (2 ^ 32) frame).isSome
  | .hlsSubtitlePlaylist, [_, _] => true
  | .subtitleFile _, [_, language] =>
      (language.map Char.toLower).all isHeaderChar
  | .init protocol, [_, track] => isTrack protocol track
  | .clipInit _, [_, track, clip] =>
      (parseTrack track).isOk && (parseUnsigned (2 ^ 32) clip).isSome
  | .segment protocol, [_, track, index] =>
      isTrack protocol track && (parseUnsigned (2 ^ 32) index).isSome
  | .dashManifest, [_] => true
  | _, _ => false

/-- Where the grant covers the path as it stands, it covers what the decoded
path names, and every rendition if the path asks for keyframes. -/
def ReadsAsChecked (path : Text) (grant : Grant) : Prop :=
  (Resource.fromPath path).any grant.covers = true →
    ∀ endpoint captured captures,
      findRoute path = some (endpoint, captured) →
      captured.mapM percentDecode = some captures →
      endpoint.answerable captures = true →
        grant.covers (endpoint.resource captures) = true ∧
          (endpoint.isIframes = true → grant.renditions = none)

/-! ## Handlers that succeed -/

namespace Handler

variable {α : Type}

theorem succeeds_bind_iff {run : Handler α}
    {next : α → Handler (Response Source)} :
    (run >>= next).Succeeds ↔ ∃ a, run.outcome = .ok a ∧ (next a).Succeeds := by
  obtain ⟨names, outcome⟩ := run
  cases outcome with
  | ok a =>
      constructor
      · exact fun h => ⟨a, rfl, h⟩
      · rintro ⟨b, hb, h⟩
        obtain rfl := Except.ok.inj hb
        exact h
  | error failure =>
      constructor
      · intro h
        exfalso
        cases failure with
        | refused error =>
            obtain ⟨status, message⟩ := error
            cases status <;> rcases h with h | h <;> cases h
        | panicked => rcases h with h | h <;> cases h
      · rintro ⟨b, hb, -⟩
        cases hb

@[simp] theorem outcome_ofHttp {x : Except HttpError α} {a : α} :
    (ofHttp x).outcome = .ok a ↔ x = .ok a := by
  cases x with
  | ok b => simp
  | error error => simp

@[simp] theorem outcome_ofResult {x : Result α} {a : α} :
    (ofResult x).outcome = .ok a ↔ x = .ok a := by
  cases x with
  | ok b => simp
  | error error => simp

theorem outcome_entityTag {version resource : Text} {etag : HeaderValue} :
    (entityTag version resource).outcome = .ok etag ↔
      headerFromStr ('"' :: (version ++ '-' :: resource ++ ['"'])) =
        some etag := by
  unfold entityTag
  dsimp only
  split
  · next value hvalue => rw [hvalue, Except.ok.injEq, Option.some.injEq]
  · next hnone =>
      rw [hnone]
      constructor
      · intro h
        cases h
      · intro h
        cases h

end Handler

section Answers

variable {state : AppState Source} {inbound : Inbound} {assetId : Text}

theorem isTrack_of_isMuxed {protocol : Protocol} {track : Text} {muxed : Bool}
    (h : isMuxed track protocol = .ok muxed)
    (hparsed : muxed = false → ∃ requested, parseTrack track = .ok requested) :
    isTrack protocol track = true := by
  unfold isTrack
  rw [Bool.or_eq_true]
  unfold isMuxed at h
  split_ifs at h with htrack
  · obtain rfl := Except.ok.inj h
    obtain ⟨requested, hrequested⟩ := hparsed rfl
    exact Or.inr (by rw [hrequested]; rfl)
  · refine Or.inl ?_
    rw [not_not] at htrack
    cases protocol with
    | hls => rw [htrack]; rfl
    | dash => cases h

theorem initSegment_answerable {track : Text}
    (h : (initSegment state inbound assetId track).Succeeds) :
    isTrack inbound.protocol track = true := by
  unfold initSegment at h
  simp only [Handler.succeeds_bind_iff, Handler.outcome_ofHttp] at h
  obtain ⟨asset, -, -, -, -, -, muxed, hmuxed, h⟩ := h
  refine isTrack_of_isMuxed hmuxed fun hfalse => ?_
  rw [hfalse] at h
  simp only [Bool.false_eq_true, if_false, Handler.succeeds_bind_iff,
    Handler.outcome_ofHttp] at h
  obtain ⟨requested, hrequested, -⟩ := h
  exact ⟨requested, hrequested⟩

theorem mediaSegment_answerable {track : Text} {index : ℕ}
    (h : (mediaSegment state inbound assetId track index).Succeeds) :
    isTrack inbound.protocol track = true := by
  unfold mediaSegment at h
  simp only [Handler.succeeds_bind_iff, Handler.outcome_ofHttp] at h
  obtain ⟨asset, -, -, -, -, -, etag, -, muxed, hmuxed, h⟩ := h
  refine isTrack_of_isMuxed hmuxed fun hfalse => ?_
  rw [hfalse] at h
  simp only [Bool.false_eq_true, if_false, Handler.succeeds_bind_iff,
    Handler.outcome_ofHttp] at h
  obtain ⟨requested, hrequested, -⟩ := h
  exact ⟨requested, hrequested⟩

theorem clipInitSegment_answerable {track : Text} {clip : ℕ}
    (h : (clipInitSegment state inbound assetId track clip).Succeeds) :
    (parseTrack track).isOk = true := by
  unfold clipInitSegment at h
  simp only [Handler.succeeds_bind_iff, Handler.outcome_ofHttp] at h
  obtain ⟨asset, -, -, -, requested, hrequested, -⟩ := h
  rw [hrequested]
  rfl

theorem mediaPlaylist_answerable {track : Text}
    (h : (mediaPlaylistHandler state inbound assetId track).Succeeds) :
    isTrack .hls track = true := by
  unfold mediaPlaylistHandler at h
  simp only [Handler.succeeds_bind_iff, Handler.outcome_ofHttp] at h
  obtain ⟨asset, -, h⟩ := h
  unfold isTrack
  split_ifs at h with hmuxed
  · rw [hmuxed]
    rfl
  · simp only [Handler.succeeds_bind_iff, Handler.outcome_ofHttp] at h
    obtain ⟨requested, hrequested, -⟩ := h
    rw [hrequested, Bool.or_eq_true]
    exact Or.inr rfl

theorem subtitleFile_answerable {language : Text}
    (h : (subtitleFile state inbound assetId language).Succeeds) :
    (language.map Char.toLower).all isHeaderChar = true := by
  unfold subtitleFile at h
  simp only [Handler.succeeds_bind_iff, Handler.outcome_ofHttp,
    Handler.outcome_entityTag] at h
  obtain ⟨asset, -, -, -, etag, hetag, -⟩ := h
  have hall := isSome_headerFromStr
    ('"' :: (asset.version ++ '-' :: ("subtitle-".toList ++
      language.map Char.toLower) ++ ['"']))
  rw [hetag, Option.isSome_some, eq_comm, List.all_eq_true] at hall
  rw [List.all_eq_true]
  intro c hc
  apply hall
  simp only [List.mem_cons, List.mem_append]
  exact Or.inr (Or.inl (Or.inr (Or.inr (Or.inr hc))))

/-- Only answerable captures are answered. -/
theorem handle_answerable {endpoint : Endpoint} {captures : List Text}
    (hprotocol : inbound.protocol = endpoint.protocol)
    (h : (endpoint.handle state inbound captures).Succeeds) :
    endpoint.answerable captures = true := by
  have hbad : ¬(pure badRequest : Handler (Response Source)).Succeeds := by
    rintro (h | h) <;> cases h
  unfold Endpoint.handle at h
  split at h
  all_goals unfold Endpoint.answerable
  · rfl
  · exact mediaPlaylist_answerable h
  · rfl
  · split at h
    · next hframe =>
        dsimp only
        rw [hframe]
        rfl
    · exact absurd h hbad
  · rfl
  · exact subtitleFile_answerable h
  · have htrack := initSegment_answerable h
    rw [hprotocol] at htrack
    exact htrack
  · split at h
    · next hclip =>
        dsimp only
        rw [hclip, clipInitSegment_answerable h]
        rfl
    · exact absurd h hbad
  · split at h
    · next hindex =>
        have htrack := mediaSegment_answerable h
        rw [hprotocol] at htrack
        dsimp only
        rw [hindex]
        exact Bool.and_eq_true_iff.mpr ⟨htrack, rfl⟩
    · exact absurd h hbad
  · rfl
  · exact absurd h hbad

end Answers

/-! ## From what is read to what is served -/

theorem dispatch_spec {state : AppState Source} {request : HttpRequest}
    {endpoint : Endpoint} {inbound : Inbound} {captures : List Text}
    (h : dispatch state request = .ok (endpoint, inbound, captures)) :
    ∃ captured,
      findRoute request.path = some (endpoint, captured) ∧
      captured.mapM percentDecode = some captures ∧
      inbound.protocol = endpoint.protocol ∧
      ∃ token, state.authorization.elim (.ok none)
        (·.authorize request) = .ok token := by
  unfold dispatch at h
  split_ifs at h
  split at h
  · cases h
  next found captured hroute =>
    split at h
    · cases h
    next token htoken =>
      split at h
      · cases h
      next read decoded hread =>
        obtain ⟨rfl, hrest⟩ := Prod.mk.inj (Except.ok.inj h)
        obtain ⟨rfl, rfl⟩ := Prod.mk.inj hrest
        obtain ⟨captures, hcaptures, hread⟩ := Option.bind_eq_some_iff.mp hread
        dsimp only at hread
        have hinbound : ∃ version, some
            (({ head := request.head
                protocol := found.protocol
                headers := request.headers
                version := version
                token := token } : Inbound), captures) =
              some (read, decoded) := by
          split_ifs at hread
          · obtain ⟨version, -, hread⟩ := Option.bind_eq_some_iff.mp hread
            exact ⟨version, hread⟩
          · exact ⟨none, hread⟩
        obtain ⟨version, hinbound⟩ := hinbound
        obtain ⟨rfl, rfl⟩ := Prod.mk.inj (Option.some.inj hinbound)
        exact ⟨captured, hroute, hcaptures, rfl, token, htoken⟩

theorem LetThrough.covers {state : AppState Source} {request : HttpRequest}
    {grant : Grant} {endpoint : Endpoint} {inbound : Inbound}
    {captures : List Text}
    (h : LetThrough state request grant endpoint inbound captures) :
    (Resource.fromPath request.path).any grant.covers = true := by
  obtain ⟨settings, token, fromQuery, hsettings, hfound, hverify⟩ := h.granted
  obtain ⟨captured, -, -, -, passed, hpassed⟩ := dispatch_spec h.dispatched
  rw [hsettings] at hpassed
  change settings.authorize request = .ok passed at hpassed
  unfold AuthorizationSettings.authorize at hpassed
  rw [hfound] at hpassed
  dsimp only at hpassed
  rw [hverify, ok_bind] at hpassed
  by_contra hrefused
  rw [if_neg hrefused] at hpassed
  cases hpassed

theorem eqIgnoreAsciiCase_trans {a b c : Text}
    (hab : eqIgnoreAsciiCase a b = true) (hbc : eqIgnoreAsciiCase b c = true) :
    eqIgnoreAsciiCase a c = true := by
  unfold eqIgnoreAsciiCase at hab hbc ⊢
  rw [beq_iff_eq] at hab hbc ⊢
  rw [hab, hbc]

theorem eqIgnoreAsciiCase_symm {a b : Text}
    (h : eqIgnoreAsciiCase a b = true) : eqIgnoreAsciiCase b a = true := by
  unfold eqIgnoreAsciiCase at h ⊢
  rw [beq_iff_eq] at h ⊢
  exact h.symm

theorem Grant.covers_iff {grant : Grant} {resource : Resource} :
    grant.covers resource = true ↔
      resource.asset ∈ grant.assets ∧
        (∀ id ∈ resource.rendition, grant.Allows (.rendition id)) ∧
        ∀ language ∈ resource.subtitle, grant.Allows (.subtitle language) := by
  unfold covers
  rw [Bool.and_eq_true, Bool.and_eq_true, and_assoc, List.contains_iff_mem]
  refine and_congr_right fun _ => and_congr ?_ ?_
  · unfold Allows
    cases grant.renditions with
    | none => simp
    | some allowed =>
        cases resource.rendition <;> simp
  · unfold Allows
    cases grant.subtitles with
    | none => simp
    | some allowed =>
        cases resource.subtitle <;> simp [List.any_eq_true]

theorem Served.subtitleContent_eq_some {asset : Served Source}
    {language : Text} {content : Content}
    (h : asset.subtitleContent language = some content) :
    ∃ found, content = .subtitle found ∧
      eqIgnoreAsciiCase found language = true := by
  obtain ⟨subtitle, hfind, rfl⟩ := Option.map_eq_some_iff.mp h
  have hsame := List.find?_some hfind
  exact ⟨subtitle.1, rfl, hsame⟩

theorem Served.trackContent_eq_some {track : Text} {content : Content}
    (h : Served.trackContent track = some content) :
    ∃ requested id, parseTrack track = .ok requested ∧
      requested.rendition = some id ∧ content = .rendition id := by
  unfold Served.trackContent at h
  split at h
  · next requested hrequested =>
      obtain ⟨id, hid, rfl⟩ := Option.map_eq_some_iff.mp h
      exact ⟨requested, id, hrequested, hid, rfl⟩
  · cases h

/-- What a handler serves is what it reads, or the keyframes of a video
rendition. -/
theorem Served.content_read {asset : Served Source} {endpoint : Endpoint}
    {captures : List Text} {content : Content}
    (h : asset.content endpoint captures = some content) :
    (endpoint.isIframes = true ∧ ∃ id, content = .rendition id) ∨
      (∃ id, (endpoint.resource captures).rendition = some id ∧
        content = .rendition id) ∨
      ∃ found language,
        (endpoint.resource captures).subtitle = some language ∧
          content = .subtitle found ∧
          eqIgnoreAsciiCase found language = true := by
  have hiframe : ∀ content, asset.iframeContent = some content →
      ∃ id, content = .rendition id := by
    intro content hcontent
    unfold Served.iframeContent at hcontent
    split at hcontent
    · exact ⟨_, (Option.some.inj hcontent).symm⟩
    · cases hcontent
  unfold Served.content at h
  split at h
  · exact Or.inl ⟨rfl, hiframe content h⟩
  · exact Or.inl ⟨rfl, hiframe content h⟩
  · obtain ⟨found, rfl, hsame⟩ := Served.subtitleContent_eq_some h
    exact Or.inr (Or.inr ⟨found, _, rfl, rfl, hsame⟩)
  · obtain ⟨found, rfl, hsame⟩ := Served.subtitleContent_eq_some h
    exact Or.inr (Or.inr ⟨found, _, rfl, rfl, hsame⟩)
  any_goals
    obtain ⟨requested, id, hrequested, hid, rfl⟩ :=
      Served.trackContent_eq_some h
    refine Or.inr (Or.inl ⟨id, ?_, rfl⟩)
    simp only [Endpoint.resource, hrequested, hid]
  · cases h

theorem serves_of_reads {path : Text} {grant : Grant}
    (h : ReadsAsChecked path grant) : ServesWhatIsGranted path grant := by
  rintro Source state request endpoint inbound captures asset rfl hlet - hanswer
  obtain ⟨captured, hroute, hdecoded, hprotocol, -⟩ :=
    dispatch_spec hlet.dispatched
  unfold answer at hanswer
  rw [hlet.dispatched] at hanswer
  dsimp only at hanswer
  unfold Handler.Succeeds at hanswer
  rw [Handler.status_respond] at hanswer
  obtain ⟨hcovers, hiframes⟩ := h hlet.covers endpoint captured captures hroute
    hdecoded (handle_answerable hprotocol hanswer)
  obtain ⟨hasset, hrendition, hsubtitle⟩ := Grant.covers_iff.mp hcovers
  refine ⟨hasset, fun content hcontent => ?_⟩
  rcases Served.content_read hcontent with
    ⟨hiframe, id, rfl⟩ | ⟨id, hid, rfl⟩ | ⟨found, language, hlanguage, rfl, hsame⟩
  · intro allowed hallowed
    rw [hiframes hiframe] at hallowed
    cases hallowed
  · exact hrendition id hid
  · intro allowed hallowed
    obtain ⟨candidate, hmem, hcandidate⟩ :=
      hsubtitle language hlanguage allowed hallowed
    exact ⟨candidate, hmem, eqIgnoreAsciiCase_trans hcandidate
      (eqIgnoreAsciiCase_symm hsame)⟩

/-! ## Assets that answer everything -/

def openFile (language : Text) : FileAsset Unit where
  source := ()
  isAes128 := false
  hlsMasterPlaylist := []
  dashManifest := .ok []
  hlsIframePlaylist := .ok []
  hlsMediaPlaylist _ := .ok []
  hlsMuxedPlaylist := .ok []
  hlsSubtitlePlaylist := []
  subtitles := [(language, [])]
  initSegment _ := .ok []
  muxedInitSegment := .ok []
  prepareNumberedSegment _ _ _ := .ok ⟨⟨[], [], 0⟩, none⟩
  prepareMuxedSegment _ := .ok ⟨⟨[], [], 0⟩, none⟩
  prepareIframe _ := .ok ⟨⟨[], [], 0⟩, none⟩

def openComposite (id language : Text) : CompositeAsset (FileAsset Unit) where
  video := [⟨id, openFile language⟩]
  audioOnly := []
  audio := []
  subtitles := [(language, [])]
  hlsMaster := []
  hlsVideo _ := some []
  hlsAudio := []
  hlsIframes := some []
  hlsSubtitle := []
  dash := []
  iframeSource := 0

def openSequence : ClipSequence Unit where
  isAes128 := false
  hlsMaster := []
  dash := []
  mediaPlaylist _ := .ok []
  clipInitSegment _ _ := .ok []
  prepareSegment _ _ := .ok ((), ⟨⟨[], [], 0⟩, none⟩)

/-- As many clips as are counted, each with the one rendition. -/
def openClips (id : Text) (count : ℕ) : AdaptiveClips (FileAsset Unit) where
  grids := List.replicate count ⟨[⟨id, openFile []⟩], [], []⟩
  firstVideo := []
  firstAudio := []
  hlsMaster := []
  hlsVideo _ := some []
  hlsAudio := []
  dash := []

/-- An asset that has the rendition, if one is asked for, and the language. -/
def openKind (rendition : Option Text) (language : Text) : Endpoint → ℕ →
    ServedKind Unit
  | .clipInit _, clip =>
      match rendition with
      | none => .sequence openSequence
      | some id => .adaptiveSequence (openClips id (clip + 1))
  | _, _ =>
      match rendition with
      | none => .single (openFile language)
      | some id => .composite (openComposite id language)

def openAsset (kind : ServedKind Unit) : Served Unit where
  version := []
  kind := kind
  version_hex := rfl

/-- Every token is a query parameter without a name. -/
def openState (kind : ServedKind Unit) (grant : Grant) : AppState Unit where
  asset _ := .ok (openAsset kind)
  maxRequestHeaderBytes := 0
  requestSlot := true
  authorization := some
    { headerTransport := false
      cookieTransport := false
      queryTransport := true
      cookieName := []
      queryParameter := []
      verify _ := .ok grant }
  versionParameter _ := some (some [])
  positiveQuality _ := false
  segmentPermit := .ok ()
  encryptSegment _ pending := .ok pending.prepared

def openRequest (path : Text) : HttpRequest where
  head := false
  path := path
  query := some ['=']
  headers := []

def openInbound (endpoint : Endpoint) : Inbound where
  head := false
  protocol := endpoint.protocol
  headers := []
  version := if endpoint.versioned then some [] else none
  token := some ⟨[], []⟩

theorem open_letThrough {kind : ServedKind Unit} {grant : Grant} {path : Text}
    {endpoint : Endpoint} {captured captures : List Text}
    (hcovers : (Resource.fromPath path).any grant.covers = true)
    (hroute : findRoute path = some (endpoint, captured))
    (hdecoded : captured.mapM percentDecode = some captures) :
    LetThrough (openState kind grant) (openRequest path) grant endpoint
      (openInbound endpoint) captures where
  granted := ⟨_, [], true, rfl, rfl, rfl⟩
  dispatched := by
    have hroute' : findRoute (openRequest path).path =
        some (endpoint, captured) := hroute
    have hauthorize : (openState kind grant).authorization.elim (.ok none)
        (·.authorize (openRequest path)) = .ok (some ⟨[], []⟩) := by
      change (if (Resource.fromPath path).any grant.covers then _ else _) = _
      rw [if_pos hcovers]
      rfl
    have hread : readRequest (openState kind grant) (openRequest path)
        (some ⟨[], []⟩) endpoint captured =
          some (openInbound endpoint, captures) := by
      unfold readRequest
      rw [hdecoded]
      unfold openInbound
      cases endpoint.versioned <;> rfl
    unfold dispatch
    rw [hroute']
    dsimp only
    rw [hauthorize]
    dsimp only
    rw [hread]
    rfl

section Open

variable {kind : ServedKind Unit} {grant : Grant} {endpoint : Endpoint}
  {assetId : Text} {α : Type}

theorem succeeds_ofHttp {x : Except HttpError α} {a : α}
    {next : α → Handler (Response Source)} (hx : x = .ok a)
    (hnext : (next a).Succeeds) : (Handler.ofHttp x >>= next).Succeeds :=
  Handler.succeeds_bind_iff.mpr ⟨a, Handler.outcome_ofHttp.mpr hx, hnext⟩

theorem succeeds_ofResult {x : Result α} {a : α}
    {next : α → Handler (Response Source)} (hx : x = .ok a)
    (hnext : (next a).Succeeds) : (Handler.ofResult x >>= next).Succeeds :=
  Handler.succeeds_bind_iff.mpr ⟨a, Handler.outcome_ofResult.mpr hx, hnext⟩

theorem succeeds_entityTag {resource : Text}
    {next : HeaderValue → Handler (Response Source)}
    (hname : resource.all isHeaderChar = true)
    (hnext : ∀ etag, (next etag).Succeeds) :
    (entityTag (openAsset kind).version resource >>= next).Succeeds := by
  have hall : ('"' :: ([] ++ '-' :: resource ++ ['"'])).all isHeaderChar =
      true := by
    simp only [List.nil_append, List.cons_append, List.all_cons,
      List.all_append, hname]
    decide
  rw [← isSome_headerFromStr] at hall
  obtain ⟨etag, hmade⟩ := Option.isSome_iff_exists.mp hall
  exact Handler.succeeds_bind_iff.mpr
    ⟨etag, Handler.outcome_entityTag.mpr hmade, hnext etag⟩

theorem isHeaderChar_of_visible {text : Text} (h : Text.Visible text) :
    text.all isHeaderChar = true := by
  rw [List.all_eq_true]
  intro c hc
  apply isHeaderChar_of_text
  unfold isHeaderText
  rw [h c hc]
  rfl

theorem succeeds_serve {version resource : Text} {contentType : String}
    {manifest : Result Manifest} {found : Manifest}
    (h : manifest = .ok found) :
    (serve (openState kind grant) (openInbound endpoint) version resource
      contentType manifest).Succeeds := by
  subst h
  exact Or.inl rfl

theorem notModified_nil (etag : HeaderValue) :
    notModified [] etag = false := by
  unfold notModified
  cases headerToStr etag <;> rfl

theorem succeeds_bytes {etag : HeaderValue} {contentType : String}
    {result : Result (List UInt8)} {bytes : List UInt8}
    (h : result = .ok bytes) :
    (unlessHeld [] etag immutable do
      let bytes ← .ofResult result
      serveBytes [] etag contentType bytes :
        Handler (Response Unit)).Succeeds := by
  unfold unlessHeld
  rw [notModified_nil]
  refine succeeds_ofResult h ?_
  refine Or.inl ?_
  change some (mediaResponse bytes.length ⟨0, bytes.length⟩ etag contentType
    _).status = _
  unfold mediaResponse
  simp

theorem succeeds_segment {etag : HeaderValue} {trackKind : TrackKind}
    {result : Result (Unit × PendingSegment)}
    (h : result = .ok ((), ⟨⟨[], [], 0⟩, none⟩)) :
    (serveSegment (openState kind grant) (openInbound endpoint) etag trackKind
      result).Succeeds := by
  subst h
  unfold serveSegment unlessHeld
  have hheld : notModified (openInbound endpoint).headers etag = false :=
    notModified_nil etag
  rw [hheld]
  exact Or.inl rfl

theorem parseTrack_rendition {track : Text} {requested : RequestedTrack}
    {id : Text} (h : parseTrack track = .ok requested)
    (hid : requested.rendition = some id) : requested.key = .video := by
  unfold parseTrack at h
  split at h
  · split_ifs at h
    obtain rfl := Except.ok.inj h
    rfl
  · obtain ⟨key, -, rfl⟩ := Option.map_eq_some_iff.mp (okOr_eq_ok_iff.mp h)
    cases hid

/-- The number of the clip that a path names. -/
def Endpoint.clip : Endpoint → List Text → ℕ
  | .clipInit _, [_, _, clip] => (parseUnsigned (2 ^ 32) clip).getD 0
  | _, _ => 0

/-- The asset that answers the captures, with a rendition for its keyframes
if one is given. -/
def openFor (iframes : Option Text) (endpoint : Endpoint)
    (captures : List Text) : ServedKind Unit :=
  openKind
    (if endpoint.isIframes then iframes
      else (endpoint.resource captures).rendition)
    ((endpoint.resource captures).subtitle.getD []) endpoint
    (endpoint.clip captures)

theorem resource_track {track : Text} {requested : RequestedTrack}
    (h : parseTrack track = .ok requested) :
    (Endpoint.hlsMediaPlaylist.resource [assetId, track]).rendition =
        requested.rendition ∧
      (∀ protocol, ((Endpoint.init protocol).resource
        [assetId, track]).rendition = requested.rendition) ∧
      (∀ protocol clip, ((Endpoint.clipInit protocol).resource
        [assetId, track, clip]).rendition = requested.rendition) ∧
      ∀ protocol index, ((Endpoint.segment protocol).resource
        [assetId, track, index]).rendition = requested.rendition := by
  simp only [Endpoint.resource, h, implies_true, and_self]

theorem succeeds_mediaPlaylist {iframes : Option Text} {track : Text}
    (h : isTrack .hls track = true) :
    (mediaPlaylistHandler
      (openState (openFor iframes .hlsMediaPlaylist [assetId, track]) grant)
      (openInbound .hlsMediaPlaylist) assetId track).Succeeds := by
  unfold mediaPlaylistHandler
  apply succeeds_ofHttp rfl
  split_ifs with hmuxed
  · subst hmuxed
    exact succeeds_serve rfl
  · unfold isTrack at h
    have hparsed : (parseTrack track).isOk = true := by
      simpa [hmuxed] using h
    obtain ⟨requested, hrequested⟩ := exists_ok_of_isOk hparsed
    apply succeeds_ofHttp hrequested
    have hrendition := (@resource_track assetId _ _ hrequested).1
    unfold openFor
    rw [hrendition]
    cases hid : requested.rendition with
    | none => exact succeeds_serve rfl
    | some id =>
        rw [parseTrack_rendition hrequested hid]
        exact succeeds_serve rfl

theorem succeeds_iframePlaylist (iframes : Option Text) :
    (iframePlaylist
      (openState (openFor iframes .hlsIframePlaylist [assetId]) grant)
      (openInbound .hlsIframePlaylist) assetId).Succeeds := by
  unfold iframePlaylist
  apply succeeds_ofHttp rfl
  cases iframes with
  | none => exact succeeds_serve rfl
  | some id => exact succeeds_serve rfl

theorem succeeds_iframeSegment (iframes : Option Text) (frame : Text)
    (index : ℕ) :
    (iframeSegment
      (openState (openFor iframes .hlsIframeSegment [assetId, frame]) grant)
      (openInbound .hlsIframeSegment) assetId index).Succeeds := by
  unfold iframeSegment
  apply succeeds_ofHttp rfl
  apply succeeds_ofHttp rfl
  apply succeeds_entityTag
  · exact isHeaderChar_of_visible
      (Text.visible_append.mpr ⟨by decide, Text.visible_decimal index⟩)
  · intro etag
    cases iframes with
    | none => exact succeeds_segment rfl
    | some id => exact succeeds_segment rfl

theorem subtitleOf_open (language : Text) :
    subtitleOf [(language, [])] language = .ok [] := by
  unfold subtitleOf
  have hsame : eqIgnoreAsciiCase language language = true := by
    unfold eqIgnoreAsciiCase
    exact beq_self_eq_true _
  simp only [List.find?_cons, hsame]
  rfl

theorem succeeds_subtitlePlaylist (iframes : Option Text) (language : Text) :
    (subtitlePlaylist
      (openState (openFor iframes .hlsSubtitlePlaylist [assetId, language])
        grant)
      (openInbound .hlsSubtitlePlaylist) assetId language).Succeeds := by
  unfold subtitlePlaylist
  apply succeeds_ofHttp rfl
  have hserved : (openAsset (openFor iframes .hlsSubtitlePlaylist
      [assetId, language])).hlsSubtitlePlaylist language = .ok [] := by
    change (do
      let _ ← subtitleOf [(language, [])] language
      .ok [] : Result Manifest) = .ok []
    rw [subtitleOf_open]
    rfl
  exact succeeds_serve hserved

theorem succeeds_subtitleFile (iframes : Option Text) {protocol : Protocol}
    {language : Text}
    (h : (language.map Char.toLower).all isHeaderChar = true) :
    (subtitleFile
      (openState (openFor iframes (.subtitleFile protocol)
        [assetId, language]) grant)
      (openInbound (.subtitleFile protocol)) assetId language).Succeeds := by
  unfold subtitleFile
  apply succeeds_ofHttp rfl
  apply succeeds_ofHttp rfl
  apply succeeds_entityTag
  · rw [List.all_append, h]
    decide
  · intro etag
    exact succeeds_bytes (subtitleOf_open language)

theorem isMuxed_of_isTrack {protocol : Protocol} {track : Text}
    (h : isTrack protocol track = true) :
    (track = muxedTrack ∧ protocol = .hls ∧
        isMuxed track protocol = .ok true) ∨
      (isMuxed track protocol = .ok false ∧
        ∃ requested, parseTrack track = .ok requested) := by
  unfold isTrack at h
  unfold isMuxed
  by_cases hmuxed : track = muxedTrack
  · subst hmuxed
    have hhls : protocol = .hls := by
      cases protocol with
      | hls => rfl
      | dash => exact absurd h (by decide)
    subst hhls
    exact Or.inl ⟨rfl, rfl, rfl⟩
  · have hparsed : (parseTrack track).isOk = true := by
      simpa [hmuxed] using h
    exact Or.inr ⟨if_pos hmuxed, exists_ok_of_isOk hparsed⟩

theorem succeeds_initSegment (iframes : Option Text) {protocol : Protocol}
    {track : Text} (h : isTrack protocol track = true) :
    (initSegment
      (openState (openFor iframes (.init protocol) [assetId, track]) grant)
      (openInbound (.init protocol)) assetId track).Succeeds := by
  unfold initSegment
  apply succeeds_ofHttp rfl
  apply succeeds_ofHttp rfl
  rcases isMuxed_of_isTrack h with
    ⟨rfl, rfl, hmuxed⟩ | ⟨hmuxed, requested, hrequested⟩
  · apply succeeds_ofHttp rfl
    apply succeeds_ofHttp hmuxed
    apply succeeds_entityTag (by decide)
    intro etag
    exact succeeds_bytes rfl
  · have hrendition := (@resource_track assetId _ _ hrequested).2.1 protocol
    have hvisible := Text.visible_append.mpr
      ⟨parseTrack_visible hrequested, show Text.Visible "-init".toList by decide⟩
    unfold openFor
    rw [hrendition]
    cases hid : requested.rendition with
    | none =>
        apply succeeds_ofHttp rfl
        apply succeeds_ofHttp hmuxed
        apply succeeds_ofHttp hrequested
        apply succeeds_entityTag (isHeaderChar_of_visible hvisible)
        intro etag
        rw [hid]
        exact succeeds_bytes rfl
    | some id =>
        apply succeeds_ofHttp rfl
        apply succeeds_ofHttp hmuxed
        apply succeeds_ofHttp hrequested
        apply succeeds_entityTag (isHeaderChar_of_visible hvisible)
        intro etag
        rw [hid, parseTrack_rendition hrequested hid]
        have hinit : (openAsset (.composite
            (openComposite id []))).initSegment (some id) .video = .ok [] := by
          unfold Served.initSegment openAsset openComposite ClipGrid.resolve
          simp [TrackKey.video, openFile]
        exact succeeds_bytes hinit

theorem succeeds_clipInitSegment (iframes : Option Text) {protocol : Protocol}
    {track clip : Text} {number : ℕ} (h : (parseTrack track).isOk = true)
    (hclip : parseUnsigned (2 ^ 32) clip = some number) :
    (clipInitSegment
      (openState (openFor iframes (.clipInit protocol) [assetId, track, clip])
        grant)
      (openInbound (.clipInit protocol)) assetId track number).Succeeds := by
  obtain ⟨requested, hrequested⟩ := exists_ok_of_isOk h
  have hrendition :=
    (@resource_track assetId _ _ hrequested).2.2.1 protocol clip
  have hnumber : (Endpoint.clipInit protocol).clip [assetId, track, clip] =
      number := by
    change (parseUnsigned (2 ^ 32) clip).getD 0 = number
    rw [hclip]
    rfl
  have hvisible : Text.Visible
      (track ++ "-clip-".toList ++ decimal number ++ "-init".toList) := by
    simp only [Text.visible_append]
    exact ⟨⟨⟨parseTrack_visible hrequested, by decide⟩,
      Text.visible_decimal number⟩, by decide⟩
  unfold clipInitSegment openFor
  rw [hrendition, hnumber]
  cases hid : requested.rendition with
  | none =>
      apply succeeds_ofHttp rfl
      apply succeeds_ofHttp rfl
      apply succeeds_ofHttp hrequested
      apply succeeds_entityTag (isHeaderChar_of_visible hvisible)
      intro etag
      rw [hid]
      exact succeeds_bytes rfl
  | some id =>
      apply succeeds_ofHttp rfl
      apply succeeds_ofHttp rfl
      apply succeeds_ofHttp hrequested
      apply succeeds_entityTag (isHeaderChar_of_visible hvisible)
      intro etag
      rw [hid, parseTrack_rendition hrequested hid]
      have hinit : (openAsset (.adaptiveSequence
          (openClips id (number + 1)))).clipInitSegment (some id) .video
            number = .ok [] := by
        unfold Served.clipInitSegment openAsset openClips
          AdaptiveClips.clipInitSegment ClipRows.resolve ClipGrid.resolve
        simp [TrackKey.video, openFile]
      exact succeeds_bytes hinit

theorem succeeds_mediaSegment (iframes : Option Text) {protocol : Protocol}
    {track : Text} (index : Text) (number : ℕ)
    (h : isTrack protocol track = true) :
    (mediaSegment
      (openState (openFor iframes (.segment protocol) [assetId, track, index])
        grant)
      (openInbound (.segment protocol)) assetId track number).Succeeds := by
  unfold mediaSegment
  rcases isMuxed_of_isTrack h with
    ⟨rfl, rfl, hmuxed⟩ | ⟨hmuxed, requested, hrequested⟩
  · apply succeeds_ofHttp rfl
    apply succeeds_ofHttp rfl
    apply succeeds_ofHttp rfl
    apply succeeds_entityTag
    · exact isHeaderChar_of_visible (Text.visible_append.mpr
        ⟨by decide, Text.visible_decimal number⟩)
    · intro etag
      apply succeeds_ofHttp hmuxed
      exact succeeds_segment rfl
  · have hrendition :=
      (@resource_track assetId _ _ hrequested).2.2.2 protocol index
    have hvisible : Text.Visible
        (track ++ "-segment-".toList ++ decimal number) := by
      simp only [Text.visible_append]
      exact ⟨⟨parseTrack_visible hrequested, by decide⟩,
        Text.visible_decimal number⟩
    unfold openFor
    rw [hrendition]
    cases hid : requested.rendition with
    | none =>
        apply succeeds_ofHttp rfl
        apply succeeds_ofHttp rfl
        apply succeeds_ofHttp rfl
        apply succeeds_entityTag (isHeaderChar_of_visible hvisible)
        intro etag
        apply succeeds_ofHttp hmuxed
        apply succeeds_ofHttp hrequested
        rw [hid]
        exact succeeds_segment rfl
    | some id =>
        apply succeeds_ofHttp rfl
        apply succeeds_ofHttp rfl
        apply succeeds_ofHttp rfl
        apply succeeds_entityTag (isHeaderChar_of_visible hvisible)
        intro etag
        apply succeeds_ofHttp hmuxed
        apply succeeds_ofHttp hrequested
        rw [hid, parseTrack_rendition hrequested hid]
        have hsegment : (openAsset (.composite
            (openComposite id []))).prepareMediaSegment (some id) .video
              number = .ok ((), ⟨⟨[], [], 0⟩, none⟩) := by
          unfold Served.prepareMediaSegment openAsset openComposite
            ClipGrid.resolve
          simp [TrackKey.video, openFile, FileAsset.prepareMediaSegment]
        exact succeeds_segment hsegment

/-- Every answerable path is answered by some asset. -/
theorem open_succeeds (iframes : Option Text) {captures : List Text}
    (h : endpoint.answerable captures = true) :
    (endpoint.handle (openState (openFor iframes endpoint captures) grant)
      (openInbound endpoint) captures).Succeeds := by
  unfold Endpoint.answerable at h
  split at h
  · apply succeeds_ofHttp rfl
    exact succeeds_serve rfl
  · exact succeeds_mediaPlaylist h
  · exact succeeds_iframePlaylist iframes
  · obtain ⟨index, hindex⟩ := Option.isSome_iff_exists.mp h
    unfold Endpoint.handle
    dsimp only
    rw [hindex]
    exact succeeds_iframeSegment iframes _ index
  · exact succeeds_subtitlePlaylist iframes _
  · exact succeeds_subtitleFile iframes h
  · exact succeeds_initSegment iframes h
  · obtain ⟨hparsed, hclip⟩ := Bool.and_eq_true_iff.mp h
    obtain ⟨number, hnumber⟩ := Option.isSome_iff_exists.mp hclip
    unfold Endpoint.handle
    dsimp only
    rw [hnumber]
    exact succeeds_clipInitSegment iframes hparsed hnumber
  · obtain ⟨htrack, hindex⟩ := Bool.and_eq_true_iff.mp h
    obtain ⟨number, hnumber⟩ := Option.isSome_iff_exists.mp hindex
    unfold Endpoint.handle
    dsimp only
    rw [hnumber]
    exact succeeds_mediaSegment iframes _ number htrack
  · apply succeeds_ofHttp rfl
    rename_i asset
    have hmanifest : (openAsset (openFor iframes .dashManifest
        [asset])).dashManifest = .ok [] := rfl
    exact succeeds_serve hmanifest
  · cases h

end Open

/-! ## The two readings -/

theorem trackContent_of_parse {track id : Text}
    (h : (match parseTrack track with
      | .ok requested => requested.rendition
      | .error _ => none) = some id) :
    Served.trackContent track = some (.rendition id) := by
  unfold Served.trackContent
  cases hparsed : parseTrack track with
  | ok requested =>
      rw [hparsed] at h
      exact Option.map_eq_some_iff.mpr ⟨id, h, rfl⟩
  | error error =>
      rw [hparsed] at h
      cases h

/-- An asset serves the rendition whose track is asked for. -/
theorem content_rendition {asset : Served Source} {endpoint : Endpoint}
    {captures : List Text} {id : Text}
    (h : (endpoint.resource captures).rendition = some id) :
    asset.content endpoint captures = some (.rendition id) := by
  unfold Endpoint.resource at h
  dsimp only at h
  split at h
  · exact trackContent_of_parse h
  · exact trackContent_of_parse h
  · exact trackContent_of_parse h
  · exact trackContent_of_parse h
  · cases h

theorem content_openSubtitle (iframes : Option Text) {endpoint : Endpoint}
    {captures : List Text} {language : Text}
    (h : (endpoint.resource captures).subtitle = some language) :
    (openAsset (openFor iframes endpoint captures)).content endpoint captures =
      some (.subtitle language) := by
  have hfind : ([(language, [])] : List (Text × List UInt8)).find?
      (fun subtitle => eqIgnoreAsciiCase subtitle.1 language) =
        some (language, []) := by
    have hsame : eqIgnoreAsciiCase language language = true :=
      beq_self_eq_true (language.map Char.toLower)
    simp only [List.find?_cons, hsame]
  unfold Endpoint.resource at h
  dsimp only at h
  split at h
  · obtain rfl := Option.some.inj h
    exact Option.map_eq_some_iff.mpr ⟨(_, []), hfind, rfl⟩
  · obtain rfl := Option.some.inj h
    exact Option.map_eq_some_iff.mpr ⟨(_, []), hfind, rfl⟩
  · cases h

theorem content_openIframes {endpoint : Endpoint} (id : Text)
    (captures : List Text) (h : endpoint.isIframes = true) :
    (openAsset (openFor (some id) endpoint captures)).content endpoint
      captures = some (.rendition id) := by
  cases endpoint with
  | hlsIframePlaylist => rfl
  | hlsIframeSegment => rfl
  | _ => cases h

theorem exists_not_mem (allowed : List Text) : ∃ id, id ∉ allowed := by
  obtain ⟨id, hid⟩ := Infinite.exists_notMem_finset allowed.toFinset
  exact ⟨id, fun hmem => hid (List.mem_toFinset.mpr hmem)⟩

theorem reads_of_serves {path : Text} {grant : Grant}
    (h : ServesWhatIsGranted path grant) : ReadsAsChecked path grant := by
  intro hcovers endpoint captured captures hroute hdecoded hanswerable
  have hserved : ∀ iframes,
      captures.headD [] ∈ grant.assets ∧
        ∀ content, (openAsset (openFor iframes endpoint captures)).content
            endpoint captures = some content → grant.Allows content := by
    intro iframes
    have hlet : LetThrough (openState (openFor iframes endpoint captures) grant)
        (openRequest path) grant endpoint (openInbound endpoint) captures :=
      open_letThrough hcovers hroute hdecoded
    refine h Unit _ _ endpoint _ captures _ rfl hlet rfl ?_
    unfold answer
    rw [hlet.dispatched]
    dsimp only
    unfold Handler.Succeeds
    rw [Handler.status_respond]
    exact open_succeeds iframes hanswerable
  refine ⟨Grant.covers_iff.mpr ⟨(hserved none).1, ?_, ?_⟩, fun hiframes => ?_⟩
  · intro id hid
    exact (hserved none).2 _ (content_rendition hid)
  · intro language hlanguage
    exact (hserved none).2 _ (content_openSubtitle none hlanguage)
  · cases hallowed : grant.renditions with
    | none => rfl
    | some allowed =>
        obtain ⟨id, hid⟩ := exists_not_mem allowed
        have hallows := (hserved (some id)).2 _
          (content_openIframes id captures hiframes)
        exact absurd (hallows allowed hallowed) hid

/-- What is served under a grant is what it names, exactly on the paths whose
decoded names it covers as well, and that ask for keyframes only where it
covers every rendition. -/
theorem serves_what_is_granted_iff (path : Text) (grant : Grant) :
    ServesWhatIsGranted path grant ↔ ReadsAsChecked path grant :=
  ⟨reads_of_serves, serves_of_reads⟩

/-! ## A path that is read in two ways -/

/-- A rendition of the film the viewer may not see, spelt with an escape. -/
def escapedPath : Text :=
  "/hls/film/video%2Duhd/init.mp4".toList

def sdGrant : Grant where
  assets := ["film".toList]
  renditions := some ["sd".toList]
  subtitles := none

/-- The film in two renditions, the keyframes of the first. -/
def filmComposite : CompositeAsset (FileAsset Unit) :=
  { openComposite "uhd".toList [] with
    video := [⟨"uhd".toList, openFile []⟩, ⟨"sd".toList, openFile []⟩]
    audioOnly := []
    audio := []
    iframeSource := 0 }

def filmState : AppState Unit :=
  openState (.composite filmComposite) sdGrant

def keyframesPath : Text :=
  "/hls/film/video/iframes.m3u8".toList

theorem film_uhd_served {path : Text} {endpoint : Endpoint}
    {captured captures : List Text}
    (hcovers : (Resource.fromPath path).any sdGrant.covers = true)
    (hroute : findRoute path = some (endpoint, captured))
    (hdecoded : captured.mapM percentDecode = some captures)
    (hanswer : (answer filmState (openRequest path)).status = some 200)
    (hcontent : (openAsset (.composite filmComposite)).content endpoint
      captures = some (.rendition "uhd".toList)) :
    ¬ServesWhatIsGranted path sdGrant := by
  intro hserves
  obtain ⟨-, hallows⟩ := hserves Unit filmState (openRequest path) endpoint
    (openInbound endpoint) captures (openAsset (.composite filmComposite)) rfl
    (open_letThrough hcovers hroute hdecoded) rfl (Or.inl hanswer)
  exact absurd (hallows _ hcontent ["sd".toList] rfl) (by decide)

/-- The film's other rendition is served, and so are its keyframes. -/
theorem other_rendition_served :
    (Resource.fromPath escapedPath).any sdGrant.covers = true ∧
      ¬ServesWhatIsGranted escapedPath sdGrant ∧
      ¬ServesWhatIsGranted keyframesPath sdGrant := by
  have hescaped : findRoute escapedPath = some
      (.init .hls, ["film".toList, "video%2Duhd".toList]) := by
    decide
  have hkeyframes : findRoute keyframesPath = some
      (.hlsIframePlaylist, ["film".toList]) := by
    decide
  have hdecoded : ["film".toList, "video%2Duhd".toList].mapM percentDecode =
      some ["film".toList, "video-uhd".toList] := by
    decide
  have hfilm : ["film".toList].mapM percentDecode = some ["film".toList] := by
    decide
  refine ⟨by decide, ?_, ?_⟩
  · exact film_uhd_served (by decide) hescaped hdecoded
      (by decide) (by decide)
  · exact film_uhd_served (by decide) hkeyframes hfilm
      (by decide) (by decide)

end Segmentor
