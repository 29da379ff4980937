import Segmentor.General.Numerals
import Segmentor.Router

/-!
# Entity tags that can be made

A handler names its entity tag before or after it has checked the track or
language it was asked for.  Which requests can end in a panic for it, and
which name only visible characters.
-/

namespace Segmentor

open General

variable {Source : Type}

/-! ## Characters -/

def Text.Visible (text : Text) : Prop :=
  ∀ c ∈ text, isVisibleAscii c = true

instance (text : Text) : Decidable (Text.Visible text) :=
  List.decidableBAll _ text

theorem Text.visible_append {a b : Text} :
    Text.Visible (a ++ b) ↔ Text.Visible a ∧ Text.Visible b := by
  unfold Text.Visible
  simp only [List.mem_append, or_imp, forall_and]

theorem isVisibleAscii_of_isAlphanum {c : Char} (h : c.isAlphanum = true) :
    isVisibleAscii c = true := by
  rw [isAlphanum_iff, isUpper_iff, isLower_iff, isDigit_iff] at h
  simp only [isVisibleAscii, Bool.and_eq_true, decide_eq_true_eq]
  omega

theorem isVisibleAscii_toLower (c : Char) :
    isVisibleAscii c.toLower = isVisibleAscii c := by
  unfold Char.toLower
  split
  · next hupper =>
      simp only [ge_iff_le, UInt32.le_iff_toNat_le] at hupper
      obtain ⟨hlow, hhigh⟩ := hupper
      change 65 ≤ c.val.toNat at hlow
      change c.val.toNat ≤ 90 at hhigh
      have hgap : ('a'.val - 'A'.val).toNat = 32 := rfl
      rw [Bool.eq_iff_iff]
      simp only [isVisibleAscii, Char.toNat, UInt32.toNat_add, hgap,
        Bool.and_eq_true, decide_eq_true_eq]
      omega
  · rfl

theorem Text.visible_map_toLower {text : Text} :
    Text.Visible (text.map Char.toLower) ↔ Text.Visible text := by
  unfold Text.Visible
  simp only [List.forall_mem_map, isVisibleAscii_toLower]

theorem Text.visible_decimal (n : ℕ) : Text.Visible (decimal n) := by
  intro c hc
  have hdigit : c.isDigit = true :=
    Nat.isDigit_of_mem_toDigits (by decide) (by decide) hc
  exact isVisibleAscii_of_isAlphanum (isAlphanum_iff.mpr (.inr hdigit))

/-! ## Runs that name visible characters only -/

namespace Handler

variable {α β : Type}

/-- Every name is made of visible characters, and none makes the run
panic. -/
structure Safe (run : Handler α) : Prop where
  visible : ∀ name ∈ run.names, Text.Visible name
  ends : run.outcome ≠ .error .panicked

theorem safe_pure (a : α) : (pure a : Handler α).Safe where
  visible := by simp
  ends := by simp

theorem safe_refuse (error : HttpError) : (refuse error : Handler α).Safe where
  visible := by simp
  ends := by simp

theorem safe_ofHttp (x : Except HttpError α) : (ofHttp x).Safe := by
  cases x with
  | ok a => exact safe_pure a
  | error error => exact safe_refuse error

theorem safe_ofResult (x : Result α) : (ofResult x).Safe := by
  cases x with
  | ok a => exact safe_pure a
  | error error => exact safe_refuse _

theorem Safe.bind {run : Handler α} {next : α → Handler β} (h : run.Safe)
    (hnext : ∀ a, run.outcome = .ok a → (next a).Safe) :
    (run >>= next).Safe := by
  rw [bind_eq]
  unfold Handler.bind
  cases hrun : run.outcome with
  | ok a =>
      have hrest := hnext a hrun
      constructor
      · intro name hmem
        rcases List.mem_append.mp hmem with hold | hnew
        · exact h.visible name hold
        · exact hrest.visible name hnew
      · exact hrest.ends
  | error failure =>
      constructor
      · exact h.visible
      · have hends := h.ends
        rw [hrun] at hends
        simpa using hends

theorem Safe.of_bind {run : Handler α} {next : α → Handler β}
    (h : (run >>= next).Safe) : run.Safe := by
  rw [bind_eq] at h
  unfold Handler.bind at h
  cases hrun : run.outcome with
  | ok a =>
      rw [hrun] at h
      constructor
      · intro name hmem
        exact h.visible name (List.mem_append_left _ hmem)
      · rw [hrun]
        simp
  | error failure =>
      rw [hrun] at h
      constructor
      · exact h.visible
      · rw [hrun]
        simpa using h.ends

theorem safe_ofHttp_bind_iff {x : Except HttpError α}
    {next : α → Handler β} :
    (ofHttp x >>= next).Safe ↔ ∀ a, x = .ok a → (next a).Safe := by
  cases x with
  | ok a => simp
  | error error =>
      rw [ofHttp_error, refuse_bind]
      exact iff_of_true (safe_refuse error) (by simp)

theorem safe_respond_iff {run : Handler (Response Source)} :
    run.respond.Safe ↔ run.Safe := by
  unfold respond
  cases hrun : run.outcome with
  | ok response => rfl
  | error failure =>
      cases failure with
      | panicked => rfl
      | refused error =>
          constructor
          · rintro ⟨hvisible, -⟩
            exact ⟨hvisible, by simp [hrun]⟩
          · rintro ⟨hvisible, -⟩
            exact ⟨hvisible, by simp⟩

end Handler

open Handler

theorem safe_entityTag_iff (asset : Served Source) (name : Text) :
    (entityTag asset.version name).Safe ↔ Text.Visible name := by
  constructor
  · intro h
    exact h.visible name (by simp [entityTag])
  · intro hname
    have hversion : Text.Visible asset.version := by
      intro c hc
      have hhex := List.all_eq_true.mp asset.version_hex c hc
      apply isVisibleAscii_of_isAlphanum
      simp only [Bool.or_eq_true, Bool.and_eq_true, decide_eq_true_eq] at hhex
      rcases hhex with hdigit | ⟨hlow, hhigh⟩
      · exact isAlphanum_iff.mpr (.inr hdigit)
      · refine isAlphanum_iff.mpr (.inl (.inr (isLower_iff.mpr ?_)))
        change 97 ≤ c.toNat at hlow
        change c.toNat ≤ 102 at hhigh
        omega
    have hall : ('"' :: (asset.version ++ '-' :: name ++ ['"'])).all
        isHeaderText = true := by
      rw [List.all_eq_true]
      intro c hc
      have hvisible : isVisibleAscii c = true := by
        simp only [List.mem_cons, List.mem_append, List.not_mem_nil,
          or_false] at hc
        rcases hc with rfl | (hmem | rfl | hmem) | rfl
        · decide
        · exact hversion c hmem
        · decide
        · exact hname c hmem
        · decide
      simp [isHeaderText, hvisible]
    constructor
    · simpa [entityTag] using hname
    · simp only [entityTag, headerFromStr_of_text hall]
      simp

/-! ## Handlers -/

theorem safe_serveBytes (headers : Headers) (etag : HeaderValue)
    (contentType : String) (bytes : List UInt8) :
    (serveBytes headers etag contentType bytes :
      Handler (Response Source)).Safe := by
  unfold serveBytes
  split
  · exact safe_pure _
  · exact safe_pure _

theorem safe_unlessHeld {headers : Headers} {etag : HeaderValue}
    {cacheControl : String} {rest : Handler (Response Source)}
    (h : rest.Safe) : (unlessHeld headers etag cacheControl rest).Safe := by
  unfold unlessHeld
  split
  · exact safe_pure _
  · exact h

/-- Bytes looked up once the client turns out not to hold them. -/
theorem safe_heldBytes (headers : Headers) (etag : HeaderValue)
    (contentType : String) (bytes : Result (List UInt8)) :
    (unlessHeld headers etag immutable do
      let bytes ← .ofResult bytes
      serveBytes headers etag contentType bytes :
        Handler (Response Source)).Safe := by
  apply safe_unlessHeld
  apply (safe_ofResult bytes).bind
  intro data _
  exact safe_serveBytes headers etag contentType data

variable (state : AppState Source) (inbound : Inbound)

theorem safe_serveSegment (etag : HeaderValue) (kind : TrackKind)
    (prepare : Result (Source × PendingSegment)) :
    (serveSegment state inbound etag kind prepare).Safe := by
  apply safe_unlessHeld
  apply (safe_ofResult prepare).bind
  rintro ⟨source, pending⟩ _
  apply (safe_ofHttp _).bind
  rintro ⟨prepared, permitted⟩ _
  dsimp only
  split
  · exact safe_pure _
  · split
    · exact safe_pure _
    · apply (safe_ofHttp _).bind
      intro _ _
      exact safe_pure _

theorem safe_serve_iff (asset : Served Source) (resource : Text)
    (contentType : String) (manifest : Result Manifest) :
    (serve state inbound asset.version resource contentType manifest).Safe ↔
      (inbound.token = none → Text.Visible resource) := by
  unfold serve
  cases inbound.token with
  | some token =>
      simp only [reduceCtorEq, false_implies, iff_true]
      apply (safe_ofResult manifest).bind
      intro _ _
      exact safe_pure _
  | none =>
      dsimp only
      generalize negotiate _ _ = encoding
      generalize htagged : entityTag asset.version _ = tagged
      have hname : tagged.Safe ↔ Text.Visible resource := by
        rw [← htagged, safe_entityTag_iff]
        cases encoding with
        | identity => rfl
        | brotli =>
            rw [Encoding.header, Text.visible_append]
            exact and_iff_left (by decide)
        | gzip =>
            rw [Encoding.header, Text.visible_append]
            exact and_iff_left (by decide)
      constructor
      · intro h _
        exact hname.mp h.of_bind
      · intro h
        apply (hname.mpr (h rfl)).bind
        intro etag _
        split
        · exact safe_pure _
        · apply (safe_ofResult manifest).bind
          intro _ _
          exact safe_pure _

theorem parseTrack_visible {track : Text} {requested : RequestedTrack}
    (h : parseTrack track = .ok requested) : Text.Visible track := by
  unfold parseTrack at h
  cases hstrip : stripPrefix videoPrefix track with
  | some id =>
      rw [hstrip] at h
      dsimp only at h
      split at h
      · next hid =>
          unfold stripPrefix at hstrip
          split at hstrip
          · next hprefix =>
              obtain ⟨rest, hrest⟩ := List.isPrefixOf_iff_prefix.mp hprefix
              have hid' : id = rest := by
                rw [← hrest, List.drop_left] at hstrip
                exact (Option.some.inj hstrip).symm
              rw [← hrest, Text.visible_append]
              constructor
              · decide
              · intro c hc
                simp only [isRenditionId, Bool.and_eq_true,
                  List.all_eq_true] at hid
                have hchar := hid.2 c (hid' ▸ hc)
                rcases Bool.or_eq_true_iff.mp hchar with halnum | hdash
                · exact isVisibleAscii_of_isAlphanum halnum
                · rw [beq_iff_eq] at hdash
                  subst hdash
                  decide
          · cases hstrip
      · cases h
  | none =>
      rw [hstrip] at h
      dsimp only at h
      rw [okOr_eq_ok_iff] at h
      obtain ⟨key, hkey, -⟩ := Option.map_eq_some_iff.mp h
      unfold TrackKey.parse at hkey
      split at hkey
      · next hvideo =>
          rw [hvideo]
          decide
      · obtain ⟨digits, -, hrest⟩ := Option.bind_eq_some_iff.mp hkey
        obtain ⟨ordinal, -, hsame⟩ := Option.bind_eq_some_iff.mp hrest
        split at hsame
        · next hcanonical =>
            rw [← hcanonical.2, Text.visible_append]
            exact ⟨by decide, Text.visible_decimal ordinal⟩
        · cases hsame

variable (assetId : Text)

theorem safe_initSegment (track : Text) :
    (initSegment state inbound assetId track).Safe := by
  unfold initSegment
  simp only [safe_ofHttp_bind_iff]
  intro asset _ _ _ _ _ muxed _
  split
  · have htag := (safe_entityTag_iff asset "muxed-init".toList).mpr
      (by decide)
    apply htag.bind
    intro etag _
    exact safe_heldBytes _ _ _ _
  · rw [safe_ofHttp_bind_iff]
    intro requested hrequested
    have htag := (safe_entityTag_iff asset (track ++ "-init".toList)).mpr
      (Text.visible_append.mpr ⟨parseTrack_visible hrequested, by decide⟩)
    apply htag.bind
    intro etag _
    exact safe_heldBytes _ _ _ _

theorem safe_clipInitSegment (track : Text) (clip : ℕ) :
    (clipInitSegment state inbound assetId track clip).Safe := by
  unfold clipInitSegment
  simp only [safe_ofHttp_bind_iff]
  intro asset _ _ _ requested hrequested
  have htag := (safe_entityTag_iff asset
    (track ++ "-clip-".toList ++ decimal clip ++ "-init".toList)).mpr (by
      simp only [Text.visible_append]
      exact ⟨⟨⟨parseTrack_visible hrequested, by decide⟩,
        Text.visible_decimal clip⟩, by decide⟩)
  apply htag.bind
  intro etag _
  exact safe_heldBytes _ _ _ _

theorem safe_iframeSegment (frameIndex : ℕ) :
    (iframeSegment state inbound assetId frameIndex).Safe := by
  unfold iframeSegment
  simp only [safe_ofHttp_bind_iff]
  intro asset _ _ _
  have htag := (safe_entityTag_iff asset
    ("iframe-".toList ++ decimal frameIndex)).mpr
    (Text.visible_append.mpr ⟨by decide, Text.visible_decimal frameIndex⟩)
  apply htag.bind
  intro etag _
  exact safe_serveSegment state inbound _ _ _

theorem requireVersion_eq_ok_iff {version : Option Text} {current : Text}
    {done : Unit} :
    requireVersion version current = .ok done ↔ version = some current := by
  unfold requireVersion
  split
  · next h => exact iff_of_true rfl h
  · next h => exact iff_of_false (by simp) h

theorem requireProtocol_eq_ok_iff {asset : Served Source}
    {protocol : Protocol} {done : Unit} :
    requireProtocol asset protocol = .ok done ↔
      ¬ (asset.isHlsOnly = true ∧ protocol = .dash) := by
  unfold requireProtocol
  split
  · next h => exact iff_of_false (by simp) (not_not.mpr h)
  · next h => exact iff_of_true rfl h

theorem safe_mediaSegment_iff (track : Text) (segmentIndex : ℕ) :
    (mediaSegment state inbound assetId track segmentIndex).Safe ↔
      ∀ asset, state.asset assetId = .ok asset →
        inbound.version = some asset.version →
        ¬ (asset.isHlsOnly = true ∧ inbound.protocol = .dash) →
        Text.Visible track := by
  unfold mediaSegment
  simp only [safe_ofHttp_bind_iff, requireVersion_eq_ok_iff,
    requireProtocol_eq_ok_iff]
  have hname : ∀ asset : Served Source, (entityTag asset.version
      (track ++ "-segment-".toList ++ decimal segmentIndex)).Safe ↔
      Text.Visible track := by
    intro asset
    rw [safe_entityTag_iff, Text.visible_append, Text.visible_append]
    constructor
    · exact fun h => h.1.1
    · exact fun h => ⟨⟨h, by decide⟩, Text.visible_decimal segmentIndex⟩
  constructor
  · intro h asset hasset hversion hprotocol
    rw [← hname asset]
    exact (h asset hasset () hversion () hprotocol).of_bind
  · intro h asset hasset _ hversion _ hprotocol
    have htag := (hname asset).mpr (h asset hasset hversion hprotocol)
    apply htag.bind
    intro etag _
    rw [safe_ofHttp_bind_iff]
    intro muxed _
    split
    · exact safe_serveSegment state inbound _ _ _
    · rw [safe_ofHttp_bind_iff]
      intro requested _
      exact safe_serveSegment state inbound _ _ _

theorem safe_subtitleFile_iff (language : Text) :
    (subtitleFile state inbound assetId language).Safe ↔
      ∀ asset, state.asset assetId = .ok asset →
        inbound.version = some asset.version → Text.Visible language := by
  unfold subtitleFile
  simp only [safe_ofHttp_bind_iff, requireVersion_eq_ok_iff]
  have hname : ∀ asset : Served Source, (entityTag asset.version
      ("subtitle-".toList ++ language.map Char.toLower)).Safe ↔
      Text.Visible language := by
    intro asset
    rw [safe_entityTag_iff, Text.visible_append, Text.visible_map_toLower]
    exact and_iff_right (by decide)
  constructor
  · intro h asset hasset hversion
    rw [← hname asset]
    exact (h asset hasset () hversion).of_bind
  · intro h asset hasset _ hversion
    have htag := (hname asset).mpr (h asset hasset hversion)
    apply htag.bind
    intro etag _
    exact safe_heldBytes _ _ _ _

theorem safe_subtitlePlaylist_iff (language : Text) :
    (subtitlePlaylist state inbound assetId language).Safe ↔
      ∀ asset, state.asset assetId = .ok asset →
        inbound.token = none → Text.Visible language := by
  unfold subtitlePlaylist
  simp only [safe_ofHttp_bind_iff, safe_serve_iff]
  have hname : Text.Visible ("hls-subtitle-".toList ++
      language.map Char.toLower ++ "-playlist".toList) ↔
      Text.Visible language := by
    rw [Text.visible_append, Text.visible_append, Text.visible_map_toLower]
    constructor
    · exact fun h => h.1.2
    · exact fun h => ⟨⟨by decide, h⟩, by decide⟩
  simp only [hname]

theorem safe_mediaPlaylistHandler (track : Text) :
    (mediaPlaylistHandler state inbound assetId track).Safe := by
  unfold mediaPlaylistHandler
  simp only [safe_ofHttp_bind_iff]
  intro asset _
  split
  · rw [safe_serve_iff]
    exact fun _ => by decide
  · rw [safe_ofHttp_bind_iff]
    intro requested hrequested
    rw [safe_serve_iff]
    intro _
    simp only [Text.visible_append]
    exact ⟨⟨by decide, parseTrack_visible hrequested⟩, by decide⟩

/-- A playlist whose name is fixed. -/
theorem safe_fixedPlaylist {resource : Text} (hresource : Text.Visible resource)
    (contentType : String) (manifest : Served Source → Result Manifest) :
    (do
      let asset ← .ofHttp (state.asset assetId)
      serve state inbound asset.version resource contentType
        (manifest asset) : Handler (Response Source)).Safe := by
  rw [safe_ofHttp_bind_iff]
  intro asset _
  rw [safe_serve_iff]
  exact fun _ => hresource

/-! ## Every route -/

/-- What a handler reads is visible where its name is made of it: the track
of a segment, and the language of a subtitle, of an asset that is there. -/
def Endpoint.NamesVisible (endpoint : Endpoint) (captures : List Text) :
    Prop :=
  match endpoint, captures with
  | .segment _, [assetId, track, index] =>
      (parseUnsigned (2 ^ 32) index).isSome = true →
        ∀ asset, state.asset assetId = .ok asset →
          inbound.version = some asset.version →
          ¬ (asset.isHlsOnly = true ∧ inbound.protocol = .dash) →
          Text.Visible track
  | .subtitleFile _, [assetId, language] =>
      ∀ asset, state.asset assetId = .ok asset →
        inbound.version = some asset.version → Text.Visible language
  | .hlsSubtitlePlaylist, [assetId, language] =>
      ∀ asset, state.asset assetId = .ok asset →
        inbound.token = none → Text.Visible language
  | _, _ => True

theorem safe_handle_iff (endpoint : Endpoint) (captures : List Text) :
    (endpoint.handle state inbound captures).Safe ↔
      endpoint.NamesVisible state inbound captures := by
  unfold Endpoint.handle
  split
  · exact iff_of_true
      (safe_fixedPlaylist _ _ _ (by decide) _ _) trivial
  · exact iff_of_true (safe_mediaPlaylistHandler _ _ _ _) trivial
  · exact iff_of_true
      (safe_fixedPlaylist _ _ _ (by decide) _ _) trivial
  · apply iff_of_true _ trivial
    split
    · exact safe_iframeSegment _ _ _ _
    · exact safe_pure _
  · exact safe_subtitlePlaylist_iff _ _ _ _
  · exact safe_subtitleFile_iff _ _ _ _
  · exact iff_of_true (safe_initSegment _ _ _ _) trivial
  · apply iff_of_true _ trivial
    split
    · exact safe_clipInitSegment _ _ _ _ _
    · exact safe_pure _
  · split
    · next hindex =>
        rw [safe_mediaSegment_iff]
        simp only [Endpoint.NamesVisible, hindex, Option.isSome_some,
          true_implies]
    · next hindex =>
        apply iff_of_true (safe_pure _)
        simp only [Endpoint.NamesVisible, hindex, Option.isSome_none,
          Bool.false_eq_true, false_implies]
  · exact iff_of_true
      (safe_fixedPlaylist _ _ _ (by decide) _ _) trivial
  · apply iff_of_true (safe_pure _)
    unfold Endpoint.NamesVisible
    split <;> grind

/-- A request names only visible characters in its entity tag, and does not
make its handler panic, exactly where the track or language it reaches the
handler with is visible, or nothing is named after it. -/
theorem entity_tags_safe_iff (request : HttpRequest) :
    (answer state request).Safe ↔
      ∀ endpoint inbound captures,
        dispatch state request = .ok (endpoint, inbound, captures) →
        endpoint.NamesVisible state inbound captures := by
  unfold answer
  split
  · next response hresponse =>
      apply iff_of_true (safe_pure response)
      intro endpoint inbound captures hreached
      rw [hresponse] at hreached
      cases hreached
  · next endpoint inbound captures hreached =>
      rw [safe_respond_iff, safe_handle_iff]
      constructor
      · intro h endpoint' inbound' captures' hsame
        rw [hreached] at hsame
        obtain ⟨rfl, rfl, rfl⟩ := Prod.mk.inj (Except.ok.inj hsame) |>.imp id
          Prod.mk.inj
        exact h
      · intro h
        exact h endpoint inbound captures hreached

/-! ## A language that is a control character -/

/-- A file with one subtitle and no tracks to serve. -/
def subtitledFile : FileAsset Unit where
  source := ()
  isAes128 := false
  hlsMasterPlaylist := []
  dashManifest := .error noTrack
  hlsIframePlaylist := .error noTrack
  hlsMediaPlaylist _ := .error noTrack
  hlsMuxedPlaylist := .error noTrack
  hlsSubtitlePlaylist := []
  subtitles := [("en".toList, [])]
  initSegment _ := .error noTrack
  muxedInitSegment := .error noTrack
  prepareNumberedSegment _ _ _ := .error noTrack
  prepareMuxedSegment _ := .error noTrack
  prepareIframe _ := .error noTrack

def subtitledAsset : Served Unit where
  version := "0123456789abcdef".toList
  kind := .single subtitledFile
  version_hex := by decide

/-- A server whose every asset is the file, without authorization. -/
def subtitledState : AppState Unit where
  asset _ := .ok subtitledAsset
  maxRequestHeaderBytes := 16384
  requestSlot := true
  authorization := none
  versionParameter query := some (query.map fun text => text.drop 2)
  positiveQuality _ := true
  segmentPermit := .ok ()
  encryptSegment _ _ := .error trackMissing

/-- A request for the subtitle of the language `U+007F`. -/
def deleteRequest : HttpRequest where
  head := false
  path := "/hls/movie/subtitles/%7F/sub.vtt".toList
  query := some "v=0123456789abcdef".toList
  headers := []

theorem deleteRequest_panics :
    (answer subtitledState deleteRequest).outcome = .error .panicked ∧
      (answer subtitledState deleteRequest).names =
        ["subtitle-".toList ++ [Char.ofNat 127]] := by
  decide +kernel

end Segmentor
