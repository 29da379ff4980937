import Segmentor.TrackDetails

/-!
# The texts of a mapper's answer

What the mapper's texts are checked for before they are trusted: the version,
the labels and languages of subtitles and renditions, the ids of renditions,
and the URIs of DRM systems and keys.  Parsing URLs is a parameter.
-/

namespace Segmentor

open General

/-- A control character: what `char::is_control` tells of it. -/
def isControl (c : Char) : Bool :=
  decide (c.toNat < 0x20 ∨ (0x7f ≤ c.toNat ∧ c.toNat < 0xa0))

/-- A parsed URL: its scheme, and the whole of it written out. -/
structure ParsedUrl where
  scheme : String
  serialized : String
  deriving DecidableEq, Repr

/-- A character as `str::escape_default` writes it. -/
def escapeDefaultChar (c : Char) : Text :=
  if c = '\t' then ['\\', 't']
  else if c = '\r' then ['\\', 'r']
  else if c = '\n' then ['\\', 'n']
  else if c.toNat = 39 ∨ c = '"' ∨ c = '\\' then ['\\', c]
  else if 0x20 ≤ c.toNat ∧ c.toNat ≤ 0x7e then [c]
  else '\\' :: 'u' :: openBrace :: Nat.toDigits 16 c.toNat ++ [closeBrace]

def escapeDefault (text : String) : String :=
  String.ofList (text.toList.flatMap escapeDefaultChar)

namespace Mapper

/-! ## Keys and systems -/

def maxUriBytes : ℕ := 2048

def licenseUrl (parseUrl : String → Option ParsedUrl) (text : String) :
    Except String String := do
  let url ← okOr (parseUrl text) "encryption license_url is not a URL"
  if url.scheme ≠ "https" ∨ maxUriBytes < utf8Length text.toList then
    .error "encryption license_url must be an https URL"
  else .ok url.serialized

/-- A URI that is written between double quotes in an HLS attribute. -/
def hlsUri (text : String) : Except String String :=
  if text.toList = [] ∨ maxUriBytes < utf8Length text.toList ∨
      (text.toList.any fun c => c == '"' || isControl c) = true then
    .error "encryption hls_uri must be 1 to 2048 characters without quotes"
  else .ok text

/-- A DRM system on the wire, its ID and box decoded. -/
structure WireSystem where
  systemId : List UInt8
  pssh : Option (List UInt8)
  licenseUrl : Option String
  hlsUri : Option String
  deriving DecidableEq, Repr

def maxPsshBytes : ℕ := 16384

/-- A box that is whole and names the system. -/
def decodePssh (systemId : List UInt8) (bytes : List UInt8) :
    Except String
      {bytes : List UInt8 // (parsePssh bytes).map Prod.fst = some systemId} :=
  if maxPsshBytes < bytes.length then
    .error "encryption pssh is larger than 16384 bytes"
  else if h : (parsePssh bytes).map Prod.fst = some systemId then .ok ⟨bytes, h⟩
  else if (parsePssh bytes).isSome then
    .error "encryption pssh names a different system_id"
  else .error "encryption pssh is not a well-formed pssh box"

/-- One system of a period, after those in `known`. -/
def systemOf (parseUrl : String → Option ParsedUrl)
    (known : List (List UInt8)) (wire : WireSystem) :
    Except String DrmSystem := do
  if known.contains wire.systemId then
    .error "encryption lists a system_id twice"
  else
    let pssh ← wire.pssh.mapM (decodePssh wire.systemId)
    let license ← wire.licenseUrl.mapM (licenseUrl parseUrl)
    let uri ← wire.hlsUri.mapM hlsUri
    if wire.systemId = DrmSystem.fairPlay ∧ uri = none then
      .error "FairPlay needs an hls_uri"
    else
      .ok
        { systemId := wire.systemId
          pssh := pssh.map Subtype.val
          licenseUrl := license
          hlsUri := uri
          pssh_named := by
            intro bytes hbytes
            obtain ⟨decoded, -, rfl⟩ := Option.map_eq_some_iff.mp hbytes
            exact decoded.2 }

def systemsOf (parseUrl : String → Option ParsedUrl) :
    List (List UInt8) → List WireSystem → Except String (List DrmSystem)
  | _, [] => .ok []
  | known, wire :: rest => do
      let system ← systemOf parseUrl known wire
      let others ← systemsOf parseUrl (system.systemId :: known) rest
      .ok (system :: others)

/-- The keys of a stretch, checked, and its systems on the wire. -/
structure WireKeys where
  keys : Option Keys
  systems : List WireSystem
  deriving DecidableEq, Repr

def singlePeriod (parseUrl : String → Option ParsedUrl) (wire : WireKeys) :
    Except String PeriodKeys := do
  let keys ← okOr wire.keys
    ("encryption keys must be one for all tracks, " ++
      "or one for video and one for audio")
  if maxSystems < wire.systems.length then
    .error "encryption lists more than 8 systems"
  else
    let systems ← systemsOf parseUrl [] wire.systems
    Segmentor.singlePeriod keys systems

structure WirePeriod where
  startMs : ℕ
  clear : Bool
  content : WireKeys
  deriving DecidableEq, Repr

structure WireEncryption where
  scheme : String
  content : WireKeys
  clearLeadMs : Option ℕ
  periods : List WirePeriod
  deriving DecidableEq, Repr

def periodOf (parseUrl : String → Option ParsedUrl) (wire : WirePeriod) :
    Except String KeyPeriod :=
  if wire.clear then
    if wire.content.keys.isSome ∨ wire.content.systems ≠ [] then
      .error "an encryption period is clear or has keys, not both"
    else .ok ⟨wire.startMs, none⟩
  else do
    let keys ← singlePeriod parseUrl wire.content
    .ok ⟨wire.startMs, some keys⟩

def maxPeriods : ℕ := 256

def WireEncryption.validate (parseUrl : String → Option ParsedUrl)
    (wire : WireEncryption) : Except String Encryption :=
  if wire.scheme ≠ "cbcs" then
    .error "encryption scheme is not supported; only cbcs is"
  else if wire.periods = [] then do
    let primary ← singlePeriod parseUrl wire.content
    match wire.clearLeadMs with
    | none | some 0 => .ok (.whole primary)
    | some lead => timeline [⟨0, none⟩, ⟨lead, some primary⟩]
  else if wire.content.keys.isSome ∨ wire.content.systems ≠ [] ∨
      wire.clearLeadMs.isSome then
    .error ("encryption periods cannot be combined with keys, systems, " ++
      "or clear_lead_ms")
  else if maxPeriods < wire.periods.length then
    .error "encryption lists more than 256 periods"
  else do
    let periods ← wire.periods.mapM (periodOf parseUrl)
    timeline periods

/-- The key of an asset whose segments are encrypted whole, decoded, and where
players fetch it. -/
structure WireAes128 where
  key : Option (List UInt8)
  keyUri : String
  deriving DecidableEq, Repr

def WireAes128.validate (wire : WireAes128) : Except String Aes128 := do
  let key ← okOr wire.key "hls_aes128 key must be 32 hex digits"
  let uri ← (hlsUri wire.keyUri).mapError fun _ =>
    "hls_aes128 key_uri must be 1 to 2048 characters without quotes"
  .ok { key := key, uri := uri }

/-! ## Subtitles -/

def maxLabelBytes : ℕ := 128

/-- A language tag as it can appear in a URL path: letters, digits and single
hyphens, starting with a letter, at most 35 characters. -/
def isLanguageTag (tag : Text) : Bool :=
  decide (utf8Length tag ≤ 35) &&
    ((tag.splitOn '-').all fun part =>
      part ≠ [] && part.all Char.isAlphanum) &&
    tag.head?.any Char.isAlpha

structure WireSubtitle (Location : Type) where
  language : String
  label : Option String
  default : Bool
  forced : Bool
  location : Location

variable {Location : Type}

def subtitleLabel (wire : WireSubtitle Location) : String :=
  wire.label.getD wire.language

def labelFits (label : Text) : Bool :=
  label ≠ [] && decide (utf8Length label ≤ maxLabelBytes) &&
    !label.any isControl

/-- The subtitles from an entry on, after those in `known`. -/
def interpretSubtitles : List (SubtitleLocation Location) →
    List (WireSubtitle Location) →
      Except String (List (SubtitleLocation Location))
  | known, [] =>
      if 1 < (known.filter SubtitleLocation.default).length then
        .error "more than one subtitle is marked default"
      else .ok known
  | known, wire :: rest =>
      if !isLanguageTag wire.language.toList then
        .error ("subtitle language `" ++ escapeDefault wire.language ++
          "` is not a BCP 47 tag of letters, digits and hyphens")
      else if known.any fun entry =>
          foldCase entry.language == foldCase wire.language then
        .error s!"subtitle language `{wire.language}` is listed twice"
      else if !labelFits (subtitleLabel wire).toList then
        .error ("subtitle `" ++ wire.language ++
          "` has an empty, overlong, or control-character label")
      else
        interpretSubtitles
          (known ++ [{ language := wire.language
                       label := subtitleLabel wire
                       default := wire.default
                       forced := wire.forced
                       location := wire.location }]) rest

/-! ## Renditions -/

def maxRenditionIdBytes : ℕ := 32

/-- A rendition id as it appears in a URL path segment. -/
def isRenditionId (id : Text) : Bool :=
  id ≠ [] && decide (utf8Length id ≤ maxRenditionIdBytes) &&
    id.all fun c => c.isAlphanum || c == '-'

/-- What a mapper says about the audio a rendition brings. -/
structure AudioOverrides where
  language : Option String
  label : Option String
  default : Bool
  deriving DecidableEq, Repr

def AudioOverrides.isEmpty (overrides : AudioOverrides) : Bool :=
  overrides.language.isNone && overrides.label.isNone && !overrides.default

/-- A rendition on the wire, as far as its texts go. -/
structure WireRendition where
  id : String
  language : Option String
  label : Option String
  default : Bool
  deriving DecidableEq, Repr

structure Rendition where
  id : String
  audio : Option AudioOverrides
  deriving DecidableEq, Repr

/-- A label written into XML, which cannot hold two characters more. -/
def audioLabelFits (label : Text) : Bool :=
  labelFits label &&
    !label.any fun c => c.toNat == 0xfffe || c.toNat == 0xffff

def interpretAudioOverrides (wire : WireRendition) :
    Except String (Option AudioOverrides) :=
  if wire.language.any fun language =>
      !(decide (utf8Length language.toList = 3) &&
        language.toList.all Char.isLower) then
    .error ("rendition `" ++ wire.id ++
      "`: language must be a three-letter ISO 639 code in lower case")
  else if wire.label.any fun label => !audioLabelFits label.toList then
    .error ("rendition `" ++ wire.id ++ "`: label is empty, overlong, " ++
      "or has a character a playlist or manifest cannot hold")
  else
    let overrides : AudioOverrides :=
      { language := wire.language
        label := wire.label
        default := wire.default }
    .ok (if overrides.isEmpty then none else some overrides)

def isDefault (rendition : Rendition) : Bool :=
  rendition.audio.any AudioOverrides.default

/-- The renditions from an entry on, after those in `known`. -/
def interpretRenditions : List Rendition → List WireRendition →
    Except String (List Rendition)
  | known, [] => .ok known
  | known, wire :: rest =>
      if !isRenditionId wire.id.toList then
        .error ("rendition id `" ++ escapeDefault wire.id ++
          "` must be 1 to 32 URL-safe characters (letters, digits, hyphens)")
      else if known.any fun rendition => rendition.id == wire.id then
        .error s!"rendition id `{wire.id}` is listed twice"
      else do
        let audio ← interpretAudioOverrides wire
        let rendition : Rendition := { id := wire.id, audio := audio }
        if isDefault rendition && known.any isDefault then
          .error "more than one rendition is marked default"
        else interpretRenditions (known ++ [rendition]) rest

/-! ## Answers -/

/-- An answer on the wire: the texts that reach playlists and manifests, and
the encryption of the clips. -/
structure WireAnswer (Location : Type) where
  version : String
  renditions : List WireRendition
  clips : List (Option WireEncryption)
  subtitles : List (WireSubtitle Location)
  encryption : Option WireEncryption
  hlsAes128 : Option WireAes128

/-- An answer whose texts were checked. -/
structure Answer (Location : Type) where
  version : String
  renditions : List Rendition
  clips : List (Option Encryption)
  subtitles : List (SubtitleLocation Location)
  encryption : Option Encryption
  hlsAes128 : Option Aes128

def maxVersionBytes : ℕ := 256

def interpretEncryption (parseUrl : String → Option ParsedUrl)
    (wire : Option WireEncryption) : Except String (Option Encryption) :=
  wire.mapM (WireEncryption.validate parseUrl)

/-- A clip's own encryption: a single key set, never a timeline. -/
def interpretClipEncryption (parseUrl : String → Option ParsedUrl)
    (wire : Option WireEncryption) : Except String (Option Encryption) := do
  let encryption ← interpretEncryption parseUrl wire
  if encryption.any Encryption.isRotating then
    .error "a clip's encryption cannot have periods"
  else .ok encryption

def interpret (parseUrl : String → Option ParsedUrl)
    (wire : WireAnswer Location) : Except String (Answer Location) := do
  if wire.version.toList = [] ∨
      maxVersionBytes < utf8Length wire.version.toList ∨
      (wire.version.toList.all fun c =>
        decide (0x21 ≤ c.toNat ∧ c.toNat ≤ 0x7e)) = false then
    .error "mapper version must be 1 to 256 visible ASCII characters"
  else
    let renditions ← interpretRenditions [] wire.renditions
    let clips ← wire.clips.mapM (interpretClipEncryption parseUrl)
    if clips ≠ [] ∧ wire.subtitles.isEmpty = false then
      .error "subtitles cannot be combined with clips"
    else
      let subtitles ← interpretSubtitles [] wire.subtitles
      let encryption ← interpretEncryption parseUrl wire.encryption
      if encryption.any Encryption.isRotating ∧ clips ≠ [] then
        .error "encryption periods cannot be combined with clips"
      else
        let hlsAes128 ← wire.hlsAes128.mapM WireAes128.validate
        if hlsAes128.isSome ∧ encryption.isSome then
          .error "hls_aes128 and encryption cannot both be set"
        else if hlsAes128.isSome ∧ clips.any Option.isSome then
          .error "hls_aes128 and a clip's encryption cannot both be set"
        else
          .ok
            { version := wire.version
              renditions := renditions
              clips := clips
              subtitles := subtitles
              encryption := encryption
              hlsAes128 := hlsAes128 }

end Mapper

end Segmentor
