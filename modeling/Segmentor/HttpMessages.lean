import Segmentor.StreamJob
import Segmentor.SubtitleText

/-!
# Requests, responses and validators

Requests as the handlers read them and responses as they build them; entity
tags, `If-None-Match` and byte ranges.  A handler that makes an entity tag of
a name no header value can hold ends in a panic instead of a response.
-/

namespace Segmentor

open General

/-! ## Headers -/

inductive HeaderName
  | ifNoneMatch
  | acceptEncoding
  | range
  | ifRange
  | authorization
  | cookie
  | other (name : String)
  deriving DecidableEq, Repr

/-- The length of the name in bytes. -/
def HeaderName.length : HeaderName → ℕ
  | .ifNoneMatch => 13
  | .acceptEncoding => 15
  | .range => 5
  | .ifRange => 8
  | .authorization => 13
  | .cookie => 6
  | .other name => name.utf8ByteSize

/-- A header's value, its octets as characters. -/
abbrev HeaderValue := Text

def isVisibleAscii (c : Char) : Bool :=
  32 ≤ c.toNat && c.toNat < 127

/-- The characters of a header value that is read as a string. -/
def isHeaderText (c : Char) : Bool :=
  isVisibleAscii c || c == '\t'

/-- An octet a header value may hold: of the control octets the tab only. -/
def isHeaderOctet (octet : UInt8) : Bool :=
  (32 ≤ octet.toNat && octet.toNat != 127) || octet.toNat == 9

/-- `HeaderValue::from_str`, which takes the octets of the text as they are. -/
def headerFromStr (text : Text) : Option HeaderValue :=
  let octets := text.flatMap String.utf8EncodeChar
  if octets.all isHeaderOctet then
    some (octets.map fun octet => Char.ofNat octet.toNat)
  else none

/-- `HeaderValue::to_str`. -/
def headerToStr (value : HeaderValue) : Option Text :=
  if value.all isHeaderText then some value else none

/-- A character whose octets a header value may hold. -/
def isHeaderChar (c : Char) : Bool :=
  (32 ≤ c.toNat && c.toNat != 127) || c.toNat == 9

theorem all_isHeaderOctet (c : Char) :
    (String.utf8EncodeChar c).all isHeaderOctet = isHeaderChar c := by
  have hval : c.val.toNat = c.toNat := rfl
  unfold String.utf8EncodeChar isHeaderOctet isHeaderChar
  dsimp only
  rw [hval, Bool.eq_iff_iff]
  split_ifs
  all_goals
    simp only [List.all_cons, List.all_nil, UInt8.toNat_ofNat',
      Bool.and_eq_true, Bool.or_eq_true, decide_eq_true_eq, bne_iff_ne,
      beq_iff_eq, and_true]
    omega

theorem all_flatMap_isHeaderOctet (text : Text) :
    (text.flatMap String.utf8EncodeChar).all isHeaderOctet =
      text.all isHeaderChar := by
  rw [List.all_flatMap]
  simp only [all_isHeaderOctet]

theorem isSome_headerFromStr (text : Text) :
    (headerFromStr text).isSome = text.all isHeaderChar := by
  unfold headerFromStr
  dsimp only
  rw [all_flatMap_isHeaderOctet]
  cases text.all isHeaderChar <;> rfl

theorem lt_of_isHeaderText {c : Char} (h : isHeaderText c = true) :
    c.toNat < 127 := by
  simp only [isHeaderText, isVisibleAscii, Bool.or_eq_true, Bool.and_eq_true,
    decide_eq_true_eq, beq_iff_eq] at h
  rcases h with hvisible | rfl
  · exact hvisible.2
  · decide

theorem isHeaderChar_of_text {c : Char} (h : isHeaderText c = true) :
    isHeaderChar c = true := by
  simp only [isHeaderText, isVisibleAscii, Bool.or_eq_true, Bool.and_eq_true,
    decide_eq_true_eq, beq_iff_eq] at h
  simp only [isHeaderChar, Bool.or_eq_true, Bool.and_eq_true,
    decide_eq_true_eq, bne_iff_ne, beq_iff_eq]
  rcases h with hvisible | rfl
  · omega
  · decide

/-- A text that can be read as a string is a value as it stands. -/
theorem headerFromStr_of_text {text : Text} (h : text.all isHeaderText = true) :
    headerFromStr text = some text := by
  rw [List.all_eq_true] at h
  have hsame : ∀ c ∈ text, (String.utf8EncodeChar c).map
      (fun octet => Char.ofNat octet.toNat) = [c] := by
    intro c hc
    have hlt := lt_of_isHeaderText (h c hc)
    have hval : c.val.toNat = c.toNat := rfl
    unfold String.utf8EncodeChar
    dsimp only
    rw [hval, if_pos (by omega), List.map_singleton, UInt8.toNat_ofNat',
      Nat.mod_eq_of_lt (by omega), Char.ofNat_toNat]
  have hall : text.all isHeaderChar = true :=
    List.all_eq_true.mpr fun c hc => isHeaderChar_of_text (h c hc)
  unfold headerFromStr
  dsimp only
  rw [all_flatMap_isHeaderOctet, if_pos hall, List.map_flatMap,
    List.flatMap_congr hsame]
  simp

abbrev Headers := List (HeaderName × HeaderValue)

def getAll (headers : Headers) (name : HeaderName) : List HeaderValue :=
  (headers.filter fun header => header.1 == name).map Prod.snd

def getFirst (headers : Headers) (name : HeaderName) : Option HeaderValue :=
  (getAll headers name).head?

structure HttpRequest where
  /-- Whether only the headers of the answer are asked for. -/
  head : Bool
  /-- As it stands in the request, before anything is decoded. -/
  path : Text
  query : Option Text
  headers : Headers
  deriving DecidableEq, Repr

def headerBytes (headers : Headers) : ℕ :=
  (headers.map fun header => header.1.length + header.2.length).sum

/-! ## Content codings -/

/-- A content coding a client can be sent, best first. -/
inductive Encoding
  | brotli
  | gzip
  | identity
  deriving DecidableEq, Repr

/-- The `Content-Encoding` value. -/
def Encoding.header : Encoding → Option Text
  | .brotli => some "br".toList
  | .gzip => some "gzip".toList
  | .identity => none

def eqIgnoreAsciiCase (a b : Text) : Bool :=
  a.map Char.toLower == b.map Char.toLower

/-- What the codings of an `Accept-Encoding` list say so far. -/
structure Accepted where
  wildcard : Option Bool
  brotli : Option Bool
  gzip : Option Bool

/-- One listed coding; `positive` tells whether a quality reads as a number
above zero. -/
def Accepted.add (positive : Text → Bool) (accepted : Accepted) (item : Text) :
    Accepted :=
  let parts := item.splitOn ';'
  let coding := trim (parts.headD [])
  let qualities := parts.tail.filterMap fun parameter =>
    (splitAtFirst (· == '=') parameter).bind fun (name, value) =>
      if eqIgnoreAsciiCase (trim name) ['q'] then some (trim value) else none
  let acceptable := qualities.getLast?.all positive
  if eqIgnoreAsciiCase coding "br".toList then
    { accepted with brotli := some acceptable }
  else if eqIgnoreAsciiCase coding "gzip".toList ||
      eqIgnoreAsciiCase coding "x-gzip".toList then
    { accepted with gzip := some acceptable }
  else if coding == ['*'] then
    { accepted with wildcard := some acceptable }
  else accepted

/-- The best coding the `Accept-Encoding` values allow. -/
def negotiate (positive : Text → Bool) (values : List Text) : Encoding :=
  let accepted := (values.flatMap fun value => value.splitOn ',').foldl
    (Accepted.add positive) ⟨none, none, none⟩
  let wildcard := accepted.wildcard.getD false
  if accepted.brotli.getD wildcard then .brotli
  else if accepted.gzip.getD wildcard then .gzip
  else .identity

/-! ## Responses -/

/-- The errors a handler answers with. -/
inductive ErrorStatus
  | notFound
  | internal
  | badGateway
  | unavailable
  deriving DecidableEq, Repr

def ErrorStatus.code : ErrorStatus → ℕ
  | .notFound => 404
  | .internal => 500
  | .badGateway => 502
  | .unavailable => 503

structure HttpError where
  status : ErrorStatus
  message : String
  deriving DecidableEq, Repr

/-- The text of an error as it is logged. -/
def Error.text : Error → String
  | .invalidRange offset length sourceLen =>
      s!"invalid byte range: offset {offset}, length {length}, source length {sourceLen}"
  | .invalidMedia message => "invalid media data: " ++ message
  | .configuration message => "configuration error: " ++ message
  | .unsupported message => "unsupported media: " ++ message
  | .notFound message => "not found: " ++ message
  | .upstream message => "upstream error: " ++ message
  | .locationRejected message =>
      "location rejected by the media origin: " ++ message
  | .upstreamUnavailable message => "upstream unavailable: " ++ message

def HttpError.ofError : Error → HttpError
  | .notFound message => ⟨.notFound, message⟩
  | .upstream message => ⟨.badGateway, message⟩
  | .locationRejected message => ⟨.badGateway, message⟩
  | .upstreamUnavailable message => ⟨.unavailable, message⟩
  | error => ⟨.internal, error.text⟩

/-- What a response carries.  A segment is streamed from its source. -/
inductive Body (Source : Type)
  | empty
  | message (text : String)
  | bytes (data : List UInt8)
  | manifest (text : Text) (encoding : Encoding)
  | stream (source : Source) (segment : PreparedSegment)
      (interval : ByteInterval)
  deriving DecidableEq

structure Response (Source : Type) where
  status : ℕ
  headers : List (String × Text)
  body : Body Source
  deriving DecidableEq

variable {Source : Type}

/-- What a caller sees of an error. -/
def HttpError.response (error : HttpError) : Response Source where
  status := error.status.code
  headers :=
    ("cache-control", "no-store".toList) ::
      if error.status = .unavailable then [("retry-after", ['1'])] else []
  body := .message <|
    match error.status with
    | .notFound => error.message
    | .internal => "internal server error"
    | .badGateway => "bad gateway"
    | .unavailable => "service unavailable"

/-! ## Handlers -/

/-- Why a handler ends without a response of its own. -/
inductive Failure
  | refused (error : HttpError)
  | panicked
  deriving DecidableEq, Repr

/-- A handler's run: the names it made entity tags of, and how it ended. -/
structure Handler (α : Type) where
  names : List Text
  outcome : Except Failure α

namespace Handler

variable {α β : Type}

def bind (run : Handler α) (next : α → Handler β) : Handler β :=
  match run.outcome with
  | .ok a => ⟨run.names ++ (next a).names, (next a).outcome⟩
  | .error failure => ⟨run.names, .error failure⟩

instance : Monad Handler where
  pure a := ⟨[], .ok a⟩
  bind := bind

def refuse (error : HttpError) : Handler α :=
  ⟨[], .error (.refused error)⟩

def ofHttp : Except HttpError α → Handler α
  | .ok a => pure a
  | .error error => refuse error

def ofResult : Result α → Handler α
  | .ok a => pure a
  | .error error => refuse (.ofError error)

/-- A refusal is answered with its error. -/
def respond (run : Handler (Response Source)) : Handler (Response Source) :=
  match run.outcome with
  | .error (.refused error) => ⟨run.names, .ok error.response⟩
  | _ => run

@[simp] theorem pure_names (a : α) : (pure a : Handler α).names = [] := rfl

@[simp] theorem pure_outcome (a : α) :
    (pure a : Handler α).outcome = .ok a := rfl

theorem bind_eq (run : Handler α) (next : α → Handler β) :
    run >>= next = run.bind next := rfl

@[simp] theorem pure_bind (a : α) (next : α → Handler β) :
    pure a >>= next = next a := rfl

@[simp] theorem refuse_bind (error : HttpError) (next : α → Handler β) :
    refuse error >>= next = refuse error := rfl

@[simp] theorem refuse_names (error : HttpError) :
    (refuse error : Handler α).names = [] := rfl

@[simp] theorem refuse_outcome (error : HttpError) :
    (refuse error : Handler α).outcome = .error (.refused error) := rfl

@[simp] theorem ofHttp_ok (a : α) : ofHttp (.ok a) = pure a := rfl

@[simp] theorem ofHttp_error (error : HttpError) :
    ofHttp (.error error : Except HttpError α) = refuse error := rfl

@[simp] theorem ofResult_ok (a : α) : ofResult (.ok a) = pure a := rfl

@[simp] theorem ofResult_error (error : Error) :
    ofResult (.error error : Result α) = refuse (.ofError error) := rfl

end Handler

/-! ## Validators -/

/-- The entity tag of a resource of an asset version. -/
def entityTag (version resource : Text) : Handler HeaderValue where
  names := [resource]
  outcome :=
    match headerFromStr ('"' :: (version ++ '-' :: resource ++ ['"'])) with
    | some value => .ok value
    | none => .error .panicked

/-- Whether a listed tag matches, weakly, or is a star. -/
def notModified (headers : Headers) (etag : HeaderValue) : Bool :=
  (headerToStr etag).any fun current =>
    (((getAll headers .ifNoneMatch).filterMap headerToStr).flatMap
        fun value => value.splitOn ',').any fun candidate =>
      let candidate := trim candidate
      candidate == ['*'] ||
        (if ['W', '/'].isPrefixOf candidate then candidate.drop 2
          else candidate) == current

def notModifiedResponse (etag : HeaderValue) (cacheControl : String) :
    Response Source where
  status := 304
  headers := [("etag", etag), ("cache-control", cacheControl.toList)]
  body := .empty

/-! ## Ranges -/

/-- An unsigned number as Rust's `parse` reads it. -/
def parseUnsigned (bound : ℕ) (text : Text) : Option ℕ :=
  let digits := if text.head? = some '+' then text.tail else text
  if digits ≠ [] ∧ digits.all Char.isDigit ∧ Nat.ofDigitChars 10 digits 0 < bound then
    some (Nat.ofDigitChars 10 digits 0)
  else none

/-- The interval a `bytes=` range names in `total` bytes. -/
def rangeInterval (value : Text) (total : ℕ) : Option ByteInterval := do
  let range ←
    if "bytes=".toList.isPrefixOf value then some (value.drop 6) else none
  if range.contains ',' then none
  else do
    let (start, stop) ← splitAtFirst (· == '-') range
    let (start, stop) ←
      if start = [] then do
        let suffix ← parseUnsigned (2 ^ 64) stop
        if suffix = 0 ∨ total = 0 then none else some (total - suffix, total)
      else do
        let start ← parseUnsigned (2 ^ 64) start
        let stop ←
          if stop = [] then some total
          else do
            let last ← parseUnsigned (2 ^ 64) stop
            let next ← checkedAdd (2 ^ 64) last 1
            some (min next total)
        some (start, stop)
    if stop ≤ start ∨ total ≤ start then none
    else some { start := start, stop := stop }

/-- The range a request asks for: none, one, or one that cannot be served.
A range conditional on another tag is left out. -/
def requestedRange (headers : Headers) (total : ℕ) (etag : HeaderValue) :
    Except Unit (Option ByteInterval) :=
  match getFirst headers .range with
  | none => .ok none
  | some value =>
      if (getFirst headers .ifRange).any fun condition => condition != etag then
        .ok none
      else
        match (headerToStr value).bind fun text => rangeInterval text total with
        | some interval => .ok (some interval)
        | none => .error ()

def rangeNotSatisfiable (total : ℕ) : Response Source where
  status := 416
  headers := [("content-range", "bytes */".toList ++ decimal total),
    ("accept-ranges", "bytes".toList)]
  body := .empty

end Segmentor
