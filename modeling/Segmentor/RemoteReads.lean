import Segmentor.Authorization
import Segmentor.Boxes
import Segmentor.ByteRanges

/-!
# Reads of a remote object

A range of a remote object is fetched until an answer serves it.  A fetch goes
again when the origin is unavailable, for as often as the settings allow, and
once when the location is rejected and a fresh one is found.  Whatever the
origin answers, the number of fetches is bounded, and the bytes that are
returned are those of one answer which names the range and the object.
-/

namespace Segmentor

open General

/-! ## What the origin answers -/

/-- A failure below HTTP, as the client reports it. -/
structure TransportError where
  /-- The texts of what caused it, from the outside in. -/
  causes : List Text
  /-- It is a timeout, or a failure to connect, to send or to receive. -/
  outage : Bool
  text : String
  deriving DecidableEq, Repr

/-- What a read is conditional on. -/
inductive Validator
  | etag (value : Text)
  | lastModified (value : Text)
  deriving DecidableEq, Repr

def Validator.value : Validator → Text
  | .etag value => value
  | .lastModified value => value

structure RangeRequest where
  range : Text
  ifRange : Text
  deriving DecidableEq, Repr

structure RangeResponse where
  status : ℕ
  headers : Headers
  /-- The body as it arrives, and what breaks it off. -/
  chunks : List (List UInt8)
  failure : Option TransportError
  deriving DecidableEq, Repr

inductive OriginAnswer
  | failed (error : TransportError)
  | response (response : RangeResponse)
  deriving DecidableEq, Repr

/-! ## One fetch -/

/-- An object opened for ranged reads. -/
structure HttpMediaSource where
  validator : Validator
  length : ℕ
  maxRetries : ℕ
  /-- Whether a rejected location can be asked for again. -/
  refreshable : Bool
  deriving DecidableEq, Repr

def HttpMediaSource.request (source : HttpMediaSource) (first last : ℕ) :
    RangeRequest where
  range := "bytes=".toList ++ decimal first ++ '-' :: decimal last
  ifRange := source.validator.value

def changed : Error :=
  .invalidMedia "remote source changed while it was being read"

/-- The address filter reports a violation as a failure to connect, which it
would be again. -/
def mapTransport (error : TransportError) : Error :=
  if error.causes.any fun cause =>
      (splitOnce "addresses that are not permitted".toList cause).isSome then
    .upstream "location resolves to an address that is not permitted"
  else if error.outage then .upstreamUnavailable error.text
  else .upstream error.text

/-- The span and the total a `Content-Range` names, if it is the one that was
asked for. -/
def contentRange (headers : Headers) (first last : ℕ) : Result ℕ := do
  let value ← okOr ((getFirst headers (.other "content-range")).bind headerToStr)
    (.upstream "media origin sent no Content-Range")
  let bad : Error := .upstream "media origin sent an unexpected Content-Range"
  let rest ← okOr (stripPrefix "bytes ".toList value) bad
  let (span, total) ← okOr (splitAtFirst (· == '/') rest) bad
  let (start, stop) ← okOr (splitAtFirst (· == '-') span) bad
  let total ← okOr (parseUnsigned (2 ^ 64) total) bad
  if parseUnsigned (2 ^ 64) start = some first ∧
      parseUnsigned (2 ^ 64) stop = some last ∧ last < total then
    .ok total
  else .error bad

section Fetch

variable (statusText : ℕ → String)

def statusError (status : ℕ) (action : String) : Error :=
  if (500 ≤ status ∧ status < 600) ∨ status = 429 then
    .upstreamUnavailable (statusText status ++ " while " ++ action)
  else .upstream (statusText status ++ " while " ++ action)

def checkStatus (status : ℕ) : Result Unit :=
  if status = 206 then .ok ()
  -- A full response means that the validator no longer matches.
  else if status = 200 ∨ status = 412 then .error changed
  else if status = 401 ∨ status = 403 ∨ status = 410 then
    .error (.locationRejected
      (statusText status ++ " while reading from the media origin"))
  else .error (statusError statusText status "reading from the media origin")

def HttpMediaSource.checkTag (source : HttpMediaSource) (headers : Headers) :
    Result Unit :=
  match source.validator with
  | .lastModified _ => .ok ()
  | .etag expected =>
      if (getFirst headers (.other "etag")).bind headerToStr = some expected then
        .ok ()
      else .error changed

/-- The body behind what has arrived of it. -/
def collect (expected : ℕ) (failure : Option TransportError) :
    List UInt8 → List (List UInt8) → Result (List UInt8)
  | body, [] =>
      match failure with
      | some error => .error (mapTransport error)
      | none =>
          if body.length = expected then .ok body
          else .error
            (.upstreamUnavailable "media origin returned a short body")
  | body, chunk :: chunks =>
      if expected < body.length + chunk.length then
        .error (.upstream "media origin returned more bytes than requested")
      else collect expected failure (body ++ chunk) chunks

def HttpMediaSource.fetch (source : HttpMediaSource) (first last : ℕ) :
    OriginAnswer → Result (List UInt8)
  | .failed error => .error (mapTransport error)
  | .response response => do
      checkStatus statusText response.status
      source.checkTag response.headers
      let total ← contentRange response.headers first last
      if total ≠ source.length then
        .error (.invalidMedia
          "remote source changed length while it was being read")
      else collect (last - first + 1) response.failure [] response.chunks

/-! ## The loop -/

inductive ReadEvent
  | fetch (answer : OriginAnswer)
  | refresh (found : Result Unit)

/-- What a read comes to, and what it did on the way. -/
structure ReadRun where
  result : Result (List UInt8)
  log : List ReadEvent

def ReadRun.prepend (events : List ReadEvent) (run : ReadRun) : ReadRun where
  result := run.result
  log := events ++ run.log

def shouldRetry : Error → Bool
  | .upstreamUnavailable _ => true
  | _ => false

/-- The loop, for `fuel` fetches at most.  Answers and refreshed locations
come in the order in which they are asked for. -/
def HttpMediaSource.readLoop (source : HttpMediaSource) (first last : ℕ) :
    (fuel attempt : ℕ) → (refreshed : Bool) →
    (answers : ℕ → RangeRequest → OriginAnswer) → (locations : ℕ → Result Unit) →
    Option ReadRun
  | 0, _, _, _, _ => none
  | fuel + 1, attempt, refreshed, answers, locations =>
      let answer := answers 0 (source.request first last)
      match source.fetch statusText first last answer with
      | .error (.locationRejected message) =>
          if source.refreshable = false ∨ refreshed = true then
            some ⟨.error (.locationRejected message), [.fetch answer]⟩
          else
            match locations 0 with
            | .error error =>
                some ⟨.error error, [.fetch answer, .refresh (.error error)]⟩
            | .ok () =>
                (source.readLoop first last fuel attempt true
                  (fun n => answers (n + 1)) (fun n => locations (n + 1))).map
                  (.prepend [.fetch answer, .refresh (.ok ())])
      | .error error =>
          if shouldRetry error = true ∧ attempt < source.maxRetries then
            (source.readLoop first last fuel (attempt + 1) refreshed
              (fun n => answers (n + 1)) locations).map
              (.prepend [.fetch answer])
          else some ⟨.error error, [.fetch answer]⟩
      | .ok body => some ⟨.ok body, [.fetch answer]⟩

/-- Reads exactly `range`.  The reader's permits may have been closed. -/
def HttpMediaSource.readRange (source : HttpMediaSource) (closed : Bool)
    (range : ByteRange) (answers : ℕ → RangeRequest → OriginAnswer)
    (locations : ℕ → Result Unit) (fuel : ℕ) : Option ReadRun :=
  match range.stop.filter (· ≤ source.length) with
  | none => some
      ⟨.error (.invalidRange range.offset range.length source.length), []⟩
  | some stop =>
      if range.length = 0 then some ⟨.ok [], []⟩
      else if closed then
        some ⟨.error (.upstreamUnavailable "remote reads are shut down"), []⟩
      else source.readLoop statusText range.offset (stop - 1) fuel 0 false
        answers locations

end Fetch

/-! ## What an answer says -/

/-- A `Content-Range` that names the span and the total. -/
def NamesSpan (headers : Headers) (first last total : ℕ) : Prop :=
  ∃ start stop size s t u,
    (getFirst headers (.other "content-range")).bind headerToStr =
      some ("bytes ".toList ++ (start ++ '-' :: stop ++ '/' :: size)) ∧
    Position s start first ∧ Position t stop last ∧ Position u size total ∧
    last < total ∧ total < 2 ^ 64

theorem contentRange_eq_ok_iff {headers : Headers} {first last total : ℕ}
    (hspan : first ≤ last) :
    contentRange headers first last = .ok total ↔
      NamesSpan headers first last total := by
  unfold contentRange NamesSpan
  constructor
  · intro h
    obtain ⟨value, hvalue, h⟩ := bind_eq_ok_iff.mp h
    obtain ⟨rest, hrest, h⟩ := bind_eq_ok_iff.mp h
    obtain ⟨⟨span, size⟩, hsize, h⟩ := bind_eq_ok_iff.mp h
    obtain ⟨⟨start, stop⟩, hstart, h⟩ := bind_eq_ok_iff.mp h
    obtain ⟨found, hfound, h⟩ := bind_eq_ok_iff.mp h
    rw [okOr_eq_ok_iff] at hvalue hrest hsize hstart hfound
    split at h
    swap
    · cases h
    next hmatches =>
    obtain rfl := Except.ok.inj h
    obtain ⟨hfirst, hlast, hlt⟩ := hmatches
    obtain ⟨⟨s, hs⟩, -⟩ := parseUnsigned_eq_some_iff.mp hfirst
    obtain ⟨⟨t, ht⟩, -⟩ := parseUnsigned_eq_some_iff.mp hlast
    obtain ⟨⟨u, hu⟩, hbound⟩ := parseUnsigned_eq_some_iff.mp hfound
    refine ⟨start, stop, size, s, t, u, ?_, hs, ht, hu, hlt, hbound⟩
    obtain ⟨-, slash, hslash, rfl⟩ := splitAtFirst_eq_some_iff.mp hsize
    obtain ⟨-, hyphen, hhyphen, rfl⟩ := splitAtFirst_eq_some_iff.mp hstart
    obtain rfl := beq_iff_eq.mp hslash
    obtain rfl := beq_iff_eq.mp hhyphen
    rw [hvalue]
    unfold stripPrefix at hrest
    rw [Option.ite_none_right_eq_some] at hrest
    obtain ⟨hfront, hdrop⟩ := hrest
    obtain ⟨tail, rfl⟩ := List.isPrefixOf_iff_prefix.mp hfront
    obtain rfl := (Option.some.inj hdrop).symm
    simp
  · rintro ⟨start, stop, size, s, t, u, hvalue, hs, ht, hu, hlt, hbound⟩
    have hslash : ∀ c ∈ start ++ '-' :: stop, (c == '/') = false := by
      intro c hc
      rw [beq_eq_false_iff_ne]
      rintro rfl
      simp only [List.mem_append, List.mem_cons] at hc
      rcases hc with hc | hc | hc
      · exact hs.free rfl (by decide) hc
      · cases hc
      · exact ht.free rfl (by decide) hc
    have hhyphen : ∀ c ∈ start, (c == '-') = false := by
      intro c hc
      rw [beq_eq_false_iff_ne]
      rintro rfl
      exact hs.no_hyphen hc
    have hstrip : stripPrefix "bytes ".toList
        ("bytes ".toList ++ (start ++ '-' :: stop ++ '/' :: size)) =
          some (start ++ '-' :: stop ++ '/' :: size) := by
      unfold stripPrefix
      rw [if_pos (List.isPrefixOf_iff_prefix.mpr (List.prefix_append _ _)),
        List.drop_left]
    have hparse : ∀ {s : Bool} {text : Text} {n : ℕ}, Position s text n →
        n < 2 ^ 64 → parseUnsigned (2 ^ 64) text = some n := by
      intro s text n hposition hn
      exact parseUnsigned_eq_some_iff.mpr ⟨⟨s, hposition⟩, hn⟩
    rw [hvalue, okOr_some, ok_bind, hstrip]
    dsimp only
    rw [okOr_some, ok_bind, splitAtFirst_append hslash (by rfl), okOr_some,
      ok_bind]
    dsimp only
    rw [splitAtFirst_append hhyphen (by rfl), okOr_some, ok_bind]
    dsimp only
    rw [hparse hu hbound, okOr_some, ok_bind, hparse hs (by omega),
      hparse ht (by omega), if_pos ⟨rfl, rfl, hlt⟩]

/-- An answer that serves a range of the opened object, and its bytes. -/
structure Serves (source : HttpMediaSource) (range : ByteRange)
    (response : RangeResponse) (body : List UInt8) : Prop where
  status : response.status = 206
  span : NamesSpan response.headers range.offset
    (range.offset + range.length - 1) source.length
  tag : ∀ expected, source.validator = .etag expected →
    (getFirst response.headers (.other "etag")).bind headerToStr =
      some expected
  whole : response.failure = none
  bytes : response.chunks.flatten = body
  length : body.length = range.length

theorem collect_eq_ok {expected : ℕ} {failure : Option TransportError}
    {chunks : List (List UInt8)} {before body : List UInt8}
    (h : collect expected failure before chunks = .ok body) :
    failure = none ∧ before ++ chunks.flatten = body ∧
      body.length = expected := by
  induction chunks generalizing before with
  | nil =>
      unfold collect at h
      split at h
      · cases h
      split at h
      · next hlength =>
          obtain rfl := Except.ok.inj h
          exact ⟨rfl, by simp, hlength⟩
      · cases h
  | cons chunk chunks ih =>
      unfold collect at h
      split at h
      · cases h
      · obtain ⟨hfailure, hbody, hlength⟩ := ih h
        refine ⟨hfailure, ?_, hlength⟩
        rw [List.flatten_cons, ← List.append_assoc]
        exact hbody

section Answers

variable {statusText : ℕ → String} {source : HttpMediaSource}

theorem checkStatus_eq_ok {status : ℕ} {u : Unit}
    (h : checkStatus statusText status = .ok u) : status = 206 := by
  unfold checkStatus at h
  split_ifs at h with hincomplete
  exact hincomplete

theorem checkTag_eq_ok {headers : Headers} {u : Unit}
    (h : source.checkTag headers = .ok u) :
    ∀ expected, source.validator = .etag expected →
      (getFirst headers (.other "etag")).bind headerToStr =
        some expected := by
  intro expected hexpected
  unfold HttpMediaSource.checkTag at h
  rw [hexpected] at h
  dsimp only at h
  split_ifs at h with htag
  exact htag

/-- A fetch comes to the bytes of an answer that serves what was asked. -/
theorem serves_of_fetch {range : ByteRange} (hpos : 0 < range.length)
    {answer : OriginAnswer} {body : List UInt8}
    (h : source.fetch statusText range.offset
      (range.offset + range.length - 1) answer = .ok body) :
    ∃ response, answer = .response response ∧
      Serves source range response body := by
  cases answer with
  | failed error => cases h
  | response response =>
      obtain ⟨u, hstatus, h⟩ := bind_eq_ok_iff.mp h
      obtain ⟨u, htag, h⟩ := bind_eq_ok_iff.mp h
      obtain ⟨total, htotal, h⟩ := bind_eq_ok_iff.mp h
      split at h
      · cases h
      next hlength =>
      obtain rfl := not_not.mp hlength
      obtain ⟨hfailure, hbody, hcount⟩ := collect_eq_ok h
      refine ⟨response, rfl, checkStatus_eq_ok hstatus, ?_, checkTag_eq_ok htag,
        hfailure, by simpa using hbody, by omega⟩
      exact (contentRange_eq_ok_iff (by omega)).mp htotal

/-- An error that ends the read at once. -/
def Fatal : Error → Prop
  | .locationRejected _ => False
  | error => shouldRetry error = false

/-- The object is another than the one that was opened. -/
def Changed (source : HttpMediaSource) (first last : ℕ)
    (response : RangeResponse) : Prop :=
  response.status = 200 ∨ response.status = 412 ∨
    response.status = 206 ∧
      ((∃ expected, source.validator = .etag expected ∧
          (getFirst response.headers (.other "etag")).bind headerToStr ≠
            some expected) ∨
        ∃ total, NamesSpan response.headers first last total ∧
          total ≠ source.length)

/-- More bytes than were asked for. -/
def Overlong (first last : ℕ) (response : RangeResponse) : Prop :=
  response.status = 206 ∧
    last - first + 1 < response.chunks.flatten.length

theorem collect_of_overlong {expected : ℕ} {failure : Option TransportError}
    {chunks : List (List UInt8)} {before : List UInt8}
    (hbefore : before.length ≤ expected)
    (h : expected < (before ++ chunks.flatten).length) :
    ∃ error, collect expected failure before chunks = .error error ∧
      Fatal error := by
  induction chunks generalizing before with
  | nil =>
      rw [List.flatten_nil, List.append_nil] at h
      omega
  | cons chunk chunks ih =>
      unfold collect
      split
      · exact ⟨_, rfl, rfl⟩
      · next hchunk =>
          apply ih
          · rw [List.length_append]
            omega
          · rwa [List.flatten_cons, ← List.append_assoc] at h

theorem fatal_of_contentRange {headers : Headers} {first last : ℕ}
    {error : Error} (h : contentRange headers first last = .error error) :
    Fatal error := by
  have hfatal : ∀ {α : Type} {o : Option α} {message : String},
      okOr o (Error.upstream message) = .error error → Fatal error := by
    intro α o message ho
    cases o with
    | none =>
        obtain rfl := Except.error.inj ho
        rfl
    | some a => cases ho
  unfold contentRange at h
  rcases bind_eq_error_iff.mp h with h | ⟨value, -, h⟩
  · exact hfatal h
  rcases bind_eq_error_iff.mp h with h | ⟨rest, -, h⟩
  · exact hfatal h
  rcases bind_eq_error_iff.mp h with h | ⟨⟨span, total⟩, -, h⟩
  · exact hfatal h
  rcases bind_eq_error_iff.mp h with h | ⟨⟨start, stop⟩, -, h⟩
  · exact hfatal h
  rcases bind_eq_error_iff.mp h with h | ⟨total, -, h⟩
  · exact hfatal h
  split at h
  · cases h
  · obtain rfl := Except.error.inj h
    rfl

/-- A partial answer ends the read, or its body is collected. -/
theorem fetch_of_206 {first last : ℕ} {response : RangeResponse}
    (hstatus : response.status = 206) :
    (∃ error, source.fetch statusText first last (.response response) =
        .error error ∧ Fatal error) ∨
      source.checkTag response.headers = .ok () ∧
        contentRange response.headers first last = .ok source.length ∧
        source.fetch statusText first last (.response response) =
          collect (last - first + 1) response.failure [] response.chunks := by
  have hincomplete : checkStatus statusText response.status = .ok () :=
    if_pos hstatus
  unfold HttpMediaSource.fetch
  dsimp only
  rw [hincomplete, ok_bind]
  cases htag : source.checkTag response.headers with
  | error error =>
      refine .inl ⟨error, rfl, ?_⟩
      unfold HttpMediaSource.checkTag at htag
      split at htag
      · cases htag
      split at htag
      · cases htag
      obtain rfl := Except.error.inj htag
      rfl
  | ok u =>
      rw [ok_bind]
      cases hrange : contentRange response.headers first last with
      | error error => exact .inl ⟨error, rfl, fatal_of_contentRange hrange⟩
      | ok total =>
          rw [ok_bind]
          split
          · exact .inl ⟨_, rfl, rfl⟩
          · next hlength =>
              obtain rfl := not_not.mp hlength
              exact .inr ⟨rfl, rfl, rfl⟩

theorem fatal_of_changed {first last : ℕ} (hspan : first ≤ last)
    {response : RangeResponse} (h : Changed source first last response) :
    ∃ error, source.fetch statusText first last (.response response) =
      .error error ∧ Fatal error := by
  have hfull : response.status = 200 ∨ response.status = 412 →
      ∃ error, source.fetch statusText first last (.response response) =
        .error error ∧ Fatal error := by
    intro hstatus
    have hrefused : checkStatus statusText response.status =
        .error changed := by
      unfold checkStatus
      rw [if_neg (by omega), if_pos hstatus]
    refine ⟨changed, ?_, rfl⟩
    unfold HttpMediaSource.fetch
    dsimp only
    rw [hrefused]
    rfl
  rcases h with hstatus | hstatus | ⟨hstatus, hother⟩
  · exact hfull (.inl hstatus)
  · exact hfull (.inr hstatus)
  · rcases @fetch_of_206 statusText source first last response hstatus with
      hfatal | ⟨htag, hrange, -⟩
    · exact hfatal
    · rcases hother with ⟨expected, hvalidator, hne⟩ | ⟨total, hnames, hne⟩
      · exact absurd (checkTag_eq_ok htag expected hvalidator) hne
      · have hsame := (contentRange_eq_ok_iff hspan).mpr hnames
        rw [hrange] at hsame
        exact absurd (Except.ok.inj hsame).symm hne

theorem fatal_of_overlong {first last : ℕ} {response : RangeResponse}
    (h : Overlong first last response) :
    ∃ error, source.fetch statusText first last (.response response) =
      .error error ∧ Fatal error := by
  obtain ⟨hstatus, hlong⟩ := h
  rcases @fetch_of_206 statusText source first last response hstatus with
    hfatal | ⟨-, -, hcollect⟩
  · exact hfatal
  · rw [hcollect]
    exact collect_of_overlong (Nat.zero_le _) (by simpa using hlong)

end Answers

/-! ## One round -/

def ReadEvent.answer? : ReadEvent → Option OriginAnswer
  | .fetch answer => some answer
  | .refresh _ => none

/-- The answers fetched, in order. -/
def fetched (log : List ReadEvent) : List OriginAnswer :=
  log.filterMap ReadEvent.answer?

def ReadEvent.isRefresh : ReadEvent → Bool
  | .fetch _ => false
  | .refresh _ => true

section Rounds

variable {statusText : ℕ → String} {source : HttpMediaSource}
  {first last : ℕ}

/-- What a round can do: end with what was fetched, end with a failure to
find another location, go on at another one, or try again. -/
inductive Round (statusText : ℕ → String) (source : HttpMediaSource)
    (first last fuel attempt : ℕ) (refreshed : Bool)
    (answers : ℕ → RangeRequest → OriginAnswer) (locations : ℕ → Result Unit)
    (run : ReadRun) : Prop
  | ended
      (hlog : run.log = [.fetch (answers 0 (source.request first last))])
      (hresult : run.result = source.fetch statusText first last
        (answers 0 (source.request first last)))
  | lost {message : String} {error : Error}
      (hfetch : source.fetch statusText first last
        (answers 0 (source.request first last)) =
          .error (.locationRejected message))
      (hfresh : refreshed = false)
      (hrun : run = ⟨.error error,
        [.fetch (answers 0 (source.request first last)),
          .refresh (.error error)]⟩)
  | moved {message : String} {rest : ReadRun}
      (hfetch : source.fetch statusText first last
        (answers 0 (source.request first last)) =
          .error (.locationRejected message))
      (hfresh : refreshed = false)
      (hrest : source.readLoop statusText first last fuel attempt true
        (fun n => answers (n + 1)) (fun n => locations (n + 1)) = some rest)
      (hrun : run = rest.prepend
        [.fetch (answers 0 (source.request first last)), .refresh (.ok ())])
  | retried {error : Error} {rest : ReadRun}
      (hfetch : source.fetch statusText first last
        (answers 0 (source.request first last)) = .error error)
      (htransient : shouldRetry error = true)
      (hattempt : attempt < source.maxRetries)
      (hrest : source.readLoop statusText first last fuel (attempt + 1)
        refreshed (fun n => answers (n + 1)) locations = some rest)
      (hrun : run = rest.prepend
        [.fetch (answers 0 (source.request first last))])

theorem round_of_readLoop {fuel attempt : ℕ} {refreshed : Bool}
    {answers : ℕ → RangeRequest → OriginAnswer} {locations : ℕ → Result Unit}
    {run : ReadRun}
    (h : source.readLoop statusText first last (fuel + 1) attempt refreshed
      answers locations = some run) :
    Round statusText source first last fuel attempt refreshed answers
      locations run := by
  unfold HttpMediaSource.readLoop at h
  dsimp only at h
  split at h
  · next message hfetch =>
      split at h
      · obtain rfl := Option.some.inj h
        exact .ended rfl hfetch.symm
      · next hfresh =>
          have hfresh : refreshed = false := by
            rw [not_or] at hfresh
            exact Bool.eq_false_iff.mpr hfresh.2
          split at h
          · next error hlocation =>
              obtain rfl := Option.some.inj h
              exact .lost hfetch hfresh rfl
          · obtain ⟨rest, hrest, rfl⟩ := Option.map_eq_some_iff.mp h
            exact .moved hfetch hfresh hrest rfl
  · next error hne hfetch =>
      split at h
      · next hretry =>
          obtain ⟨rest, hrest, rfl⟩ := Option.map_eq_some_iff.mp h
          exact .retried hfetch hretry.1 hretry.2 hrest rfl
      · obtain rfl := Option.some.inj h
        exact .ended rfl hfetch.symm
  · next body hfetch =>
      obtain rfl := Option.some.inj h
      exact .ended rfl hfetch.symm

/-! ## Whole reads -/

theorem exists_readLoop {fuel attempt : ℕ} {refreshed : Bool}
    {answers : ℕ → RangeRequest → OriginAnswer} {locations : ℕ → Result Unit}
    (hfuel : source.maxRetries - attempt + (if refreshed then 0 else 1) <
      fuel) :
    ∃ run, source.readLoop statusText first last fuel attempt refreshed
      answers locations = some run := by
  induction fuel generalizing attempt refreshed answers locations with
  | zero => omega
  | succ fuel ih =>
      unfold HttpMediaSource.readLoop
      dsimp only
      split
      · split
        · exact ⟨_, rfl⟩
        · next hfresh =>
            split
            · exact ⟨_, rfl⟩
            · rw [not_or] at hfresh
              rw [if_neg hfresh.2] at hfuel
              obtain ⟨rest, hrest⟩ := @ih attempt true
                (fun n => answers (n + 1)) (fun n => locations (n + 1))
                (by rw [if_pos rfl]; omega)
              rw [hrest]
              exact ⟨_, rfl⟩
      · split
        · next hretry =>
            obtain ⟨rest, hrest⟩ := @ih (attempt + 1) refreshed
              (fun n => answers (n + 1)) locations (by omega)
            rw [hrest]
            exact ⟨_, rfl⟩
        · exact ⟨_, rfl⟩
      · exact ⟨_, rfl⟩

/-- A read fetches no more often than its budget, and asks for another
location once. -/
theorem length_log_le {fuel attempt : ℕ} {refreshed : Bool}
    {answers : ℕ → RangeRequest → OriginAnswer} {locations : ℕ → Result Unit}
    {run : ReadRun}
    (h : source.readLoop statusText first last fuel attempt refreshed answers
      locations = some run) :
    (fetched run.log).length ≤
        source.maxRetries - attempt + (if refreshed then 0 else 1) + 1 ∧
      run.log.countP ReadEvent.isRefresh ≤ if refreshed then 0 else 1 := by
  induction fuel generalizing attempt refreshed answers locations run with
  | zero => cases h
  | succ fuel ih =>
      cases round_of_readLoop h with
      | ended hlog hresult =>
          rw [hlog]
          exact ⟨Nat.le_add_left 1 _, Nat.zero_le _⟩
      | lost hfetch hfresh hrun =>
          rw [hrun, hfresh]
          exact ⟨Nat.le_add_left 1 _, le_rfl⟩
      | @moved message rest hfetch hfresh hrest hrun =>
          obtain ⟨hfetches, hrefreshes⟩ := ih hrest
          rw [hrun, hfresh]
          rw [if_pos rfl] at hfetches hrefreshes
          constructor
          · change (fetched rest.log).length + 1 ≤ _
            simpa using hfetches
          · change (ReadEvent.fetch _ :: .refresh (.ok ()) :: rest.log).countP
              ReadEvent.isRefresh ≤ 1
            rw [List.countP_cons_of_neg (by simp [ReadEvent.isRefresh]),
              List.countP_cons_of_pos (by rfl)]
            omega
      | @retried error rest hfetch htransient hattempt hrest hrun =>
          obtain ⟨hfetches, hrefreshes⟩ := ih hrest
          rw [hrun]
          constructor
          · change (fetched rest.log).length + 1 ≤ _
            omega
          · exact hrefreshes

theorem exists_fetched_of_ok {fuel attempt : ℕ} {refreshed : Bool}
    {answers : ℕ → RangeRequest → OriginAnswer} {locations : ℕ → Result Unit}
    {run : ReadRun} {body : List UInt8}
    (h : source.readLoop statusText first last fuel attempt refreshed answers
      locations = some run) (hbody : run.result = .ok body) :
    ∃ answer ∈ fetched run.log,
      source.fetch statusText first last answer = .ok body := by
  induction fuel generalizing attempt refreshed answers locations run with
  | zero => cases h
  | succ fuel ih =>
      cases round_of_readLoop h with
      | ended hlog hresult =>
          rw [hlog]
          exact ⟨_, List.mem_singleton_self _, hresult.symm.trans hbody⟩
      | lost hfetch hfresh hrun =>
          rw [hrun] at hbody
          cases hbody
      | @moved message rest hfetch hfresh hrest hrun =>
          rw [hrun] at hbody ⊢
          obtain ⟨answer, hmem, hserved⟩ := ih hrest hbody
          exact ⟨answer, List.mem_cons_of_mem _ hmem, hserved⟩
      | @retried error rest hfetch htransient hattempt hrest hrun =>
          rw [hrun] at hbody ⊢
          obtain ⟨answer, hmem, hserved⟩ := ih hrest hbody
          exact ⟨answer, List.mem_cons_of_mem _ hmem, hserved⟩

/-- What may be followed by another fetch, before or after another location
was asked for. -/
def GoesOn (refreshed : Bool) : Error → Prop
  | .locationRejected _ => refreshed = false
  | error => shouldRetry error = true

theorem goesOn_of_shouldRetry {refreshed : Bool} {error : Error}
    (h : shouldRetry error = true) : GoesOn refreshed error := by
  cases error with
  | locationRejected message => cases h
  | _ => exact h

theorem Fatal.not_goesOn {refreshed : Bool} {error : Error}
    (h : Fatal error) : ¬ GoesOn refreshed error := by
  cases error with
  | locationRejected message => cases h
  | upstreamUnavailable message => cases h
  | _ => exact Bool.false_ne_true

/-- Where the read does not go on, the fetch is the last event and its error
the result. -/
theorem last_of_not_goesOn {fuel attempt : ℕ} {refreshed : Bool}
    {answers : ℕ → RangeRequest → OriginAnswer} {locations : ℕ → Result Unit}
    {run : ReadRun}
    (h : source.readLoop statusText first last fuel attempt refreshed answers
      locations = some run)
    {before after : List ReadEvent} {answer : OriginAnswer}
    (hlog : run.log = before ++ .fetch answer :: after) {error : Error}
    (hfetch : source.fetch statusText first last answer = .error error)
    (hstop : ¬ GoesOn (refreshed || before.any ReadEvent.isRefresh) error) :
    after = [] ∧ run.result = .error error := by
  induction fuel generalizing attempt refreshed answers locations run before
    with
  | zero => cases h
  | succ fuel ih =>
      cases round_of_readLoop h with
      | ended hone hresult =>
          rw [hone] at hlog
          cases before with
          | nil =>
              obtain ⟨hsame, rfl⟩ := List.cons.inj hlog
              obtain rfl := ReadEvent.fetch.inj hsame
              exact ⟨rfl, hresult.trans hfetch⟩
          | cons event before =>
              have hempty := (List.cons.inj hlog).2
              simp at hempty
      | lost hrejected hfresh hrun =>
          rw [hrun] at hlog
          cases before with
          | nil =>
              obtain rfl := ReadEvent.fetch.inj (List.cons.inj hlog).1
              obtain rfl := Except.error.inj (hfetch.symm.trans hrejected)
              exact absurd (by rw [hfresh]; rfl) hstop
          | cons event before =>
              have hrest := (List.cons.inj hlog).2
              cases before with
              | nil => cases (List.cons.inj hrest).1
              | cons event before =>
                  have hempty := (List.cons.inj hrest).2
                  simp at hempty
      | @moved message rest hrejected hfresh hrest hrun =>
          rw [hrun] at hlog ⊢
          cases before with
          | nil =>
              obtain rfl := ReadEvent.fetch.inj (List.cons.inj hlog).1
              obtain rfl := Except.error.inj (hfetch.symm.trans hrejected)
              exact absurd (by rw [hfresh]; rfl) hstop
          | cons event before =>
              have hlater := (List.cons.inj hlog).2
              cases before with
              | nil => cases (List.cons.inj hlater).1
              | cons other before =>
                  obtain ⟨rfl, hremaining⟩ := List.cons.inj hlater
                  apply ih hrest hremaining
                  simpa [ReadEvent.isRefresh] using hstop
      | @retried other rest hother htransient hattempt hrest hrun =>
          rw [hrun] at hlog ⊢
          cases before with
          | nil =>
              obtain rfl := ReadEvent.fetch.inj (List.cons.inj hlog).1
              obtain rfl := Except.error.inj (hfetch.symm.trans hother)
              exact absurd (goesOn_of_shouldRetry htransient) hstop
          | cons event before =>
              obtain ⟨rfl, hlater⟩ := List.cons.inj hlog
              apply ih hrest hlater
              simpa [ReadEvent.isRefresh] using hstop

end Rounds

/-- What holds of every read, whatever it is answered. -/
structure ReadRun.Sound (statusText : ℕ → String) (source : HttpMediaSource)
    (range : ByteRange) (run : ReadRun) : Prop where
  fetches : (fetched run.log).length ≤ source.maxRetries + 2
  refreshes : run.log.countP ReadEvent.isRefresh ≤ 1
  length : ∀ body, run.result = .ok body → body.length = range.length
  served : ∀ body, run.result = .ok body → body ≠ [] →
    ∃ response, .response response ∈ fetched run.log ∧
      Serves source range response body
  rejected : ∀ before after answer, run.log = before ++ .fetch answer :: after →
    before.any ReadEvent.isRefresh = true → ∀ message,
    source.fetch statusText range.offset (range.offset + range.length - 1)
      answer = .error (.locationRejected message) →
    after = [] ∧ run.result = .error (.locationRejected message)
  changed : ∀ before after response,
    run.log = before ++ .fetch (.response response) :: after →
    Changed source range.offset (range.offset + range.length - 1) response →
    after = [] ∧ ∃ error, run.result = .error error
  overlong : ∀ before after response,
    run.log = before ++ .fetch (.response response) :: after →
    Overlong range.offset (range.offset + range.length - 1) response →
    after = [] ∧ ∃ error, run.result = .error error

/-- A read without a fetch. -/
theorem sound_of_no_fetch {statusText : ℕ → String} {source : HttpMediaSource}
    {range : ByteRange} {result : Result (List UInt8)}
    (h : ∀ body, result = .ok body → body = [] ∧ range.length = 0) :
    ReadRun.Sound statusText source range ⟨result, []⟩ where
  fetches := Nat.zero_le _
  refreshes := Nat.zero_le _
  length := by
    intro body hbody
    obtain ⟨rfl, hlength⟩ := h body hbody
    exact hlength.symm
  served := fun body hbody hne => absurd (h body hbody).1 hne
  rejected := by simp
  changed := by simp
  overlong := by simp

/-- Every read ends, within its budget, and with the bytes of one answer that
serves it or without any. -/
theorem remote_reads_sound (statusText : ℕ → String)
    (source : HttpMediaSource) (closed : Bool) (range : ByteRange)
    (answers : ℕ → RangeRequest → OriginAnswer) (locations : ℕ → Result Unit)
    (extra : ℕ) :
    ∃ run, source.readRange statusText closed range answers locations
        (source.maxRetries + 2 + extra) = some run ∧
      run.Sound statusText source range := by
  unfold HttpMediaSource.readRange
  split
  · refine ⟨_, rfl, sound_of_no_fetch ?_⟩
    intro body hbody
    cases hbody
  · next stop hstop =>
      split
      · next hzero =>
          refine ⟨_, rfl, sound_of_no_fetch ?_⟩
          intro body hbody
          obtain rfl := Except.ok.inj hbody
          exact ⟨rfl, hzero⟩
      next hpos =>
      split
      · refine ⟨_, rfl, sound_of_no_fetch ?_⟩
        intro body hbody
        cases hbody
      · obtain ⟨hadd, -⟩ := Option.filter_eq_some_iff.mp hstop
        obtain ⟨-, rfl⟩ := checkedAdd_eq_some_iff.mp hadd
        obtain ⟨run, hrun⟩ := @exists_readLoop statusText source range.offset
          (range.offset + range.length - 1) (source.maxRetries + 2 + extra) 0
          false answers locations (by rw [if_neg Bool.false_ne_true]; omega)
        have hspan : range.offset ≤ range.offset + range.length - 1 := by omega
        have hpositive : 0 < range.length := Nat.pos_of_ne_zero hpos
        have hserved : ∀ body, run.result = .ok body →
            ∃ response, .response response ∈ fetched run.log ∧
              Serves source range response body := by
          intro body hbody
          obtain ⟨answer, hmem, hfetch⟩ := exists_fetched_of_ok hrun hbody
          obtain ⟨response, rfl, hserves⟩ := serves_of_fetch hpositive hfetch
          exact ⟨response, hmem, hserves⟩
        have hfatal : ∀ before after response,
            run.log = before ++ .fetch (.response response) :: after →
            (∃ error, source.fetch statusText range.offset
              (range.offset + range.length - 1) (.response response) =
                .error error ∧ Fatal error) →
            after = [] ∧ ∃ error, run.result = .error error := by
          rintro before after response hlog ⟨error, hfetch, hfatal⟩
          obtain ⟨hlast, hresult⟩ :=
            last_of_not_goesOn hrun hlog hfetch hfatal.not_goesOn
          exact ⟨hlast, error, hresult⟩
        refine ⟨run, hrun, ?_, (length_log_le hrun).2, ?_, ?_, ?_, ?_, ?_⟩
        · exact (length_log_le hrun).1
        · intro body hbody
          obtain ⟨response, -, hserves⟩ := hserved body hbody
          exact hserves.length
        · intro body hbody _
          exact hserved body hbody
        · intro before after answer hlog hrefresh message hfetch
          apply last_of_not_goesOn hrun hlog hfetch
          rw [hrefresh]
          simp [GoesOn]
        · intro before after response hlog hchanged
          exact hfatal before after response hlog
            (fatal_of_changed hspan hchanged)
        · intro before after response hlog hoverlong
          exact hfatal before after response hlog (fatal_of_overlong hoverlong)

end Segmentor
