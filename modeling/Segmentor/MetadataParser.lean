import Segmentor.EditedTracks
import Segmentor.MetadataWalk
import Segmentor.MoovReader
import Segmentor.ProtectedSegments
import Segmentor.SampleBounds
import Segmentor.TableReader

/-!
# Parsing a file's metadata

Every packaged track is indexed from the sample tables of `moov`, or from the
fragments of a fragmented file.  The tracks are then cut to their edits, put
on one timeline and named the way URLs name them.
-/

namespace Segmentor

open General EditLists MoovReader

namespace MetadataParser

/-! ## Results that may stop the program -/

/-- A result, unless the program is stopped by an overflow first. -/
abbrev Outcome (α : Type) : Type := ExceptT Error Option α

theorem run_bind_eq_ok_iff {α β : Type} {x : Outcome α} {f : α → Outcome β}
    {b : β} :
    (x >>= f).run = some (.ok b) ↔
      ∃ a, x.run = some (.ok a) ∧ (f a).run = some (.ok b) := by
  rw [ExceptT.run_bind]
  cases hx : x.run with
  | none => simp
  | some result =>
      cases result with
      | error error => simp [pure]
      | ok a => simp

theorem run_lift_eq_ok_iff {α : Type} {x : Result α} {a : α} :
    (liftM x : Outcome α).run = some (.ok a) ↔ x = .ok a := by
  change some x = some (.ok a) ↔ x = .ok a
  rw [Option.some.injEq]

theorem run_pure_eq_ok_iff {α : Type} {a b : α} :
    (pure a : Outcome α).run = some (.ok b) ↔ a = b := by
  change some (Except.ok a) = some (Except.ok b) ↔ a = b
  rw [Option.some.injEq, Except.ok.injEq]

theorem run_throw_ne_ok {α : Type} {error : Error} {a : α} :
    (throw error : Outcome α).run ≠ some (.ok a) := by
  intro h
  cases Option.some.inj h

theorem exists_ok_of_any {α : Type} {x : Outcome α} {p : α → Bool}
    (h : (x.run.any fun result => result.toOption.any p) = true) :
    ∃ a, x.run = some (.ok a) ∧ p a = true := by
  obtain ⟨result, hresult, hp⟩ := (Option.any_eq_true _ _).mp h
  cases result with
  | error error => cases hp
  | ok a => exact ⟨a, hresult, hp⟩

/-! ## The samples of a track -/

/-- The limits of a file's tracks. -/
structure ParserLimits extends LimitsConfig where
  maxTracks : ℕ := 8

/-- Where a track's samples come from. -/
inductive TrackSource
  | tables
  | fragmented (fragments : List Fragment)
      (defaults : List (ℕ × TrackDefaults))

/-- Rejects a fragmented file's track that also lists samples in `moov`. -/
def rejectMixed (trackId samplesInMoov : ℕ) : Result Unit :=
  if samplesInMoov = 0 then .ok ()
  else .error (trackUnsupported trackId
    "samples in moov as well as in fragments are not supported")

theorem exists_expanded {tables : SampleTables} {sourceLen : ℕ}
    {limits : LimitsConfig} {index : SampleIndex}
    (h : sampleIndex tables sourceLen limits = .ok index) :
    index.Valid ∧ expandSamples tables sourceLen limits = .ok index.all := by
  have hagree := sampleIndex_agree tables sourceLen limits
  rw [h] at hagree
  generalize expandSamples tables sourceLen limits = expanded at hagree ⊢
  cases hagree with
  | ok hvalid => exact ⟨hvalid.1, congrArg Except.ok hvalid.2.symm⟩

/-- The index of the samples that the tables list. -/
def tabledSamples (tables : SampleTables) (sourceLen : ℕ)
    (limits : LimitsConfig) : Outcome {x : SampleIndex // x.Readable} :=
  match h : sampleIndex tables sourceLen limits with
  | .error error => throw error
  | .ok index => pure ⟨index, (exists_expanded h).1.readable⟩

/-- The index of the samples that the fragments list.  It cannot be built of
more than `2 ^ 32` samples. -/
def fragmentedSamples (fragments : List Fragment) (query : TrackQuery) :
    Outcome {x : SampleIndex // x.Readable} :=
  match h : trackSamples fragments query with
  | .error error => throw error
  | .ok samples =>
      if hcount : samples.length ≤ 2 ^ 32 then
        pure ⟨.fromSamples samples, by
          obtain ⟨time, horder⟩ := trackSamples_inOrder h
          exact SampleIndex.fromSamples_readable hcount
            (horder.sorted.imp fun hle => (Nat.le_add_right _ _).trans hle)⟩
      else ExceptT.mk none

def TrackSource.query (raw : RawTrack) (sourceLen : ℕ) (limits : LimitsConfig)
    (defaults : List (ℕ × TrackDefaults)) : TrackQuery where
  trackId := raw.id
  defaults := defaultsOf defaults raw.id
  sourceLen := sourceLen
  limits := limits

def TrackSource.samples (source : TrackSource) (raw : RawTrack)
    (sampleTable : List UInt8) (sourceLen : ℕ) (limits : LimitsConfig) :
    Outcome {x : SampleIndex // x.Readable} :=
  match source with
  | .tables => do
      let tables ← TableReader.parseSampleTables sampleTable
      tabledSamples tables sourceLen limits
  | .fragmented fragments defaults => do
      let count ← sampleCount sampleTable
      rejectMixed raw.id count
      fragmentedSamples fragments (query raw sourceLen limits defaults)

def TrackSource.protection (source : TrackSource) (raw : RawTrack)
    (sinf : Option Sinf) (sampleTable : List UInt8) (count : ℕ) :
    Outcome (Option SourceProtection) :=
  match sinf, source with
  | some sinf, .tables =>
      ExceptT.mk (readProtection raw.id sinf sampleTable count)
  | some sinf, .fragmented fragments _ =>
      ExceptT.mk (readFragmentedProtection raw.id sinf sampleTable fragments
        count)
  | none, _ => pure none

/-! ## A track -/

/-- A track and what packaging needs to know of it besides its samples. -/
structure MediaTrack extends ParsedTrack where
  key : TrackKey
  language : Text
  codec : CodecConfig
  sourceProtection : Option SourceProtection

theorem readTimescaleAndDuration_lt {version : ℕ} {times : ℕ × ℕ}
    {bytes rest : List UInt8}
    (h : (readTimescaleAndDuration version).run bytes = .ok (times, rest)) :
    times.1 < 2 ^ 32 := by
  unfold readTimescaleAndDuration at h
  split at h
  · obtain ⟨_, _, -, h⟩ := Reader.run_bind_eq_ok h
    obtain ⟨found, _, hfound, h⟩ := Reader.run_bind_eq_ok h
    obtain ⟨_, _, -, h⟩ := Reader.run_bind_eq_ok h
    obtain ⟨rfl, -⟩ := Reader.run_pure_eq_ok_iff.mp h
    exact (Reader.u32_eq_ok_iff.mp hfound).1
  · obtain ⟨_, _, -, h⟩ := Reader.run_bind_eq_ok h
    obtain ⟨found, _, hfound, h⟩ := Reader.run_bind_eq_ok h
    obtain ⟨_, _, -, h⟩ := Reader.run_bind_eq_ok h
    obtain ⟨rfl, -⟩ := Reader.run_pure_eq_ok_iff.mp h
    exact (Reader.u32_eq_ok_iff.mp hfound).1

theorem parseMediaHeader_timescale {payload : List UInt8} {trackId : ℕ}
    {header : MediaHeader}
    (h : parseMediaHeader payload trackId = .ok header) :
    0 < header.timescale ∧ header.timescale < 2 ^ 32 := by
  obtain ⟨rest, hrun⟩ := Reader.run'_eq_ok_iff.mp h
  unfold readMediaHeader at hrun
  obtain ⟨version, _, -, hrun⟩ := Reader.run_bind_eq_ok hrun
  obtain ⟨⟨timescale, duration⟩, _, htimes, hrun⟩ := Reader.run_bind_eq_ok hrun
  have hlt := readTimescaleAndDuration_lt htimes
  dsimp only at hrun
  split at hrun
  · cases hrun
  · obtain ⟨packed, _, -, hrun⟩ := Reader.run_bind_eq_ok hrun
    obtain ⟨rfl, -⟩ := Reader.run_pure_eq_ok_iff.mp hrun
    exact ⟨Nat.pos_of_ne_zero ‹_›, hlt⟩

theorem describeTrack_timescale {raw : RawTrack}
    {description : TrackDescription}
    (h : describeTrack raw = .ok description) :
    0 < description.header.timescale ∧
      description.header.timescale < 2 ^ 32 := by
  unfold describeTrack at h
  obtain ⟨media, -, h⟩ := bind_eq_ok_iff.mp h
  obtain ⟨mdhd, -, h⟩ := bind_eq_ok_iff.mp h
  obtain ⟨header, hheader, h⟩ := bind_eq_ok_iff.mp h
  obtain ⟨mediaInfo, -, h⟩ := bind_eq_ok_iff.mp h
  obtain ⟨sampleTable, -, h⟩ := bind_eq_ok_iff.mp h
  obtain ⟨entry, -, h⟩ := bind_eq_ok_iff.mp h
  obtain ⟨sinf, -, h⟩ := bind_eq_ok_iff.mp h
  obtain ⟨codec, -, h⟩ := bind_eq_ok_iff.mp h
  obtain rfl := Except.ok.inj h
  exact parseMediaHeader_timescale hheader

/-- One packaged track and its edit. -/
def parseTrack (raw : RawTrack) (movieTimescale sourceLen : ℕ)
    (limits : LimitsConfig) (source : TrackSource) :
    Outcome (MediaTrack × TrackEdit) :=
  match h : describeTrack raw with
  | .error error => throw error
  | .ok description => do
      let samples ← source.samples raw description.sampleTable sourceLen limits
      if samples.1.isEmpty then
        throw (invalidMedia ("track " ++ toString raw.id ++ " has no samples"))
      else
        let sourceProtection ← source.protection raw description.sinf
          description.sampleTable samples.1.len
        let edit ← trackEdit raw movieTimescale description.header.timescale
        return (
          { id := raw.id
            kind := kindOf raw.handler
            timescale := description.header.timescale
            samples := samples.1
            timelineShift := 0
            duration := description.header.duration
            timescale_pos := (describeTrack_timescale h).1
            samples_readable := samples.2
            -- Replaced once every track is known.
            key := .video
            language := description.header.language
            codec := description.codec
            sourceProtection := sourceProtection }, edit)

/-- Every kept track.  They are parsed side by side, so that one that stops
the program does so before any error is reported; of the errors, the first in
file order is. -/
def parseTracks (kept : List RawTrack) (movieTimescale sourceLen : ℕ)
    (limits : LimitsConfig) (source : TrackSource) :
    Outcome (List (MediaTrack × TrackEdit)) :=
  ExceptT.mk do
    let results ← kept.mapM fun raw =>
      (parseTrack raw movieTimescale sourceLen limits source).run
    some (results.mapM id)

/-! ## All tracks together -/

namespace MediaTrack

def apply (track : MediaTrack) (edit : TrackEdit) (shift : ℕ) :
    Result MediaTrack :=
  (EditLists.apply track.toParsedTrack edit shift).map fun moved =>
    { track with toParsedTrack := moved }

end MediaTrack

/-- The tracks cut to their edits and moved by their shifts. -/
def applyEdits : List ((MediaTrack × TrackEdit) × ℕ) →
    Result (List MediaTrack) :=
  List.mapM fun entry => entry.1.1.apply entry.1.2 entry.2

def normaliseFragmented (tracks : List MediaTrack) :
    Result (List MediaTrack) :=
  (normaliseFragmentedTimeline (tracks.map MediaTrack.toParsedTrack)).map
    (List.zipWith (fun track moved => { track with toParsedTrack := moved })
      tracks)

/-- Names the tracks the way URLs will: one video, then audio numbered in file
order, where `audio` have been numbered so far. -/
def assignKeysFrom (audio : ℕ) : List MediaTrack → List MediaTrack
  | [] => []
  | track :: rest =>
      match track.kind with
      | .video => { track with key := .video } :: assignKeysFrom audio rest
      | .audio =>
          let audio := saturatingAdd (2 ^ 16) audio 1
          { track with key := .audio audio } :: assignKeysFrom audio rest

def assignKeys (tracks : List MediaTrack) : List MediaTrack :=
  assignKeysFrom 0 tracks

/-- The movie duration in the movie timescale, from the longest track. -/
def movieDuration (tracks : List MediaTrack) (movieTimescale : ℕ) : ℕ :=
  min ((tracks.map fun track =>
    track.duration * movieTimescale / track.timescale).foldl max 0)
    (2 ^ 64 - 1)

/-! ## The whole file -/

/-- A track that is left out of the packaged asset. -/
structure SkippedTrack where
  id : ℕ
  handler : String
  reason : String
  deriving DecidableEq, Repr

/-- What discovering a fragmented source's fragments involved. -/
structure Fragmentation where
  fragments : ℕ
  discovery : Discovery
  droppedTail : Option DroppedTail
  deriving DecidableEq, Repr

/-- What is known of a parsed file. -/
structure ParsedMedia where
  moovHash : List UInt8
  /-- The hash of everything the index is built from. -/
  metadataHash : List UInt8
  movieTimescale : ℕ
  duration : ℕ
  presentationOffsetMs : ℕ
  tracks : List MediaTrack
  skippedTracks : List SkippedTrack
  fragmentation : Option Fragmentation

def RawTrack.skipped (raw : RawTrack) : Option SkippedTrack :=
  match raw.disposition with
  | .package => none
  | .skip reason => some ⟨raw.id, fourcc raw.handler, reason⟩

def RawTrack.kept (raw : RawTrack) : Bool :=
  raw.disposition == .package

/-- Where the tracks' samples come from; `moov` and the fragments have to
agree on it. -/
def trackSource (moov : RawMoov) (metadata : Metadata) : Result TrackSource :=
  if moov.fragmented then
    if metadata.fragments.isEmpty then
      .error (invalidMedia "the file is fragmented but has no fragments")
    else .ok (.fragmented metadata.fragments moov.defaults)
  else if metadata.fragments.isEmpty then .ok .tables
  else .error (invalidMedia "moof boxes without an mvex box in moov")

/-- What the hash of a file's metadata is taken of. -/
def hashedMetadata (metadata : Metadata) : List UInt8 :=
  metadata.moovBytes ++ metadata.fragments.flatMap fun fragment =>
    encode 8 fragment.offset ++ fragment.bytes

/-- Validates the metadata, indexes its tracks and puts them on one timeline.
`blake3` is the hash function. -/
def parseMetadata (blake3 : List UInt8 → List UInt8) (metadata : Metadata)
    (limits : ParserLimits) : Outcome ParsedMedia := do
  let moov ← validateRawMoov metadata.moovBytes
  if limits.maxTracks < moov.tracks.length then
    throw (.unsupported ("track count " ++ toString moov.tracks.length ++
      " exceeds configured limit " ++ toString limits.maxTracks))
  else
    let source ← trackSource moov metadata
    let parsed ← parseTracks (moov.tracks.filter RawTrack.kept)
      moov.movieTimescale metadata.len limits.toLimitsConfig source
    let timescales := parsed.map fun entry => (entry.2, entry.1.timescale)
    let shifts ← (ExceptT.mk (timelineShifts timescales moov.movieTimescale) :
      Outcome (List ℕ))
    let offset ← (ExceptT.mk ((sharedOffsetMillis timescales
      moov.movieTimescale).map .ok) : Outcome ℕ)
    let tracks ← applyEdits (parsed.zip shifts)
    let tracks ← (if moov.fragmented then normaliseFragmented tracks
      else .ok tracks : Result (List MediaTrack))
    let tracks := assignKeys tracks
    return {
      moovHash := blake3 metadata.moovBytes
      metadataHash := blake3 (hashedMetadata metadata)
      movieTimescale := moov.movieTimescale
      duration :=
        if moov.movieDuration = 0 then movieDuration tracks moov.movieTimescale
        else moov.movieDuration
      presentationOffsetMs := offset
      tracks := tracks
      skippedTracks := moov.tracks.filterMap RawTrack.skipped
      fragmentation :=
        if moov.fragmented then
          some ⟨metadata.fragments.length, metadata.discovery,
            metadata.dropped⟩
        else none }

end MetadataParser

end Segmentor
