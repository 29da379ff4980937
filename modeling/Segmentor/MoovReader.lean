import Segmentor.EditLists
import Segmentor.FragmentOffsets
import Segmentor.SampleEntries
import Segmentor.SourceProtection

/-!
# Reading `moov`

A first pass over `moov` checks its structure and decides for each track
whether it is packaged.  What a packaged track's own boxes say of its media,
its codec and its edit is then read from its `trak`.
-/

namespace Segmentor

open General

namespace MoovReader

/-! ## Headers -/

/-- The creation and modification times come first; version 1 widens every
time. -/
def readTimescaleAndDuration (version : ℕ) : Reader (ℕ × ℕ) :=
  if version = 1 then do
    Reader.skip 16
    let timescale ← Reader.u32
    let duration ← Reader.u64
    return (timescale, duration)
  else do
    Reader.skip 8
    let timescale ← Reader.u32
    let duration ← Reader.u32
    return (timescale, duration)

/-- What `mdhd` says about a track's media. -/
structure MediaHeader where
  timescale : ℕ
  duration : ℕ
  language : Text
  deriving DecidableEq

def readMediaHeader (trackId : ℕ) : Reader MediaHeader := do
  let version ← Reader.fullBox
  let (timescale, duration) ← readTimescaleAndDuration version
  if timescale = 0 then
    Reader.fail (.invalidMedia ("track " ++ toString trackId ++
      ": timescale is zero"))
  else
    let packed ← Reader.u16
    return ⟨timescale, duration, packedLanguage packed⟩

def parseMediaHeader (payload : List UInt8) (trackId : ℕ) :
    Result MediaHeader :=
  (readMediaHeader trackId).run' payload

def readTrackId : Reader ℕ := do
  let version ← Reader.fullBox
  Reader.skip (if version = 1 then 16 else 8)
  Reader.u32

def trackId (tkhd : List UInt8) : Result ℕ :=
  readTrackId.run' tkhd

def handlerType (hdlr : List UInt8) : Result (List UInt8) :=
  okOr (bytesAt hdlr 8 12) (invalidMedia "hdlr payload is truncated")

/-! ## What a track refers to -/

/-- The boxes behind a version, flags and a count, which must be 1. -/
def readOnly (refused : ℕ → Error) : Reader (List UInt8) := do
  let _ ← Reader.fullBox
  let entryCount ← Reader.u32
  if entryCount ≠ 1 then Reader.fail (refused entryCount) else Reader.rest

/-- The low flag bit of a `url ` entry means that the media is in this
file. -/
def selfContained (entry : RawBox) : Bool :=
  entry.name == code 'u' 'r' 'l' ' ' &&
    (entry.payload[3]?.any fun flags => flags.toNat % 2 = 1)

def validateDataReference (mediaInfo : List UInt8) : Result Unit := do
  let dataInfo ← requiredChild mediaInfo (code 'd' 'i' 'n' 'f')
  let dataReference ← requiredChild dataInfo.payload (code 'd' 'r' 'e' 'f')
  let rest ← (readOnly fun _ => .unsupported
    "exactly one self-contained data reference is required").run'
      dataReference.payload
  let entries ← childBoxes rest
  let entry ← okOr entries.head? (invalidMedia "dref entry is missing")
  if selfContained entry then .ok ()
  else .error (.unsupported "external data references are not supported")

def readDescriptions : Reader (List UInt8) :=
  readOnly fun entryCount => .unsupported
    (toString entryCount ++ " sample descriptions; exactly one is required")

/-- The one entry of a sample description. -/
def describedEntry (description : List UInt8) : Result RawBox := do
  let rest ← readDescriptions.run' description
  let entries ← childBoxes rest
  okOr entries.head? (invalidMedia "stsd entry is missing")

/-- The track's one sample entry. -/
def sampleEntry (sampleTable : List UInt8) : Result RawBox := do
  let description ← requiredChild sampleTable (code 's' 't' 's' 'd')
  describedEntry description.payload

/-- The number of samples that a size table declares; its place is the same
in `stsz` and `stz2`. -/
def readSampleCount : Reader ℕ := do
  let _ ← Reader.fullBox
  Reader.skip 4
  Reader.u32

def sampleCount (sampleTable : List UInt8) : Result ℕ := do
  let sizes ← optionalChild sampleTable (code 's' 't' 's' 'z')
  match sizes with
  | some sizes => readSampleCount.run' sizes.payload
  | none => do
      let sizes ← requiredChild sampleTable (code 's' 't' 'z' '2')
      readSampleCount.run' sizes.payload

/-! ## Tracks -/

inductive Disposition
  | package
  | skip (reason : String)
  deriving DecidableEq, Repr

/-- What the first pass learned about one `trak`. -/
structure RawTrack where
  id : ℕ
  handler : List UInt8
  disposition : Disposition
  /-- The payload of the `trak`. -/
  trak : List UInt8
  deriving DecidableEq

structure RawMoov where
  movieTimescale : ℕ
  movieDuration : ℕ
  /-- `moov` has an `mvex`: the samples are in `moof` boxes. -/
  fragmented : Bool
  /-- The `trex` defaults, the one read last first. -/
  defaults : List (ℕ × TrackDefaults)
  tracks : List RawTrack
  deriving DecidableEq

/-- Equality of the names of boxes, as the lookups below decide it. -/
local instance lawfulBEq_name : LawfulBEq (List UInt8) := inferInstance

/-- The sample entries that are packaged as they are. -/
def packagedEntries : List (List UInt8) :=
  [code 'a' 'v' 'c' '1', code 'h' 'v' 'c' '1', code 'h' 'e' 'v' '1',
    code 'v' 'p' '0' '9', code 'a' 'v' '0' '1', code 'm' 'p' '4' 'a',
    code 'a' 'c' '-' '3', code 'e' 'c' '-' '3', code 'O' 'p' 'u' 's',
    code 'f' 'L' 'a' 'C']

/-- The sample entries of protected tracks. -/
def protectedEntries : List (List UInt8) :=
  [code 'e' 'n' 'c' 'v', code 'e' 'n' 'c' 'a']

def VIDEO_HANDLER : List UInt8 := code 'v' 'i' 'd' 'e'
def SOUND_HANDLER : List UInt8 := code 's' 'o' 'u' 'n'

def classifySampleDescription (trackId : ℕ) (handler sampleTable : List UInt8) :
    Result Disposition := do
  let description ← requiredChild sampleTable (code 's' 't' 's' 'd')
  let _ ← (readOnly fun entryCount => trackUnsupported trackId
    (toString entryCount ++ " sample descriptions; exactly one is required")
    ).run' description.payload
  let entry ← sampleEntry sampleTable
  if entry.name ∈ packagedEntries then .ok .package
  else if entry.name ∈ protectedEntries then do
    -- Here the entry only has to say how it is protected.
    let children ←
      Codec.protectedEntryChildren entry.name entry.payload trackId
    let sinf ← optionalChild children (code 's' 'i' 'n' 'f')
    if sinf.isNone then
      .error (trackUnsupported trackId
        ("encrypted media without protection information is not supported"))
    else .ok .package
  else do
    -- A single still picture, such as cover art stored as a track.
    let still ←
      if handler = VIDEO_HANDLER then
        (sampleCount sampleTable).map fun count => decide (count ≤ 1)
      else .ok false
    if still then .ok (.skip "single still image")
    else .error (trackUnsupported trackId ("sample description `" ++
      fourcc entry.name ++ "` is not supported"))

/-- Whether a track is packaged, which only sound and pictures are. -/
def disposition (trackId : ℕ) (handler media : List UInt8) :
    Result Disposition :=
  if handler = VIDEO_HANDLER ∨ handler = SOUND_HANDLER then do
    let mediaInfo ← requiredChild media (code 'm' 'i' 'n' 'f')
    let _ ← validateDataReference mediaInfo.payload
    let sampleTable ← requiredChild mediaInfo.payload (code 's' 't' 'b' 'l')
    classifySampleDescription trackId handler sampleTable.payload
  else .ok (.skip "not an audio or video track")

def readRawTrack (track : RawBox) : Result RawTrack := do
  let tkhd ← requiredChild track.payload (code 't' 'k' 'h' 'd')
  let id ← trackId tkhd.payload
  let media ← requiredChild track.payload (code 'm' 'd' 'i' 'a')
  let hdlr ← requiredChild media.payload (code 'h' 'd' 'l' 'r')
  let handler ← handlerType hdlr.payload
  let disposition ← disposition id handler media.payload
  .ok ⟨id, handler, disposition, track.payload⟩

/-- The tracks read so far, and the next. -/
def pushRawTrack (tracks : List RawTrack) (track : RawBox) :
    Result (List RawTrack) := do
  let track ← readRawTrack track
  if tracks.any fun existing => existing.id == track.id then
    .error (invalidMedia "two tracks share one track ID")
  else .ok (tracks ++ [track])

/-! ## The whole of `moov` -/

def readMovieHeader : Reader (ℕ × ℕ) := do
  let version ← Reader.fullBox
  readTimescaleAndDuration version

/-- Checks the structure of `moov` and decides, per track, whether it is
packaged.  The tables of a track that is not are never read. -/
def validateRawMoov (moov : List UInt8) : Result RawMoov := do
  let root ← boxPayload moov 0
  if root.name ≠ code 'm' 'o' 'o' 'v' then
    .error (invalidMedia "metadata range is not a moov box")
  else
    let children ← childBoxes root.payload
    let mvex := children.find? fun child => child.name == code 'm' 'v' 'e' 'x'
    let defaults ← mvex.elim (.ok none) fun mvex =>
      (parseDefaults mvex.payload).map some
    let header ← okOr
      (children.find? fun child => child.name == code 'm' 'v' 'h' 'd')
      (invalidMedia "required MP4 box `mvhd` is missing")
    let (timescale, duration) ← readMovieHeader.run' header.payload
    if timescale = 0 then .error (invalidMedia "movie timescale is zero")
    else
      let tracks ← (children.filter fun child =>
        child.name == code 't' 'r' 'a' 'k').foldlM pushRawTrack []
      .ok ⟨timescale, duration, defaults.isSome, defaults.getD [], tracks⟩

/-! ## A packaged track -/

open EditLists in
/-- An `elst` entry of the bytes of its fields. -/
def elstEntry (duration time : List UInt8) (rate fraction : ℕ) : ElstEntry where
  segmentDuration := decode (duration.take 8)
  mediaTime := decode (time.take 8)
  mediaRate := rate
  mediaRateFraction := fraction
  segmentDuration_lt := by
    have hlt := decode_lt (duration.take 8)
    have hle := Nat.pow_le_pow_right (n := 256) (by decide)
      (List.length_take_le 8 duration)
    omega
  mediaTime_lt := by
    have hlt := decode_lt (time.take 8)
    have hle := Nat.pow_le_pow_right (n := 256) (by decide)
      (List.length_take_le 8 time)
    omega

def readElstEntry (version : ℕ) : Reader EditLists.ElstEntry := do
  let width := if version = 1 then 8 else 4
  let duration ← Reader.take width
  let time ← Reader.take width
  let rate ← Reader.u16
  let fraction ← Reader.u16
  return elstEntry duration time rate fraction

def readElstEntries (version : ℕ) : ℕ → Reader (List EditLists.ElstEntry)
  | 0 => pure []
  | count + 1 => do
      let entry ← readElstEntry version
      let rest ← readElstEntries version count
      return entry :: rest

def readElst : Reader (ℕ × List EditLists.ElstEntry) := do
  let version ← Reader.fullBox
  let count ← Reader.entryCount (if version = 1 then 20 else 12)
  let entries ← readElstEntries version count
  return (version, entries)

/-- A track's edit list, or the edit of a track that has none. -/
def trackEdit (raw : RawTrack) (movieTimescale trackTimescale : ℕ) :
    Result EditLists.TrackEdit := do
  let edts ← optionalChild raw.trak (code 'e' 'd' 't' 's')
  match edts with
  | none => .ok .none
  | some edts => do
      let elst ← optionalChild edts.payload (code 'e' 'l' 's' 't')
      match elst with
      | none => .ok .none
      | some elst => do
          let (version, entries) ← readElst.run' elst.payload
          EditLists.parseEditList raw.id version entries movieTimescale
            trackTimescale

/-- The kind of a track that is packaged. -/
def kindOf (handler : List UInt8) : TrackKind :=
  if handler = VIDEO_HANDLER then .video else .audio

/-- What a track's own boxes say of its media. -/
structure TrackDescription where
  header : MediaHeader
  /-- The payload of `stbl`. -/
  sampleTable : List UInt8
  /-- How a protected source says that it is protected. -/
  sinf : Option Sinf
  codec : CodecConfig
  deriving DecidableEq

/-- The `sinf` of a protected entry. -/
def entrySinf (entry : RawBox) (trackId : ℕ) : Result (Option Sinf) :=
  if entry.name ∈ protectedEntries then do
    let children ←
      Codec.protectedEntryChildren entry.name entry.payload trackId
    let sinf ← requiredChild children (code 's' 'i' 'n' 'f')
    (parseSinf trackId sinf.payload).map some
  else .ok none

/-- A protected entry is read as the codec it was before protection. -/
def describeTrack (raw : RawTrack) : Result TrackDescription := do
  let media ← requiredChild raw.trak (code 'm' 'd' 'i' 'a')
  let mdhd ← requiredChild media.payload (code 'm' 'd' 'h' 'd')
  let header ← parseMediaHeader mdhd.payload raw.id
  let mediaInfo ← requiredChild media.payload (code 'm' 'i' 'n' 'f')
  let sampleTable ← requiredChild mediaInfo.payload (code 's' 't' 'b' 'l')
  let entry ← sampleEntry sampleTable.payload
  let sinf ← entrySinf entry raw.id
  let format := sinf.elim entry.name Sinf.originalFormat
  let codec ← Codec.parseCodec format (kindOf raw.handler) entry.payload
    raw.id raw.handler
  .ok ⟨header, sampleTable.payload, sinf, codec⟩

end MoovReader

end Segmentor
