import Segmentor.Protection
import Segmentor.SampleEntries

/-!
# Initialization segments

The init segment of a track is built from the boxes of the source's own `moov`.
What describes where the samples are is replaced by empty tables, durations are
set to zero and edit lists left out; everything else is copied.  The sample
entry is announced as the codec it is, and marked as protected where it is to
be.
-/

namespace Segmentor

open General

namespace InitSegment

/-- Brand `iso6`, compatible with `iso6` and `mp41`. -/
def FTYP : List UInt8 :=
  encode 4 0x18 ++ (code 'f' 't' 'y' 'p' ++ (code 'i' 's' 'o' '6' ++
    (encode 4 0 ++ (code 'i' 's' 'o' '6' ++ code 'm' 'p' '4' '1'))))

/-- What an encrypted track's init segment declares. -/
structure InitProtection where
  keyId : List UInt8
  constantIv : List UInt8
  cryptByteBlock : ℕ
  skipByteBlock : ℕ
  /-- Complete `pssh` boxes, copied into `moov`. -/
  pssh : List (List UInt8)

def tooLarge : Error :=
  .invalidMedia "initialization segment is too large"

def writeBox (name payload : List UInt8) : Result (List UInt8) :=
  if payload.length + 8 < 2 ^ 32 then .ok (boxBytes name payload)
  else .error tooLarge

/-! ## Headers -/

/-- Where a header box keeps its duration, for each version. -/
structure DurationAt where
  version0 : ℕ
  version1 : ℕ

/-- `mvhd` and `mdhd` share a layout. -/
def DurationAt.MOVIE_OR_MEDIA : DurationAt := ⟨16, 24⟩

def DurationAt.TRACK_HEADER : DurationAt := ⟨20, 28⟩

/-- The payload with these bytes set to zero, where it has them. -/
def zeroed (payload : List UInt8) (offset width : ℕ) : Result (List UInt8) :=
  if payload.length < offset + width then
    .error (.invalidMedia "header box is truncated")
  else
    .ok (payload.take offset ++
      (List.replicate width 0 ++ payload.drop (offset + width)))

/-- A header payload with its duration set to zero. -/
def withZeroDuration (payload : List UInt8) (place : DurationAt) :
    Result (List UInt8) :=
  match payload.head? with
  | none => .error (.invalidMedia "header box is empty")
  | some version =>
      if version = 1 then zeroed payload place.version1 8
      else zeroed payload place.version0 4

/-- Reads the track of a `tkhd`; version 1 widens the times before it. -/
def readTrackId : Reader ℕ := do
  let version ← Reader.fullBox
  Reader.skip (if version = 1 then 16 else 8)
  Reader.u32

def trackIdOf (track : RawBox) : Result ℕ := do
  let tkhd ← requiredChild track.payload (code 't' 'k' 'h' 'd')
  readTrackId.run' tkhd.payload

/-! ## Sample descriptions -/

/-- The entries of a sample description, behind its entry count. -/
def readDescription : Reader (List UInt8) := do
  let _ ← Reader.fullBox
  Reader.skip 4
  Reader.rest

/-- The first sample entry. -/
def firstEntry (description : List UInt8) : Result RawBox := do
  let rest ← readDescription.run' description
  let entries ← childBoxes rest
  okOr entries.head? (.invalidMedia "stsd entry is missing")

/-- A box with its payload as it is. -/
def copyBox (child : RawBox) : Result (List UInt8) :=
  writeBox child.name child.payload

/-- A description of one entry, behind the version, flags and entry count of
the source's. -/
def oneEntry (description name payload : List UInt8) :
    Result (List UInt8) := do
  let entry ← writeBox name payload
  .ok (description.take 8 ++ entry)

/-- The description of a protected source's entry as it was before protection:
its `frma` type, and every box in it but `sinf`.  Nothing for any other
entry. -/
def unprotectedDescription (description : List UInt8) (trackId : ℕ) :
    Result (Option (List UInt8)) := do
  let entry ← firstEntry description
  if entry.name ≠ code 'e' 'n' 'c' 'v' ∧ entry.name ≠ code 'e' 'n' 'c' 'a' then
    .ok none
  else
    let children ←
      Codec.protectedEntryChildren entry.name entry.payload trackId
    let sinf ← requiredChild children (code 's' 'i' 'n' 'f')
    let frma ← requiredChild sinf.payload (code 'f' 'r' 'm' 'a')
    let original ← okOr
      (if 4 ≤ frma.payload.length then some (frma.payload.take 4) else none)
      (.invalidMedia "frma is truncated")
    let boxes ← childBoxes children
    let kept ← (boxes.filter fun child =>
      child.name != code 's' 'i' 'n' 'f').mapM copyBox
    let rewritten ← oneEntry description original
      (entry.payload.take (entry.payload.length - children.length) ++
        kept.flatten)
    .ok (some rewritten)

/-- `sinf`: the original format, the `cbcs` scheme, and `tenc` with a constant
vector. -/
def protectionInfo (original : List UInt8) (protection : InitProtection) :
    Result (List UInt8) := do
  let frma ← writeBox (code 'f' 'r' 'm' 'a') original
  let schm ← writeBox (code 's' 'c' 'h' 'm')
    (List.replicate 4 0 ++ (code 'c' 'b' 'c' 's' ++ encode 4 0x00010000))
  let tenc ← writeBox (code 't' 'e' 'n' 'c')
    ([1, 0, 0, 0, 0] ++ (encode 1 (protection.cryptByteBlock * 16 +
      protection.skipByteBlock % 16) ++ ([1, 0] ++ (protection.keyId ++
        ([16] ++ protection.constantIv)))))
  let schi ← writeBox (code 's' 'c' 'h' 'i') tenc
  .ok (frma ++ (schm ++ schi))

/-- The type that an entry is given when it is protected. -/
def protectedType (name : List UInt8) : List UInt8 :=
  if name = code 'm' 'p' '4' 'a' ∨ name = code 'a' 'c' '-' '3' ∨
      name = code 'e' 'c' '-' '3' then
    code 'e' 'n' 'c' 'a'
  else code 'e' 'n' 'c' 'v'

/-- The description with its entry marked as protected, where it is to be. -/
def protect (description : List UInt8) :
    Option InitProtection → Result (List UInt8)
  | none => .ok description
  | some protection => do
      let entry ← firstEntry description
      let info ← protectionInfo entry.name protection
      let sinf ← writeBox (code 's' 'i' 'n' 'f') info
      oneEntry description (protectedType entry.name) (entry.payload ++ sinf)

/-- The `stsd` to write: the source's, but as the codec it was before
protection, with a QuickTime-style entry in the standard layout, and protected
again where that is asked for. -/
def sampleDescription (description : List UInt8) (trackId : ℕ)
    (protection : Option InitProtection) : Result (List UInt8) := do
  let unprotected ← unprotectedDescription description trackId
  let description := unprotected.getD description
  let entry ← firstEntry description
  if entry.name ≠ code 'm' 'p' '4' 'a' then protect description protection
  else
    let iso ← Codec.isoAudioEntry entry.payload trackId
    match iso with
    | none => protect description protection
    | some iso => do
        let rewritten ← oneEntry description (code 'm' 'p' '4' 'a') iso
        protect rewritten protection

/-! ## Tracks -/

/-- The sample description and the empty tables of a fragmented file. -/
def sampleTableBox (sampleTable : List UInt8) (trackId : ℕ)
    (protection : Option InitProtection) : Result (List UInt8) := do
  let description ← requiredChild sampleTable (code 's' 't' 's' 'd')
  let described ← sampleDescription description.payload trackId protection
  let stsd ← writeBox (code 's' 't' 's' 'd') described
  let stts ← writeBox (code 's' 't' 't' 's') (List.replicate 8 0)
  let stsc ← writeBox (code 's' 't' 's' 'c') (List.replicate 8 0)
  let stsz ← writeBox (code 's' 't' 's' 'z') (List.replicate 12 0)
  let stco ← writeBox (code 's' 't' 'c' 'o') (List.replicate 8 0)
  .ok (stsd ++ (stts ++ (stsc ++ (stsz ++ stco))))

/-- Every child box, each with the payload it is given. -/
def rewriteChildren (payload : List UInt8)
    (rewrite : RawBox → Result (List UInt8)) : Result (List UInt8) := do
  let children ← childBoxes payload
  let written ← children.mapM fun child => do
    let rewritten ← rewrite child
    writeBox child.name rewritten
  .ok written.flatten

def mediaInfoBox (mediaInfo : List UInt8) (trackId : ℕ)
    (protection : Option InitProtection) : Result (List UInt8) :=
  rewriteChildren mediaInfo fun child =>
    if child.name = code 's' 't' 'b' 'l' then
      sampleTableBox child.payload trackId protection
    else .ok child.payload

def mediaBox (media : List UInt8) (trackId : ℕ)
    (protection : Option InitProtection) : Result (List UInt8) :=
  rewriteChildren media fun child =>
    if child.name = code 'm' 'd' 'h' 'd' then
      withZeroDuration child.payload .MOVIE_OR_MEDIA
    else if child.name = code 'm' 'i' 'n' 'f' then
      mediaInfoBox child.payload trackId protection
    else .ok child.payload

/-- A `trak` with the same boxes, but no sample locations, edit list or user
data. -/
def trackBox (track : RawBox) (trackId : ℕ)
    (protection : Option InitProtection) : Result (List UInt8) := do
  let header ← requiredChild track.payload (code 't' 'k' 'h' 'd')
  let media ← requiredChild track.payload (code 'm' 'd' 'i' 'a')
  let untimed ← withZeroDuration header.payload .TRACK_HEADER
  let tkhd ← writeBox (code 't' 'k' 'h' 'd') untimed
  let rewritten ← mediaBox media.payload trackId protection
  let mdia ← writeBox (code 'm' 'd' 'i' 'a') rewritten
  .ok (tkhd ++ mdia)

/-- The `trex` of a track: sample description 1, and zero defaults. -/
def trackExtends (trackId : ℕ) : List UInt8 :=
  boxBytes (code 't' 'r' 'e' 'x')
    (List.replicate 4 0 ++ (encode 4 trackId ++ (encode 4 1 ++
      List.replicate 12 0)))

/-! ## The whole segment -/

/-- The `trak` of a track among the boxes of `moov`. -/
def findTrack (children : List RawBox) (trackId : ℕ) : Result RawBox :=
  okOr ((children.filter fun child => child.name == code 't' 'r' 'a' 'k').find?
      fun track => trackIdOf track == .ok trackId)
    (.invalidMedia ("track " ++ toString trackId ++ " does not exist"))

def writeTrack (children : List RawBox) (protection : Option InitProtection)
    (trackId : ℕ) : Result (List UInt8) := do
  let track ← findTrack children trackId
  let rewritten ← trackBox track trackId protection
  writeBox (code 't' 'r' 'a' 'k') rewritten

def writeInit (moov : List UInt8) (trackIds : List ℕ)
    (protection : Option InitProtection) : Result (List UInt8) := do
  let moov ← boxPayload moov 0
  let children ← childBoxes moov.payload
  let movieHeader ← okOr
    (children.find? fun child => child.name == code 'm' 'v' 'h' 'd')
    (.invalidMedia "required MP4 box `mvhd` is missing")
  let untimed ← withZeroDuration movieHeader.payload .MOVIE_OR_MEDIA
  let mvhd ← writeBox (code 'm' 'v' 'h' 'd') untimed
  let tracks ← trackIds.mapM (writeTrack children protection)
  let mvex ← writeBox (code 'm' 'v' 'e' 'x') (trackIds.flatMap trackExtends)
  let pssh := protection.elim [] fun protection => protection.pssh.flatten
  let movie ← writeBox (code 'm' 'o' 'o' 'v')
    (mvhd ++ (tracks.flatten ++ (mvex ++ pssh)))
  .ok (FTYP ++ movie)

/-- The init segment of one track. -/
def writeInitSegment (moov : List UInt8) (trackId : ℕ) :
    Result (List UInt8) :=
  writeInit moov [trackId] none

/-- One init segment for several tracks, in order. -/
def writeMuxedInitSegment (moov : List UInt8) (trackIds : List ℕ) :
    Result (List UInt8) :=
  writeInit moov trackIds none

def writeProtectedInitSegment (moov : List UInt8) (trackId : ℕ)
    (protection : InitProtection) : Result (List UInt8) :=
  writeInit moov [trackId] (some protection)

end InitSegment

end Segmentor
