import Segmentor.BoxRoundTrip
import Segmentor.FragmentReader
import Segmentor.SampleCiphers
import Segmentor.General.Jagged

/-!
# How a source is protected

A protected sample entry says in its `sinf` which scheme and key protect the
track.  `senc` boxes list a vector and a subsample map for each sample, in one
box for a whole file or in one for each fragment.  What they list is kept in
flat tables, by which the samples are decrypted when they are served.
-/

namespace Segmentor

open General

/-! ## Schemes -/

/-- The scheme a `schm` box names, unless it is one that is not read. -/
def SourceScheme.fromFourcc (name : List UInt8) : Option SourceScheme :=
  if name = code 'c' 'e' 'n' 'c' then some .cenc
  else if name = code 'c' 'e' 'n' 's' then some .cens
  else if name = code 'c' 'b' 'c' '1' then some .cbc1
  else if name = code 'c' 'b' 'c' 's' then some .cbcs
  else none

/-! ## What is known of a track -/

/-- The vectors and subsample maps of a track's samples. -/
structure AuxTable where
  ivSize : ℕ
  /-- `ivSize` bytes for each sample. -/
  ivs : List UInt8
  /-- Where each sample's subsamples start, and where the last one's end;
  empty when no sample has any. -/
  subFirst : List ℕ
  subsamples : List Subsample
  deriving DecidableEq, Repr

namespace AuxTable

/-- A sample's own vector, unless the track uses a constant one. -/
def iv (aux : AuxTable) (index : ℕ) : Option (List UInt8) :=
  if aux.ivSize = 0 then none
  else
    let start := index * aux.ivSize
    if start + aux.ivSize ≤ aux.ivs.length then
      some (stretch aux.ivs start (start + aux.ivSize))
    else none

/-- A sample's subsamples; empty when the whole sample is protected. -/
def subsamplesOf (aux : AuxTable) (index : ℕ) : List Subsample :=
  jaggedRow aux.subFirst aux.subsamples index

end AuxTable

/-- How a track of the source is protected, and the data to undo it. -/
structure SourceProtection where
  scheme : SourceScheme
  /-- The type of the sample entry before protection. -/
  originalFormat : List UInt8
  keyId : List UInt8
  constantIv : Option (List UInt8)
  cryptBlocks : ℕ
  skipBlocks : ℕ
  aux : AuxTable
  deriving DecidableEq, Repr

/-! ## `sinf` -/

/-- What `sinf` says about a track. -/
structure Sinf where
  originalFormat : List UInt8
  scheme : SourceScheme
  keyId : List UInt8
  /-- The size of each sample's vector: 0 for a constant one, 8 or 16. -/
  ivSize : ℕ
  constantIv : Option (List UInt8)
  cryptBlocks : ℕ
  skipBlocks : ℕ
  isProtected : Bool
  deriving DecidableEq, Repr

/-- The bytes of a payload from `first` up to `stop`, if it has so many. -/
def bytesAt (payload : List UInt8) (first stop : ℕ) : Option (List UInt8) :=
  if stop ≤ payload.length then some (stretch payload first stop) else none

/-- An error that names its track. -/
def trackUnsupported (trackId : ℕ) (what : String) : Error :=
  .unsupported ("track " ++ toString trackId ++ ": " ++ what)

/-- The constant vector behind the other fields of a `tenc`, where there is
one. -/
def parseConstantIv (trackId : ℕ) (present : Bool) :
    Reader (Option (List UInt8)) :=
  Reader.optional present do
    let size ← Reader.u8
    let bytes ← Reader.take size
    StateT.lift (okOr (iv16 bytes) (trackUnsupported trackId
      ("a constant IV of " ++ toString size ++ " bytes is not supported")))

/-- The fields of a `tenc`.  Only version 1 has a pattern. -/
def parseTenc (trackId : ℕ) (originalFormat : List UInt8)
    (scheme : SourceScheme) : Reader Sinf := do
  let version ← Reader.fullBox
  Reader.skip 1
  let pattern ← Reader.u8
  let isProtected ← Reader.u8
  if 1 < isProtected then
    Reader.fail (trackUnsupported trackId ("default_isProtected of " ++
      toString isProtected ++ " is not supported"))
  else
    let ivSize ← Reader.u8
    let keyId ← Reader.take 16
    if ¬ (ivSize = 0 ∨ ivSize = 8 ∨ ivSize = 16) then
      Reader.fail (trackUnsupported trackId ("a per-sample IV of " ++
        toString ivSize ++ " bytes is not supported"))
    else
      let constantIv ←
        parseConstantIv trackId (isProtected == 1 && ivSize == 0)
      return {
        originalFormat := originalFormat
        scheme := scheme
        keyId := keyId
        ivSize := ivSize
        constantIv := constantIv
        cryptBlocks := if 1 ≤ version then pattern / 16 else 0
        skipBlocks := if 1 ≤ version then pattern % 16 else 0
        isProtected := isProtected == 1 }

def parseSinf (trackId : ℕ) (sinf : List UInt8) : Result Sinf := do
  let frma ← requiredChild sinf (code 'f' 'r' 'm' 'a')
  let originalFormat ← okOr (bytesAt frma.payload 0 4)
    (invalidMedia "frma is truncated")
  let schm ← requiredChild sinf (code 's' 'c' 'h' 'm')
  let schemeType ← okOr (bytesAt schm.payload 4 8)
    (invalidMedia "schm is truncated")
  let scheme ← okOr (SourceScheme.fromFourcc schemeType)
    (trackUnsupported trackId ("protection scheme `" ++ fourcc schemeType ++
      "` is not supported"))
  let schi ← requiredChild sinf (code 's' 'c' 'h' 'i')
  let tenc ← requiredChild schi.payload (code 't' 'e' 'n' 'c')
  (parseTenc trackId originalFormat scheme).run' tenc.payload

/-! ## `senc` -/

/-- The tables while `senc` boxes are read.  They never take more than
`limit` samples. -/
structure AuxBuilder where
  ivSize : ℕ
  limit : ℕ
  samples : ℕ
  ivs : List UInt8
  subFirst : List ℕ
  subsamples : List Subsample
  deriving DecidableEq, Repr

def readSubsample : Reader Subsample := do
  let clear ← Reader.u16
  let protectedBytes ← Reader.u32
  return ⟨clear, protectedBytes⟩

def readSubsamples : ℕ → Reader (List Subsample)
  | 0 => pure []
  | count + 1 => do
      let subsample ← readSubsample
      let rest ← readSubsamples count
      return subsample :: rest

/-- Where the next row of subsamples starts, if that fits in 32 bits. -/
def subsampleStart (subsamples : List Subsample) : Result ℕ :=
  if subsamples.length < 2 ^ 32 then .ok subsamples.length
  else .error (invalidMedia "senc has too many subsamples")

namespace AuxBuilder

def new (ivSize limit : ℕ) : AuxBuilder where
  ivSize := ivSize
  limit := limit
  samples := 0
  ivs := []
  subFirst := []
  subsamples := []

/-- Takes room for `count` more samples, or refuses. -/
def reserve (builder : AuxBuilder) (count : ℕ) : Result Unit :=
  if builder.limit < builder.samples + count then
    .error (invalidMedia "senc describes more samples than the track has")
  else .ok ()

/-- One entry of a `senc`. -/
def pushEntry (withSubsamples : Bool) (builder : AuxBuilder) :
    Reader AuxBuilder := do
  let iv ← Reader.take builder.ivSize
  let first ← StateT.lift (subsampleStart builder.subsamples)
  let subsamples ← Reader.optional withSubsamples do
    let count ← Reader.u16
    readSubsamples count
  return {
    builder with
    ivs := builder.ivs ++ iv
    subFirst := builder.subFirst ++ [first]
    subsamples := builder.subsamples ++ subsamples.getD [] }

def pushEntries (withSubsamples : Bool) :
    ℕ → AuxBuilder → Reader AuxBuilder
  | 0, builder => pure builder
  | count + 1, builder => do
      let builder ← builder.pushEntry withSubsamples
      pushEntries withSubsamples count builder

/-- A `senc`: a count, which must be `expected` (`what` says of what), then
for each sample a vector and, when the box says so, a subsample map. -/
def readSenc (trackId expected : ℕ) (what : String) (builder : AuxBuilder) :
    Reader AuxBuilder := do
  let (_, flags) ← Reader.fullBoxFlags
  let count ← Reader.u32
  if count ≠ expected then
    Reader.fail (.invalidMedia ("track " ++ toString trackId ++
      ": senc describes " ++ toString count ++ " samples, " ++ what ++
      " has " ++ toString expected))
  else
    let withSubsamples := hasFlag flags 2
    let remaining ← Reader.remaining
    if remaining < count * (builder.ivSize + if withSubsamples then 2 else 0)
    then Reader.fail (invalidMedia "senc sample count exceeds its box")
    else
      StateT.lift (builder.reserve count)
      let builder ← pushEntries withSubsamples count builder
      return { builder with samples := builder.samples + count }

def pushSenc (trackId : ℕ) (payload : List UInt8) (expected : ℕ)
    (what : String) (builder : AuxBuilder) : Result AuxBuilder :=
  (readSenc trackId expected what builder).run' payload

/-- Samples with no entry anywhere: a constant vector, and every sample
protected whole. -/
def pushUnlisted (builder : AuxBuilder) (count : ℕ) : Result AuxBuilder := do
  builder.reserve count
  let first ← subsampleStart builder.subsamples
  .ok
    { builder with
      subFirst := builder.subFirst ++ List.replicate count first
      samples := builder.samples + count }

/-- The finished table.  Where the end of the last row does not fit in 32
bits the code panics, and there is none. -/
def finish (builder : AuxBuilder) : Option AuxTable :=
  if builder.subsamples.isEmpty then
    some ⟨builder.ivSize, builder.ivs, [], []⟩
  else if builder.subsamples.length < 2 ^ 32 then
    some ⟨builder.ivSize, builder.ivs,
      builder.subFirst ++ [builder.subsamples.length], builder.subsamples⟩
  else none

end AuxBuilder

/-! ## Reading a track's protection -/

def protectionOf (sinf : Sinf) (aux : AuxTable) : SourceProtection where
  scheme := sinf.scheme
  originalFormat := sinf.originalFormat
  keyId := sinf.keyId
  constantIv := sinf.constantIv
  cryptBlocks := sinf.cryptBlocks
  skipBlocks := sinf.skipBlocks
  aux := aux

/-- A `roll` group is harmless; one that changes the key is not read. -/
def refuseKeyChanges (trackId : ℕ) (boxes : List RawBox) : Result Unit :=
  if boxes.any fun group => group.name == code 's' 'g' 'p' 'd' &&
      bytesAt group.payload 4 8 == some (code 's' 'e' 'i' 'g') then
    .error (trackUnsupported trackId
      "a sample group that changes the key (seig) is not supported")
  else .ok ()

def saizWithoutSenc (trackId : ℕ) : Error :=
  trackUnsupported trackId
    "sample auxiliary information without a senc box is not supported"

/-- What a progressive file lists for a track's samples; nothing where the
track is not protected. -/
def readAux (trackId : ℕ) (sinf : Sinf) (stbl : List UInt8)
    (sampleCount : ℕ) : Result (Option AuxBuilder) := do
  let boxes ← childBoxes stbl
  -- A clear lead is a track whose default says that it is not protected and
  -- whose later samples are, in a group.
  refuseKeyChanges trackId boxes
  if ¬ sinf.isProtected then .ok none
  else
    let senc ← optionalChild stbl (code 's' 'e' 'n' 'c')
    let saiz ← optionalChild stbl (code 's' 'a' 'i' 'z')
    match senc with
    | some senc => do
        let builder ← AuxBuilder.pushSenc trackId senc.payload sampleCount
          "the track" (.new sinf.ivSize sampleCount)
        .ok (some builder)
    | none =>
        if saiz.isSome then .error (saizWithoutSenc trackId)
        else if sinf.constantIv.isSome then .ok (some (.new 0 0))
        else
          .error (trackUnsupported trackId
            "a protected track needs a senc box, or a constant IV")

/-- The samples that a fragment's runs list. -/
def countRun (total : ℕ) (trun : RawBox) : Result ℕ := do
  let count ← okOr (bytesAt trun.payload 4 8)
    (invalidMedia "trun is truncated")
  okOr (checkedAdd (2 ^ 64) total (decode count))
    (invalidMedia "trun sample counts overflow")

/-- One `traf`'s part in what a fragmented file lists for a track. -/
def readTrafAux (trackId : ℕ) (sinf : Sinf) (builder : AuxBuilder)
    (traf : RawBox) : Result AuxBuilder := do
  let tfhd ← requiredChild traf.payload (code 't' 'f' 'h' 'd')
  if bytesAt tfhd.payload 4 8 ≠ some (encode 4 trackId) then .ok builder
  else
    let parts ← childBoxes traf.payload
    refuseKeyChanges trackId parts
    if ¬ sinf.isProtected then .ok builder
    else
      let samples ← (parts.filter fun part =>
        part.name == code 't' 'r' 'u' 'n').foldlM countRun 0
      match parts.find? fun part => part.name == code 's' 'e' 'n' 'c' with
      | some senc =>
          builder.pushSenc trackId senc.payload samples "the fragment"
      | none =>
          if parts.any fun part => part.name == code 's' 'a' 'i' 'z' then
            .error (saizWithoutSenc trackId)
          else if sinf.constantIv.isSome then builder.pushUnlisted samples
          else
            .error (trackUnsupported trackId ("a protected track needs a " ++
              "senc box in every fragment, or a constant IV"))

def readFragmentAux (trackId : ℕ) (sinf : Sinf) (builder : AuxBuilder)
    (fragment : Fragment) : Result AuxBuilder := do
  let moof ← boxPayload fragment.bytes 0
  let children ← childBoxes moof.payload
  (children.filter fun child => child.name == code 't' 'r' 'a' 'f').foldlM
    (readTrafAux trackId sinf) builder

/-- What a fragmented file lists for a track's samples. -/
def readFragmentedAux (trackId : ℕ) (sinf : Sinf) (stbl : List UInt8)
    (fragments : List Fragment) (sampleCount : ℕ) :
    Result (Option AuxBuilder) := do
  let boxes ← childBoxes stbl
  refuseKeyChanges trackId boxes
  let builder ← fragments.foldlM (readFragmentAux trackId sinf)
    (.new sinf.ivSize sampleCount)
  if ¬ sinf.isProtected then .ok none
  else if builder.samples ≠ sampleCount then
    .error (.invalidMedia ("track " ++ toString trackId ++
      ": the fragments' senc boxes describe " ++ toString builder.samples ++
      " samples, the track has " ++ toString sampleCount))
  else .ok (some builder)

/-- The protection once its tables are read, where they can be finished. -/
def finishProtection (sinf : Sinf) :
    Result (Option AuxBuilder) → Option (Result (Option SourceProtection))
  | .error error => some (.error error)
  | .ok none => some (.ok none)
  | .ok (some builder) =>
      builder.finish.map fun aux => .ok (some (protectionOf sinf aux))

/-- The protection of a track whose sample table is `stbl`. -/
def readProtection (trackId : ℕ) (sinf : Sinf) (stbl : List UInt8)
    (sampleCount : ℕ) : Option (Result (Option SourceProtection)) :=
  finishProtection sinf (readAux trackId sinf stbl sampleCount)

/-- The protection of a track of a fragmented file. -/
def readFragmentedProtection (trackId : ℕ) (sinf : Sinf) (stbl : List UInt8)
    (fragments : List Fragment) (sampleCount : ℕ) :
    Option (Result (Option SourceProtection)) :=
  finishProtection sinf
    (readFragmentedAux trackId sinf stbl fragments sampleCount)

/-! ## Undoing it -/

/-- The data by which the samples of one track are decrypted, and the cipher
under its key. -/
structure TrackDecryption where
  decryptor : SampleDecryptor
  protection : SourceProtection

/-- Decrypts the sample `index` of the file's tables. -/
def TrackDecryption.decryptSample (decryption : TrackDecryption) (index : ℕ)
    (data : List UInt8) : Result (List UInt8) := do
  let aux := decryption.protection.aux
  let iv ← okOr
    (match aux.iv index with
    | some iv => iv16 iv
    | none => decryption.protection.constantIv)
    (.invalidMedia ("sample " ++ toString index ++ " has no IV"))
  decryption.decryptor.decrypt iv data (aux.subsamplesOf index)

end Segmentor
