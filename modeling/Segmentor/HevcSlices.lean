import Segmentor.NalUnits

/-!
# H.265 slice segment headers

Just enough of the syntax to find where each slice segment header ends.  A
header depends on the parameter sets it names down to their reference picture
sets, so those are read far enough to answer what the header asks.
-/

namespace Segmentor.Hevc

open General BitReading Reading

def sliceHeaderBytes : ℕ := 1024
def largeSliceHeaderBytes : ℕ := 64 * 1024
def maxParameterSetBytes : ℕ := 64 * 1024
def maxReferenceSets : ℕ := 64
def maxReferencesPerSet : ℕ := 16
def maxLongTermPictures : ℕ := 32

/-- The pictures before and after the current one that are kept, nearest
first, each with whether the current picture is predicted from it. -/
structure ReferenceSet where
  before : List (ℤ × Bool)
  after : List (ℤ × Bool)
  deriving DecidableEq, Repr

namespace ReferenceSet

def len (set : ReferenceSet) : ℕ :=
  set.before.length + set.after.length

def used (set : ReferenceSet) : ℕ :=
  (set.before ++ set.after).countP Prod.snd

end ReferenceSet

structure Sps where
  chromaArrayType : ℕ
  separateColourPlane : Bool
  /-- It sets the width of a slice segment's address. -/
  picSizeInCtbs : ℕ
  log2MaxPocLsb : ℕ
  sampleAdaptiveOffset : Bool
  referenceSets : List ReferenceSet
  longTermPresent : Bool
  /-- Of each long-term picture listed, whether the current picture uses it. -/
  longTermUsed : List Bool
  temporalMvp : Bool
  deriving DecidableEq, Repr

structure Pps where
  spsId : ℕ
  dependentSliceSegments : Bool
  outputFlagPresent : Bool
  extraSliceHeaderBits : ℕ
  cabacInitPresent : Bool
  numRefIdxL0Default : ℕ
  numRefIdxL1Default : ℕ
  weightedPred : Bool
  weightedBipred : Bool
  sliceChromaQpOffsetsPresent : Bool
  chromaQpOffsetListEnabled : Bool
  deblockingOverrideEnabled : Bool
  deblockingDisabled : Bool
  loopFilterAcrossSlices : Bool
  listsModificationPresent : Bool
  entryPoints : Bool
  headerExtensionPresent : Bool
  deriving DecidableEq, Repr

structure Parameters where
  nalLengthSize : ℕ
  sps : ℕ → Option Sps
  pps : ℕ → Option Pps

def empty (nalLengthSize : ℕ) : Parameters where
  nalLengthSize := nalLengthSize
  sps := fun _ => none
  pps := fun _ => none

/-! ## Numbers -/

def range : Error :=
  .invalidMedia "an H.265 value is out of range"

def bounded (value limit : ℕ) : Result ℕ :=
  if limit < value then
    .error (.invalidMedia "an H.265 reference picture set is too large")
  else .ok value

def ceilLog2 (value : ℕ) : ℕ :=
  if value ≤ 1 then 0 else (value - 1).log2 + 1

/-- The nearest signed word of thirty-two bits. -/
def saturate (value : ℤ) : ℤ :=
  max (-2 ^ 31) (min value (2 ^ 31 - 1))

def signedWord (value : ℕ) : Result ℤ :=
  if value < 2 ^ 31 then .ok value else .error range

def refCount : BitReading ℕ := do
  let code ← ue
  ofExcept (okOr ((checkedAdd (2 ^ 32) code 1).filter fun count => count ≤ 16)
    (.invalidMedia "too many H.265 reference indices"))

/-- A code and one more, as a step in picture order. -/
def pocStep : BitReading ℤ := do
  let code ← ue
  let word ← ofExcept (signedWord code)
  pure (saturate (word + 1))

/-! ## Reference picture sets -/

/-- The pictures on one side, each a step further in the direction of `sign`
than the one in front of it. -/
def explicitSide (sign : ℤ) : ℕ → ℤ → BitReading (List (ℤ × Bool))
  | 0, _ => pure []
  | left + 1, poc => do
      let step ← pocStep
      let poc := saturate (poc + sign * step)
      let used ← bit
      let others ← explicitSide sign left poc
      pure ((poc, used) :: others)

def explicitSet : BitReading ReferenceSet := do
  let code ← ue
  let negative ← ofExcept (bounded code maxReferencesPerSet)
  let code ← ue
  let positive ← ofExcept (bounded code maxReferencesPerSet)
  let before ← explicitSide (-1) negative 0
  let after ← explicitSide 1 positive 0
  pure { before := before, after := after }

/-- Whether a picture of the set built on is used, and whether it is kept. -/
def keepFlags : BitReading (Bool × Bool) := do
  let used ← bit
  let keep ← present (¬ used) bit true
  pure (used, keep)

/-- The pictures of `side`, moved by `deltaRps`, that are kept and end up on
the side of `wanted`; their flags start at `first`. -/
def movedSide (wanted : ℤ → Bool) (deltaRps : ℤ) (flags : List (Bool × Bool))
    (first : ℕ) (side : List ((ℤ × Bool) × ℕ)) : List (ℤ × Bool) :=
  side.filterMap fun ((poc, _), offset) =>
    let moved := saturate (poc + deltaRps)
    let (used, keep) := flags[first + offset]?.getD (false, false)
    if wanted moved && keep then some (moved, used) else none

/-- The picture the set built on belongs to, where it is kept and ends up on
the side of `wanted`. -/
def movedSelf (wanted : ℤ → Bool) (deltaRps : ℤ) (flags : List (Bool × Bool))
    (entries : ℕ) : List (ℤ × Bool) :=
  let (used, keep) := flags[entries]?.getD (false, false)
  if wanted deltaRps && keep then [(deltaRps, used)] else []

def predictedSet (reference : ReferenceSet) (deltaRps : ℤ)
    (flags : List (Bool × Bool)) : ReferenceSet :=
  let negativeCount := reference.before.length
  let entries := reference.len
  let negative : ℤ → Bool := fun moved => moved < 0
  let positive : ℤ → Bool := fun moved => 0 < moved
  { before :=
      movedSide negative deltaRps flags negativeCount
          reference.after.zipIdx.reverse ++
        (movedSelf negative deltaRps flags entries ++
          movedSide negative deltaRps flags 0 reference.before.zipIdx)
    after :=
      movedSide positive deltaRps flags 0 reference.before.zipIdx.reverse ++
        (movedSelf positive deltaRps flags entries ++
          movedSide positive deltaRps flags negativeCount
            reference.after.zipIdx) }

/-- A set built on one of the sets in front of it. -/
def interSet (index count : ℕ) (sets : List ReferenceSet) :
    BitReading ReferenceSet := do
  let code ← present (index = count) ue 0
  let reference ← ofExcept (okOr
    ((checkedSub index (code + 1)).bind fun place => sets[place]?)
    (.invalidMedia "an H.265 reference set names a missing set"))
  let negativeSign ← bit
  let magnitude ← pocStep
  let deltaRps := if negativeSign then -magnitude else magnitude
  let flags ← times (reference.len + 1) keepFlags
  pure (predictedSet reference deltaRps flags)

/-- The set at `index` of `count`; in a slice header the index is the
count. -/
def setAt (index count : ℕ) (sets : List ReferenceSet) :
    BitReading ReferenceSet := do
  let inter ← present (index ≠ 0) bit false
  if inter then interSet index count sets else explicitSet

/-- The sets of a sequence after `sets`, `left` more of `count`. -/
def setsAfter (count : ℕ) : ℕ → List ReferenceSet →
    BitReading (List ReferenceSet)
  | 0, sets => pure sets
  | left + 1, sets => do
      let set ← setAt sets.length count sets
      setsAfter count left (sets ++ [set])

/-! ## Parameter sets -/

/-- Profile, tier and level; profiles with more slice header fields are
refused. -/
def profileTierLevel (maxSubLayersMinus1 : ℕ) : BitReading Unit := do
  skip 3
  let profile ← bits 5
  if 6 ≤ profile ∧ profile ≤ 11 then
    fail (.unsupported s!"H.265 profile {profile} cannot be encrypted")
  else
    skip (32 + 4 + 43 + 1 + 8)
    let layers ← times maxSubLayersMinus1 (do
      let profilePresent ← bit
      let levelPresent ← bit
      pure (profilePresent, levelPresent))
    present (0 < maxSubLayersMinus1) (skip (2 * (8 - maxSubLayersMinus1))) ()
    forEach layers fun (profilePresent, levelPresent) => do
      present profilePresent (skip 88) ()
      present levelPresent (skip 8) ()

/-- One scaling list of the blocks of a size: its own coefficients, or the
number of the one it copies. -/
def scalingList (sizeId : ℕ) : BitReading Unit := do
  let own ← bit
  if own then
    let _ ← present (1 < sizeId) se 0
    let _ ← times (min 64 (2 ^ (4 + 2 * sizeId))) se
    pure ()
  else
    let _ ← ue
    pure ()

def scalingListData : BitReading Unit :=
  forEach [0, 1, 2, 3] fun sizeId => do
    let _ ← times (if sizeId = 3 then 2 else 6) (scalingList sizeId)
    pure ()

/-- A number of bits, `least` more than its code and at most `most`. -/
def widthBetween (least most : ℕ) : BitReading ℕ := do
  let code ← ue
  ofExcept (okOr ((checkedAdd (2 ^ 32) code least).filter fun width =>
    width ≤ most) range)

def longTermListed (log2MaxPocLsb : ℕ) : BitReading (List Bool) := do
  let code ← ue
  let count ← ofExcept (bounded code maxLongTermPictures)
  times count (do
    skip log2MaxPocLsb
    bit)

/-- The fields of a sequence parameter set between its id and its reference
picture sets. -/
structure SpsFront where
  chromaFormatIdc : ℕ
  separateColourPlane : Bool
  width : ℕ
  height : ℕ
  log2MaxPocLsb : ℕ
  log2Ctb : ℕ
  sampleAdaptiveOffset : Bool
  deriving DecidableEq, Repr

def spsFront (maxSubLayersMinus1 : ℕ) : BitReading SpsFront := do
  let chromaFormatIdc ← ue
  if 3 < chromaFormatIdc then
    fail (.invalidMedia "an H.265 chroma format is out of range")
  else
    let separateColourPlane ← present (chromaFormatIdc = 3) bit false
    let width ← ue
    let height ← ue
    let cropped ← bit
    let _ ← present cropped (times 4 ue) []
    let _ ← ue
    let _ ← ue
    let log2MaxPocLsb ← widthBetween 4 16
    let orderingInfoPresent ← bit
    let firstLayer := if orderingInfoPresent then 0 else maxSubLayersMinus1
    let _ ← times (maxSubLayersMinus1 + 1 - firstLayer) (times 3 ue)
    let log2MinCb ← widthBetween 3 6
    let log2Ctb ← widthBetween log2MinCb 6
    let _ ← times 4 ue
    let scalingEnabled ← bit
    let scalingPresent ← present scalingEnabled bit false
    present scalingPresent scalingListData ()
    skip 1
    let sampleAdaptiveOffset ← bit
    let pcm ← bit
    present pcm (do
      skip 8
      let _ ← times 2 ue
      skip 1) ()
    pure
      { chromaFormatIdc := chromaFormatIdc
        separateColourPlane := separateColourPlane
        width := width
        height := height
        log2MaxPocLsb := log2MaxPocLsb
        log2Ctb := log2Ctb
        sampleAdaptiveOffset := sampleAdaptiveOffset }

def divCeil (value divisor : ℕ) : ℕ :=
  (value + divisor - 1) / divisor

def spsFields : BitReading (ℕ × Sps) := do
  skip 16
  skip 4
  let maxSubLayersMinus1 ← bits 3
  skip 1
  profileTierLevel maxSubLayersMinus1
  let id ← ue
  let front ← spsFront maxSubLayersMinus1
  let code ← ue
  let count ← ofExcept (bounded code maxReferenceSets)
  let referenceSets ← setsAfter count count []
  let longTermPresent ← bit
  let longTermUsed ← present longTermPresent
    (longTermListed front.log2MaxPocLsb) []
  let temporalMvp ← bit
  let ctb := 2 ^ front.log2Ctb
  pure (id,
    { chromaArrayType :=
        if front.separateColourPlane then 0 else front.chromaFormatIdc
      separateColourPlane := front.separateColourPlane
      picSizeInCtbs := divCeil front.width ctb * divCeil front.height ctb
      log2MaxPocLsb := front.log2MaxPocLsb
      sampleAdaptiveOffset := front.sampleAdaptiveOffset
      referenceSets := referenceSets
      longTermPresent := longTermPresent
      longTermUsed := longTermUsed
      temporalMvp := temporalMvp })

/-- The sizes of tiles, where they are not uniform. -/
def tileFields : BitReading Unit := do
  let code ← ue
  let columns ← ofExcept (bounded code 255)
  let code ← ue
  let rows ← ofExcept (bounded code 255)
  let uniform ← bit
  let _ ← present (¬ uniform) (times (columns + rows) ue) []
  skip 1

/-- Whether slices may override deblocking, and whether it is off for those
that do not. -/
def deblockingControl : BitReading (Bool × Bool) := do
  let overrideEnabled ← bit
  let disabled ← bit
  let _ ← present (¬ disabled) (times 2 se) []
  pure (overrideEnabled, disabled)

/-- The extensions; gives whether slices list chroma offsets. -/
def ppsExtension (transformSkip : Bool) : BitReading Bool := do
  let rangeExtension ← bit
  let multilayer ← bit
  let threeD ← bit
  let screenContent ← bit
  skip 4
  if multilayer ∨ threeD ∨ screenContent then
    fail (.unsupported ("H.265 multilayer, 3D, and screen-content extensions " ++
      "cannot be encrypted"))
  else
    present rangeExtension (do
      let _ ← present transformSkip ue 0
      skip 1
      bit) false

def ppsFields : BitReading (ℕ × Pps) := do
  skip 16
  let id ← ue
  let spsId ← ue
  let dependentSliceSegments ← bit
  let outputFlagPresent ← bit
  let extraSliceHeaderBits ← bits 3
  skip 1
  let cabacInitPresent ← bit
  let numRefIdxL0Default ← refCount
  let numRefIdxL1Default ← refCount
  let _ ← se
  skip 1
  let transformSkip ← bit
  let quantDelta ← bit
  let _ ← present quantDelta ue 0
  let _ ← times 2 se
  let sliceChromaQpOffsetsPresent ← bit
  let weightedPred ← bit
  let weightedBipred ← bit
  skip 1
  let tiles ← bit
  let wavefronts ← bit
  present tiles tileFields ()
  let loopFilterAcrossSlices ← bit
  let deblockingControlled ← bit
  let (deblockingOverrideEnabled, deblockingDisabled) ←
    present deblockingControlled deblockingControl (false, false)
  let scaled ← bit
  present scaled scalingListData ()
  let listsModificationPresent ← bit
  let _ ← ue
  let headerExtensionPresent ← bit
  let extended ← bit
  let chromaQpOffsetListEnabled ←
    present extended (ppsExtension transformSkip) false
  pure (id,
    { spsId := spsId
      dependentSliceSegments := dependentSliceSegments
      outputFlagPresent := outputFlagPresent
      extraSliceHeaderBits := extraSliceHeaderBits
      cabacInitPresent := cabacInitPresent
      numRefIdxL0Default := numRefIdxL0Default
      numRefIdxL1Default := numRefIdxL1Default
      weightedPred := weightedPred
      weightedBipred := weightedBipred
      sliceChromaQpOffsetsPresent := sliceChromaQpOffsetsPresent
      chromaQpOffsetListEnabled := chromaQpOffsetListEnabled
      deblockingOverrideEnabled := deblockingOverrideEnabled
      deblockingDisabled := deblockingDisabled
      loopFilterAcrossSlices := loopFilterAcrossSlices
      listsModificationPresent := listsModificationPresent
      entryPoints := tiles || wavefronts
      headerExtensionPresent := headerExtensionPresent })

def parseSps (nal : List UInt8) : Result (ℕ × Sps) :=
  (spsFields.run (Rbsp.new nal maxParameterSetBytes).reader).map Prod.fst

def parsePps (nal : List UInt8) : Result (ℕ × Pps) :=
  (ppsFields.run (Rbsp.new nal maxParameterSetBytes).reader).map Prod.fst

/-- The type of a NAL unit, from its first byte. -/
def nalType (header : UInt8) : ℕ :=
  header.toNat / 2 % 64

/-- Takes in a parameter set; other NAL units are ignored. -/
def Parameters.update (parameters : Parameters) (nal : List UInt8) :
    Result Parameters :=
  match nal.head?.map nalType with
  | some 33 => do
      let (id, sps) ← parseSps nal
      .ok { parameters with sps := Function.update parameters.sps id (some sps) }
  | some 34 => do
      let (id, pps) ← parsePps nal
      .ok { parameters with pps := Function.update parameters.pps id (some pps) }
  | _ => .ok parameters

/-! ## Slice segment headers -/

/-- Changes of one list: a flag, then an entry for each active reference. -/
def listModification (active width : ℕ) : BitReading Unit := do
  let modified ← bit
  let _ ← present modified (times active (skip width)) []
  pure ()

/-- The weights of the references of one list. -/
def listWeights (chroma count : ℕ) : BitReading Unit := do
  let luma ← times count bit
  let chromaFlags ← present (chroma ≠ 0) (times count bit) []
  forEach luma.zipIdx fun (weighted, index) => do
    let _ ← present weighted (times 2 se) []
    let _ ← present (chromaFlags[index]?.getD false) (times 4 se) []
    pure ()

def predWeightTable (chroma l0 l1 : ℕ) : BitReading Unit := do
  let _ ← ue
  let _ ← present (chroma ≠ 0) se 0
  listWeights chroma l0
  listWeights chroma l1

/-- The short-term set of a picture, and how many of it are used. -/
def shortTermUsed (sps : Sps) : BitReading ℕ := do
  let count := sps.referenceSets.length
  let fromSps ← bit
  if fromSps then
    let index ← present (1 < count) (bits (ceilLog2 count)) 0
    let set ← ofExcept (okOr sps.referenceSets[index]?
      (.invalidMedia "a slice names a missing reference picture set"))
    pure set.used
  else
    let set ← setAt count count sps.referenceSets
    pure set.used

/-- A long-term picture that the sequence lists; gives whether it is used. -/
def listedLongTerm (sps : Sps) : BitReading Bool := do
  let which ← present (1 < sps.longTermUsed.length)
    (bits (ceilLog2 sps.longTermUsed.length)) 0
  let msbPresent ← bit
  let _ ← present msbPresent ue 0
  pure (sps.longTermUsed[which]?.getD false)

/-- A long-term picture of the slice's own; gives whether it is used. -/
def ownLongTerm (sps : Sps) : BitReading Bool := do
  skip sps.log2MaxPocLsb
  let used ← bit
  let msbPresent ← bit
  let _ ← present msbPresent ue 0
  pure used

/-- How many long-term pictures are used. -/
def longTermUsed (sps : Sps) : BitReading ℕ := do
  let listed ← present (0 < sps.longTermUsed.length) ue 0
  let explicit ← ue
  let _ ← ofExcept (okOr ((checkedAdd (2 ^ 32) listed explicit).filter
    fun total => total ≤ maxLongTermPictures)
    (.invalidMedia "too many H.265 long-term pictures"))
  let fromSps ← times listed (listedLongTerm sps)
  let own ← times explicit (ownLongTerm sps)
  pure ((fromSps ++ own).count true)

/-- The pictures a picture refers to: how many are used, and whether motion
is predicted from them. -/
def pictureReferences (sps : Sps) : BitReading (ℕ × Bool) := do
  skip sps.log2MaxPocLsb
  let shortTerm ← shortTermUsed sps
  let longTerm ← present sps.longTermPresent (longTermUsed sps) 0
  let temporalMvp ← present sps.temporalMvp bit false
  pure (shortTerm + longTerm, temporalMvp)

/-- The fields of slices predicted from other pictures. -/
def interFields (sps : Sps) (pps : Pps) (b : Bool) (picturesTotal : ℕ)
    (temporalMvp : Bool) : BitReading Unit := do
  let overridden ← bit
  let l0 ← present overridden refCount pps.numRefIdxL0Default
  let l1 ← present (overridden ∧ b) refCount pps.numRefIdxL1Default
  let modified : Bool := pps.listsModificationPresent ∧ 1 < picturesTotal
  present modified (listModification l0 (ceilLog2 picturesTotal)) ()
  present (modified ∧ b) (listModification l1 (ceilLog2 picturesTotal)) ()
  present b (skip 1) ()
  present pps.cabacInitPresent (skip 1) ()
  let fromL0 ← present (temporalMvp ∧ b) bit true
  let _ ← present (temporalMvp ∧
    ((fromL0 ∧ 1 < l0) ∨ (¬ fromL0 ∧ 1 < l1))) ue 0
  present ((pps.weightedPred ∧ ¬ b) ∨ (pps.weightedBipred ∧ b))
    (predWeightTable sps.chromaArrayType l0 (if b then l1 else 0)) ()
  let _ ← ue
  pure ()

/-- Whether deblocking is off. -/
def sliceDeblocking (pps : Pps) : BitReading Bool := do
  let overridden ← present pps.deblockingOverrideEnabled bit false
  let disabled ← present overridden bit pps.deblockingDisabled
  let _ ← present (overridden ∧ ¬ disabled) (times 2 se) []
  pure disabled

/-- The fields that a dependent slice segment takes from the one before it. -/
def sliceFields (sps : Sps) (pps : Pps) (idr : Bool) : BitReading Unit := do
  skip pps.extraSliceHeaderBits
  let sliceType ← ue
  if 2 < sliceType then
    fail (.invalidMedia "an H.265 slice type is out of range")
  else
    present pps.outputFlagPresent (skip 1) ()
    present sps.separateColourPlane (skip 2) ()
    let (picturesTotal, temporalMvp) ←
      present (¬ idr) (pictureReferences sps) (0, false)
    let saoLuma ← present sps.sampleAdaptiveOffset bit false
    let saoChroma ← present
      (sps.sampleAdaptiveOffset ∧ sps.chromaArrayType ≠ 0) bit false
    present (sliceType ≠ 2)
      (interFields sps pps (sliceType = 0) picturesTotal temporalMvp) ()
    let _ ← se
    let _ ← present pps.sliceChromaQpOffsetsPresent (times 2 se) []
    present pps.chromaQpOffsetListEnabled (skip 1) ()
    let deblockingDisabled ← sliceDeblocking pps
    present (pps.loopFilterAcrossSlices ∧
      (saoLuma ∨ saoChroma ∨ ¬ deblockingDisabled)) (skip 1) ()

def entryPointWidth : BitReading ℕ := do
  let code ← ue
  ofExcept (okOr ((checkedAdd (2 ^ 32) code 1).filter fun width => width ≤ 32)
    (.invalidMedia "an H.265 entry point width is out of range"))

def entryPoints : BitReading Unit := do
  let count ← ue
  present (0 < count) (do
    let width ← entryPointWidth
    let _ ← times count (skip width)
    pure ()) ()

def headerExtension : BitReading Unit := do
  let length ← ue
  skip (8 * length)

/-- The sets a slice is read with. -/
def Parameters.sets (parameters : Parameters) (ppsId : ℕ) :
    Result (Sps × Pps) := do
  let pps ← okOr (parameters.pps ppsId)
    (.invalidMedia "a slice names an unknown PPS")
  let sps ← okOr (parameters.sps pps.spsId)
    (.invalidMedia "a PPS names an unknown SPS")
  .ok (sps, pps)

/-- A slice segment header up to the id of its picture parameter set. -/
structure SliceFront where
  nalType : ℕ
  firstSliceSegment : Bool
  ppsId : ℕ
  deriving DecidableEq, Repr

def sliceFront : BitReading SliceFront := do
  skip 1
  let nalType ← bits 6
  let layerId ← bits 6
  skip 3
  if ¬ (nalType ≤ 9 ∨ (16 ≤ nalType ∧ nalType ≤ 21)) then
    fail (.unsupported s!"H.265 NAL unit type {nalType} cannot be encrypted")
  else if layerId ≠ 0 then
    fail (.unsupported
      "H.265 layers above the base layer cannot be encrypted")
  else
    let firstSliceSegment ← bit
    present (16 ≤ nalType ∧ nalType ≤ 23) (skip 1) ()
    let ppsId ← ue
    pure
      { nalType := nalType
        firstSliceSegment := firstSliceSegment
        ppsId := ppsId }

/-- The fields of a slice segment header behind that id, up to its
alignment. -/
def sliceBack (sps : Sps) (pps : Pps) (front : SliceFront) :
    BitReading Unit := do
  let dependent ←
    present (¬ front.firstSliceSegment ∧ pps.dependentSliceSegments) bit false
  present (¬ front.firstSliceSegment) (skip (ceilLog2 sps.picSizeInCtbs)) ()
  present (¬ dependent)
    (sliceFields sps pps (front.nalType = 19 ∨ front.nalType = 20)) ()
  present pps.entryPoints entryPoints ()
  present pps.headerExtensionPresent headerExtension ()

/-- A slice segment header up to its alignment, the two bytes in front of it
included. -/
def sliceHeader (parameters : Parameters) : BitReading Unit := do
  let front ← sliceFront
  let (sps, pps) ← ofExcept (parameters.sets front.ppsId)
  sliceBack sps pps front

/-- How many bits of the payload the header takes, with the one bit and the
zero bits that bring it to a byte's end. -/
def Parameters.headerBits (parameters : Parameters) (rbsp : Rbsp) :
    Result ℕ :=
  ((sliceHeader parameters).run rbsp.reader).map fun read =>
    (read.2.bit / 8 + 1) * 8

/-- What must stay clear, from the first `limit` bytes of the unit. -/
def Parameters.attempt (parameters : Parameters) (nal : List UInt8)
    (limit : ℕ) : Result ℕ := do
  let bits ← parameters.headerBits (Rbsp.new nal limit)
  okOr ((Rbsp.new nal limit).nalBytesCovering bits)
    (.invalidMedia "a slice header is truncated")

/-- How many bytes of a slice segment's NAL unit must stay clear. -/
def Parameters.clearBytes (parameters : Parameters) (nal : List UInt8) :
    Result ℕ :=
  match parameters.attempt nal sliceHeaderBytes with
  | .ok count => .ok count
  | .error error =>
      if sliceHeaderBytes < nal.length then
        parameters.attempt nal largeSliceHeaderBytes
      else .error error

/-! ## What a slice depends on -/

/-- The picture parameter set a slice names. -/
def Names (nal : List UInt8) (ppsId : ℕ) : Prop :=
  ∃ limit front stop, sliceFront.run (Rbsp.new nal limit).reader =
    .ok (front, stop) ∧ front.ppsId = ppsId

theorem Parameters.clearBytes_congr {a b : Parameters} {nal : List UInt8}
    (h : ∀ ppsId, Names nal ppsId → a.sets ppsId = b.sets ppsId) :
    a.clearBytes nal = b.clearBytes nal := by
  have hattempt : ∀ limit, a.attempt nal limit = b.attempt nal limit := by
    intro limit
    have hheader : a.headerBits (Rbsp.new nal limit) =
        b.headerBits (Rbsp.new nal limit) := by
      unfold headerBits sliceHeader
      rw [run_bind_congr fun front stop hfront => ?_]
      rw [h front.ppsId ⟨limit, front, stop, hfront, rfl⟩]
    unfold attempt
    rw [hheader]
  unfold clearBytes
  rw [hattempt, hattempt]

end Segmentor.Hevc
