import Segmentor.AvcSlices
import Segmentor.NalSyntax

/-!
# The syntax of H.264 headers

The parameter sets and slice headers of the standard as values, and the bits
each is written as: 7.3.2.1.1, 7.3.2.2 and 7.3.3 without slice groups.  Every
value carries the range the standard gives it.
-/

namespace Segmentor.Avc

open General

/-- The byte in front of a NAL unit. -/
def nalHeader (refIdc : Fin 4) (nalUnitType : ℕ) : List Bool :=
  [false] ++ toBits 2 refIdc ++ toBits 5 nalUnitType

/-! ## Sequence parameter sets -/

/-- The deltas of a scaling list, of which the list has those up to the first
that makes a scale zero. -/
abbrev ScalingDeltas := ℕ → SeValue

/-- The deltas from the one at `index` on, `left` scales being left. -/
def scalingListBits (deltas : ScalingDeltas) : ℕ → ℕ → ℤ → ℤ → List Bool
  | 0, _, _, _ => []
  | left + 1, index, lastScale, nextScale =>
      if nextScale = 0 then
        scalingListBits deltas left index lastScale nextScale
      else
        let scale := (lastScale + (deltas index).1 + 256) % 256
        (deltas index).bits ++
          scalingListBits deltas left (index + 1)
            (if scale = 0 then lastScale else scale) scale

/-- The lists of a scaling matrix: some are there, the others fall back. -/
abbrev ScalingMatrix := ℕ → Option ScalingDeltas

def scalingMatrixBits (matrix : ScalingMatrix) (lists : ℕ) : List Bool :=
  (List.range lists).flatMap fun index =>
    announced (fun deltas =>
      scalingListBits deltas (if index < 6 then 16 else 64) 0 8 8)
      (matrix index)

/-- What sequences of the high profiles say of their samples. -/
structure HighSyntax where
  chromaFormatIdc : Fin 4
  separateColourPlane : Bool
  bitDepthLuma : UeValue
  bitDepthChroma : UeValue
  transformBypass : Bool
  scalingMatrix : Option ScalingMatrix

namespace HighSyntax

variable (high : HighSyntax)

def bits : List Bool :=
  [golomb high.chromaFormatIdc,
    if high.chromaFormatIdc.1 = 3 then [high.separateColourPlane] else [],
    high.bitDepthLuma.bits, high.bitDepthChroma.bits, [high.transformBypass],
    announced (fun matrix => scalingMatrixBits matrix
      (if high.chromaFormatIdc.1 = 3 then 12 else 8))
      high.scalingMatrix].flatten

/-- Whether the planes are coded apart, which only three full ones can be. -/
def separate : Bool :=
  high.chromaFormatIdc.1 = 3 && high.separateColourPlane

end HighSyntax

/-- How pictures tell their place in the output order. -/
inductive PictureOrder
  | lsb (log2MaxLsbMinus4 : Fin 13)
  | cycle (deltaAlwaysZero : Bool) (nonRef topToBottom : SeValue)
      (offsets : List SeValue) (short : offsets.length ≤ 255)
  | decodeOrder

namespace PictureOrder

def type : PictureOrder → ℕ
  | .lsb _ => 0
  | .cycle .. => 1
  | .decodeOrder => 2

def fieldBits : PictureOrder → List Bool
  | .lsb log2 => golomb log2
  | .cycle deltaAlwaysZero nonRef topToBottom offsets _ =>
      [[deltaAlwaysZero], nonRef.bits, topToBottom.bits, golomb offsets.length,
        offsets.flatMap SeValue.bits].flatten
  | .decodeOrder => []

def log2MaxLsb : PictureOrder → ℕ
  | .lsb log2 => log2 + 4
  | _ => 0

def deltaAlwaysZero : PictureOrder → Bool
  | .cycle deltaAlwaysZero .. => deltaAlwaysZero
  | _ => false

end PictureOrder

structure SpsSyntax where
  refIdc : Fin 4
  profileIdc : Fin (2 ^ 8)
  constraintsAndLevel : Fin (2 ^ 16)
  id : UeValue
  high : HighSyntax
  log2MaxFrameNumMinus4 : Fin 13
  pictureOrder : PictureOrder
  maxNumRefFrames : UeValue
  gapsInFrameNum : Bool
  widthInMbs : UeValue
  heightInMapUnits : UeValue
  frameMbsOnly : Bool

namespace SpsSyntax

variable (sps : SpsSyntax)

def hasHigh : Prop :=
  sps.profileIdc.1 ∈
    [100, 110, 122, 244, 44, 83, 86, 118, 128, 138, 139, 134, 135]

instance : Decidable sps.hasHigh :=
  inferInstanceAs (Decidable (sps.profileIdc.1 ∈
    [100, 110, 122, 244, 44, 83, 86, 118, 128, 138, 139, 134, 135]))

/-- The set up to the last field that slice headers depend on. -/
def fields : List (List Bool) :=
  [nalHeader sps.refIdc 7, toBits 8 sps.profileIdc,
    toBits 16 sps.constraintsAndLevel, sps.id.bits,
    if sps.hasHigh then sps.high.bits else [],
    golomb sps.log2MaxFrameNumMinus4, golomb sps.pictureOrder.type,
    sps.pictureOrder.fieldBits, sps.maxNumRefFrames.bits, [sps.gapsInFrameNum],
    sps.widthInMbs.bits, sps.heightInMapUnits.bits, [sps.frameMbsOnly]]

def bits : List Bool :=
  sps.fields.flatten

/-- The chroma format, 4:2:0 where there is no other, and whether the planes
are coded apart. -/
def chroma : ℕ × Bool :=
  if sps.hasHigh then (sps.high.chromaFormatIdc, sps.high.separate)
  else (1, false)

def separateColourPlane : Bool :=
  sps.chroma.2

/-- Zero where there is no chroma, or where its planes are coded as luma. -/
def chromaArrayType : ℕ :=
  if sps.separateColourPlane then 0 else sps.chroma.1

end SpsSyntax

/-! ## Picture parameter sets -/

structure PpsSyntax where
  refIdc : Fin 4
  id : UeValue
  spsId : UeValue
  entropyCodingMode : Bool
  bottomFieldPicOrderInFramePresent : Bool
  numRefIdxL0DefaultMinus1 : Fin 32
  numRefIdxL1DefaultMinus1 : Fin 32
  weightedPred : Bool
  weightedBipredIdc : Fin (2 ^ 2)
  picInitQp : SeValue
  picInitQs : SeValue
  chromaQpIndexOffset : SeValue
  deblockingFilterControlPresent : Bool
  constrainedIntraPred : Bool
  redundantPicCntPresent : Bool

namespace PpsSyntax

variable (pps : PpsSyntax)

def fields : List (List Bool) :=
  [nalHeader pps.refIdc 8, pps.id.bits, pps.spsId.bits,
    [pps.entropyCodingMode], [pps.bottomFieldPicOrderInFramePresent],
    golomb 0, golomb pps.numRefIdxL0DefaultMinus1,
    golomb pps.numRefIdxL1DefaultMinus1, [pps.weightedPred],
    toBits 2 pps.weightedBipredIdc, pps.picInitQp.bits, pps.picInitQs.bits,
    pps.chromaQpIndexOffset.bits, [pps.deblockingFilterControlPresent],
    [pps.constrainedIntraPred], [pps.redundantPicCntPresent]]

def bits : List Bool :=
  pps.fields.flatten

end PpsSyntax

/-! ## Slice headers -/

/-- Changes of a reference list: picture numbers below or above, or long-term
ones. -/
abbrev ListModification := List (Fin 3 × UeValue)

def listModificationBits : Option ListModification → List Bool :=
  announced fun changes =>
    (changes.flatMap fun change => golomb change.1 ++ change.2.bits) ++
      golomb 3

/-- The weights of one reference picture, as far as it has some. -/
structure Weights where
  luma : Option (SeValue × SeValue)
  chroma : Option ((SeValue × SeValue) × (SeValue × SeValue))

def Weights.bits (weights : Weights) (chromaArrayType : ℕ) : List Bool :=
  announced (fun pair => pair.1.bits ++ pair.2.bits) weights.luma ++
  if chromaArrayType ≠ 0 then
    announced (fun pairs => pairs.1.1.bits ++ pairs.1.2.bits ++
      pairs.2.1.bits ++ pairs.2.2.bits) weights.chroma
  else []

/-- The weights of every reference of both lists. -/
structure WeightTable where
  lumaLog2Denom : UeValue
  chromaLog2Denom : UeValue
  l0 : ℕ → Weights
  l1 : ℕ → Weights

def WeightTable.bits (table : WeightTable) (chromaArrayType l0 l1 : ℕ) :
    List Bool :=
  [table.lumaLog2Denom.bits,
    if chromaArrayType ≠ 0 then table.chromaLog2Denom.bits else [],
    (List.range l0).flatMap fun index =>
      (table.l0 index).bits chromaArrayType,
    (List.range l1).flatMap fun index =>
      (table.l1 index).bits chromaArrayType].flatten

/-- The marking operations, but for the one that ends them. -/
inductive Marking
  | forgetShortTerm (differenceOfPicNums : UeValue)
  | forgetLongTerm (longTermPicNum : UeValue)
  | keepShortTerm (differenceOfPicNums longTermFrameIdx : UeValue)
  | limitLongTerm (maxLongTermFrameIdx : UeValue)
  | forgetAll
  | keepCurrent (longTermFrameIdx : UeValue)

def Marking.bits : Marking → List Bool
  | .forgetShortTerm difference => golomb 1 ++ difference.bits
  | .forgetLongTerm number => golomb 2 ++ number.bits
  | .keepShortTerm difference place =>
      golomb 3 ++ (difference.bits ++ place.bits)
  | .limitLongTerm most => golomb 4 ++ most.bits
  | .forgetAll => golomb 5
  | .keepCurrent place => golomb 6 ++ place.bits

/-- How reference pictures are marked after a picture. -/
structure MarkingSyntax where
  noOutputOfPriorPics : Bool
  longTermReference : Bool
  operations : Option (List Marking)

def MarkingSyntax.bits (marking : MarkingSyntax) (idr : Bool) : List Bool :=
  if idr then [marking.noOutputOfPriorPics, marking.longTermReference]
  else
    announced (fun operations =>
      operations.flatMap Marking.bits ++ golomb 0) marking.operations

structure SliceSyntax where
  refIdc : Fin 4
  /-- Whether the unit is of type 5 and not 1. -/
  idr : Bool
  firstMb : UeValue
  sliceType : Fin 10
  colourPlaneId : Fin 4
  frameNum : ℕ
  fieldPic : Bool
  bottomField : Bool
  idrPicId : UeValue
  picOrderCntLsb : ℕ
  deltaPicOrderCntBottom : SeValue
  deltaPicOrderCnt0 : SeValue
  deltaPicOrderCnt1 : SeValue
  redundantPicCnt : UeValue
  directSpatialMvPred : Bool
  /-- The numbers of active references in place of the set's, less one. -/
  numRefIdxOverride : Option (Fin 32 × Fin 32)
  modificationL0 : Option ListModification
  modificationL1 : Option ListModification
  weights : WeightTable
  marking : MarkingSyntax
  cabacInitIdc : UeValue
  sliceQpDelta : SeValue
  spForSwitch : Bool
  sliceQsDelta : SeValue
  disableDeblockingFilterIdc : UeValue
  sliceAlphaOffset : SeValue
  sliceBetaOffset : SeValue

namespace SliceSyntax

variable (slice : SliceSyntax) (sps : SpsSyntax) (pps : PpsSyntax)

def nalUnitType : ℕ :=
  if slice.idr then 5 else 1

def isP : Bool := slice.sliceType.1 % 5 = 0
def isB : Bool := slice.sliceType.1 % 5 = 1
def isI : Bool := slice.sliceType.1 % 5 = 2
def isSp : Bool := slice.sliceType.1 % 5 = 3
def isSi : Bool := slice.sliceType.1 % 5 = 4

/-- A picture is one field only where not all are frames. -/
def isField : Bool :=
  !sps.frameMbsOnly && slice.fieldPic

def activeL0 : ℕ :=
  slice.numRefIdxOverride.elim pps.numRefIdxL0DefaultMinus1.1
    (fun counts => counts.1.1) + 1

def activeL1 : ℕ :=
  slice.numRefIdxOverride.elim pps.numRefIdxL1DefaultMinus1.1
    (fun counts => counts.2.1) + 1

def numRefIdxBits : List Bool :=
  announced (fun counts =>
    golomb counts.1 ++ if slice.isB then golomb counts.2 else [])
    slice.numRefIdxOverride

/-- The header up to the id of its picture parameter set. -/
def frontFields : List (List Bool) :=
  [nalHeader slice.refIdc slice.nalUnitType, slice.firstMb.bits,
    golomb slice.sliceType, pps.id.bits]

/-- The header behind that id. -/
def backFields : List (List Bool) :=
  [if sps.separateColourPlane then toBits 2 slice.colourPlaneId else [],
    toBits (sps.log2MaxFrameNumMinus4 + 4) slice.frameNum,
    if ¬ sps.frameMbsOnly then [slice.fieldPic] else [],
    if slice.isField sps then [slice.bottomField] else [],
    if slice.idr then slice.idrPicId.bits else [],
    if sps.pictureOrder.type = 0 then
      toBits sps.pictureOrder.log2MaxLsb slice.picOrderCntLsb else [],
    if sps.pictureOrder.type = 0 ∧
        pps.bottomFieldPicOrderInFramePresent ∧ ¬ slice.isField sps then
      slice.deltaPicOrderCntBottom.bits else [],
    if sps.pictureOrder.type = 1 ∧ ¬ sps.pictureOrder.deltaAlwaysZero then
      slice.deltaPicOrderCnt0.bits else [],
    if (sps.pictureOrder.type = 1 ∧ ¬ sps.pictureOrder.deltaAlwaysZero) ∧
        pps.bottomFieldPicOrderInFramePresent ∧ ¬ slice.isField sps then
      slice.deltaPicOrderCnt1.bits else [],
    if pps.redundantPicCntPresent then slice.redundantPicCnt.bits else [],
    if slice.isB then [slice.directSpatialMvPred] else [],
    if slice.isP ∨ slice.isSp ∨ slice.isB then slice.numRefIdxBits else [],
    if ¬ slice.isI ∧ ¬ slice.isSi then
      listModificationBits slice.modificationL0 else [],
    if slice.isB then listModificationBits slice.modificationL1 else [],
    if (pps.weightedPred ∧ (slice.isP ∨ slice.isSp)) ∨
        (pps.weightedBipredIdc.1 = 1 ∧ slice.isB) then
      slice.weights.bits sps.chromaArrayType (slice.activeL0 pps)
        (if slice.isB then slice.activeL1 pps else 0) else [],
    if slice.refIdc.1 ≠ 0 then slice.marking.bits slice.idr else [],
    if pps.entropyCodingMode ∧ ¬ slice.isI ∧ ¬ slice.isSi then
      slice.cabacInitIdc.bits else [],
    slice.sliceQpDelta.bits,
    if slice.isSp then [slice.spForSwitch] else [],
    if slice.isSp ∨ slice.isSi then slice.sliceQsDelta.bits else [],
    if pps.deblockingFilterControlPresent then
      slice.disableDeblockingFilterIdc.bits else [],
    if pps.deblockingFilterControlPresent ∧
        slice.disableDeblockingFilterIdc.1 ≠ 1 then
      slice.sliceAlphaOffset.bits ++ slice.sliceBetaOffset.bits else []]

/-- A slice header with the byte in front of it. -/
def bits : List Bool :=
  (slice.frontFields pps ++ slice.backFields sps pps).flatten

/-- At most sixty-four changes of each list and marking operations. -/
structure Bounded : Prop where
  modificationL0 : ∀ changes ∈ slice.modificationL0, changes.length ≤ 64
  modificationL1 : ∀ changes ∈ slice.modificationL1, changes.length ≤ 64
  marking : ∀ operations ∈ slice.marking.operations, operations.length ≤ 64

end SliceSyntax

end Segmentor.Avc
