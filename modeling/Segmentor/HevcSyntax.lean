import Mathlib.Data.Nat.Log
import Mathlib.Algebra.Order.Floor.Div
import Segmentor.HevcSlices
import Segmentor.NalSyntax

/-!
# The syntax of H.265 headers

The parameter sets and slice segment headers of the standard as values, and
the bits each is written as: 7.3.2.2, 7.3.2.3, 7.3.6.1 and 7.3.7 for the base
layer of the profiles that are supported.  Every value carries the range the
standard gives it; where support is wider than that, as for the numbers of
reference pictures, it has the range that is supported.
-/

namespace Segmentor.Hevc

open General

/-- The two bytes in front of a NAL unit of the base layer. -/
def nalHeader (nalUnitType : ℕ) (temporalId : Fin (2 ^ 3)) : List Bool :=
  [false] ++ (toBits 6 nalUnitType ++ (toBits 6 0 ++ toBits 3 temporalId))

/-! ## Reference picture sets -/

/-- A step in picture order, less one. -/
abbrev PocStep := Fin (2 ^ 15)

/-- A short-term reference picture set: pictures of its own, each a step away
from the one in front of it, or changes to a set in front of it. -/
inductive SetSyntax
  | explicit (before after : List (PocStep × Bool))
  | inter (deltaIdxMinus1 : ℕ) (negative : Bool) (absDeltaRpsMinus1 : PocStep)
      (usedAndDelta : ℕ → Bool × Bool)

namespace SetSyntax

def stepsBits (steps : List (PocStep × Bool)) : List Bool :=
  steps.flatMap fun step => golomb step.1 ++ [step.2]

/-- Whether a picture is used; where it is not, whether it is kept. -/
def flagBits (flags : Bool × Bool) : List Bool :=
  [flags.1] ++ if flags.1 then [] else [flags.2]

/-- Pictures at the sums of the steps to them. -/
def pictures (sign : ℤ) : ℤ → List (PocStep × Bool) → List (ℤ × Bool)
  | _, [] => []
  | poc, (step, used) :: steps =>
      (poc + sign * (step + 1), used) ::
        pictures sign (poc + sign * (step + 1)) steps

/-- How far in front of a set that one is which it changes. -/
def lag (deltaIdxMinus1 : ℕ) (inSlice : Bool) : ℕ :=
  if inSlice then deltaIdxMinus1 else 0

/-- The set behind `earlier` that is changed. -/
def reference (earlier : List ReferenceSet) (deltaIdxMinus1 : ℕ)
    (inSlice : Bool) : Option ReferenceSet :=
  earlier[earlier.length - (lag deltaIdxMinus1 inSlice + 1)]?

def deltaRps (negative : Bool) (absDeltaRpsMinus1 : PocStep) : ℤ :=
  (if negative then -1 else 1) * (absDeltaRpsMinus1 + 1)

/-- The pictures of one side, moved, as far as they are kept and are now on
the side of `wanted`. -/
def moved (wanted : ℤ → Bool) (delta : ℤ) (flags : ℕ → Bool × Bool)
    (side : List ((ℤ × Bool) × ℕ)) : List (ℤ × Bool) :=
  side.filterMap fun ((poc, _), index) =>
    if wanted (poc + delta) ∧ ((flags index).1 ∨ (flags index).2) then
      some (poc + delta, (flags index).1)
    else none

/-- The picture that the changed set was the set of. -/
def movedSelf (wanted : ℤ → Bool) (delta : ℤ) (flags : ℕ → Bool × Bool)
    (index : ℕ) : List (ℤ × Bool) :=
  if wanted delta ∧ ((flags index).1 ∨ (flags index).2) then
    [(delta, (flags index).1)]
  else []

/-- Equations 7-61 and 7-62. -/
def changed (reference : ReferenceSet) (delta : ℤ)
    (flags : ℕ → Bool × Bool) : ReferenceSet where
  before :=
    moved (· < 0) delta flags
        (reference.after.zipIdx reference.before.length).reverse ++
      (movedSelf (· < 0) delta flags reference.len ++
        moved (· < 0) delta flags reference.before.zipIdx)
  after :=
    moved (0 < ·) delta flags reference.before.zipIdx.reverse ++
      (movedSelf (0 < ·) delta flags reference.len ++
        moved (0 < ·) delta flags
          (reference.after.zipIdx reference.before.length))

/-- The pictures of a set behind `earlier`. -/
def derived (earlier : List ReferenceSet) (inSlice : Bool) :
    SetSyntax → ReferenceSet
  | .explicit before after =>
      { before := pictures (-1) 0 before
        after := pictures 1 0 after }
  | .inter deltaIdxMinus1 negative absDeltaRpsMinus1 flags =>
      (reference earlier deltaIdxMinus1 inSlice).elim ⟨[], []⟩ fun reference =>
        changed reference (deltaRps negative absDeltaRpsMinus1) flags

/-- Behind `earlier`; a set of a slice says which one it changes. -/
def bits (earlier : List ReferenceSet) (inSlice : Bool) :
    SetSyntax → List Bool
  | .explicit before after =>
      [if earlier.length ≠ 0 then [false] else [], golomb before.length,
        golomb after.length, stepsBits before, stepsBits after].flatten
  | .inter deltaIdxMinus1 negative absDeltaRpsMinus1 flags =>
      [[true], if inSlice then golomb deltaIdxMinus1 else [], [negative],
        golomb absDeltaRpsMinus1,
        (List.range (((reference earlier deltaIdxMinus1 inSlice).elim 0
          ReferenceSet.len) + 1)).flatMap fun index =>
            flagBits (flags index)].flatten

/-- At most sixteen pictures a side, and a set in front of a changed one. -/
def Fits (earlier : List ReferenceSet) (inSlice : Bool) : SetSyntax → Prop
  | .explicit before after => before.length ≤ 16 ∧ after.length ≤ 16
  | .inter deltaIdxMinus1 _ _ _ => lag deltaIdxMinus1 inSlice < earlier.length

end SetSyntax

/-- The sets of a sequence behind `earlier`, each derived from all in front of
it. -/
def derivedSets : List ReferenceSet → List SetSyntax → List ReferenceSet
  | earlier, [] => earlier
  | earlier, set :: sets =>
      derivedSets (earlier ++ [set.derived earlier false]) sets

/-- The sets of a sequence behind `earlier`. -/
def setsBits : List ReferenceSet → List SetSyntax → List Bool
  | _, [] => []
  | earlier, set :: sets =>
      set.bits earlier false ++
        setsBits (earlier ++ [set.derived earlier false]) sets

def SetsFit : List ReferenceSet → List SetSyntax → Prop
  | _, [] => True
  | earlier, set :: sets =>
      set.Fits earlier false ∧
        SetsFit (earlier ++ [set.derived earlier false]) sets

/-! ## Scaling lists -/

inductive ScalingList
  | copied (matrixIdDelta : UeValue)
  | own (dcCoef : SeValue) (deltas : ℕ → SeValue)

def ScalingList.bits (sizeId : ℕ) : ScalingList → List Bool
  | .copied matrixIdDelta => [[false], matrixIdDelta.bits].flatten
  | .own dcCoef deltas =>
      [[true], if 1 < sizeId then dcCoef.bits else [],
        (List.range (min 64 (2 ^ (4 + 2 * sizeId)))).flatMap fun index =>
          (deltas index).bits].flatten

/-- The lists of each size, those of blocks of 32 being two. -/
abbrev ScalingLists := ℕ → ℕ → ScalingList

def scalingListDataBits (lists : ScalingLists) : List Bool :=
  [0, 1, 2, 3].flatMap fun sizeId =>
    (List.range (if sizeId = 3 then 2 else 6)).flatMap fun index =>
      (lists sizeId index).bits sizeId

/-! ## Sequence parameter sets -/

structure SubLayer where
  profile : Option (Fin (2 ^ 88))
  level : Option (Fin (2 ^ 8))

structure ProfileTierLevel where
  spaceAndTier : Fin (2 ^ 3)
  profileIdc : Fin (2 ^ 5)
  compatibilityAndLevel : Fin (2 ^ 88)
  subLayers : ℕ → SubLayer
  supported : ¬ (6 ≤ profileIdc.1 ∧ profileIdc.1 ≤ 11)

def ProfileTierLevel.bits (ptl : ProfileTierLevel) (maxSubLayersMinus1 : ℕ) :
    List Bool :=
  [toBits 3 ptl.spaceAndTier, toBits 5 ptl.profileIdc,
    toBits 88 ptl.compatibilityAndLevel,
    (List.range maxSubLayersMinus1).flatMap fun layer =>
      [(ptl.subLayers layer).profile.isSome,
        (ptl.subLayers layer).level.isSome],
    if 0 < maxSubLayersMinus1 then
      List.replicate (2 * (8 - maxSubLayersMinus1)) false else [],
    (List.range maxSubLayersMinus1).flatMap fun layer =>
      (ptl.subLayers layer).profile.elim [] (fun profile => toBits 88 profile)
        ++ (ptl.subLayers layer).level.elim [] fun level =>
          toBits 8 level].flatten

structure PcmSyntax where
  bitDepths : Fin (2 ^ 8)
  log2MinSize : UeValue
  log2DiffSize : UeValue
  loopFilterDisabled : Bool

def PcmSyntax.bits (pcm : PcmSyntax) : List Bool :=
  [toBits 8 pcm.bitDepths, pcm.log2MinSize.bits ++ pcm.log2DiffSize.bits,
    [pcm.loopFilterDisabled]].flatten

structure SpsSyntax where
  temporalId : Fin (2 ^ 3)
  vpsId : Fin (2 ^ 4)
  maxSubLayersMinus1 : Fin 7
  temporalIdNesting : Bool
  profileTierLevel : ProfileTierLevel
  id : UeValue
  chromaFormatIdc : Fin 4
  separateColourPlane : Bool
  width : UeValue
  height : UeValue
  conformanceWindow : Option (Fin 4 → UeValue)
  bitDepthLuma : UeValue
  bitDepthChroma : UeValue
  log2MaxPocLsbMinus4 : Fin 13
  orderingInfoPresent : Bool
  orderingInfo : ℕ → Fin 3 → UeValue
  log2MinCbMinus3 : ℕ
  log2DiffCb : ℕ
  ctb_le : log2MinCbMinus3 + 3 + log2DiffCb ≤ 6
  transformSizes : Fin 4 → UeValue
  /-- There, if enabled; in it those of the sequence, if not the defaults. -/
  scaling : Option (Option ScalingLists)
  amp : Bool
  sampleAdaptiveOffset : Bool
  pcm : Option PcmSyntax
  referenceSets : List SetSyntax
  referenceSets_le : referenceSets.length ≤ 64
  referenceSets_fit : SetsFit [] referenceSets
  longTerm : Option (List (ℕ × Bool))
  longTerm_le : ∀ listed ∈ longTerm, listed.length ≤ 32
  temporalMvp : Bool

/-- Fields one behind the other. -/
def fieldsBits {count : ℕ} (values : Fin count → UeValue) : List Bool :=
  (List.finRange count).flatMap fun index => (values index).bits

namespace SpsSyntax

variable (sps : SpsSyntax)

def log2MaxPocLsb : ℕ :=
  sps.log2MaxPocLsbMinus4 + 4

/-- The layers whose buffer sizes are given: all, or the highest only. -/
def orderedLayers : ℕ :=
  if sps.orderingInfoPresent then sps.maxSubLayersMinus1 + 1 else 1

def longTermBits (listed : List (ℕ × Bool)) : List Bool :=
  golomb listed.length ++ listed.flatMap fun picture =>
    toBits sps.log2MaxPocLsb picture.1 ++ [picture.2]

def frontFields : List (List Bool) :=
  [golomb sps.chromaFormatIdc,
    if sps.chromaFormatIdc.1 = 3 then [sps.separateColourPlane] else [],
    sps.width.bits, sps.height.bits,
    announced fieldsBits sps.conformanceWindow, sps.bitDepthLuma.bits,
    sps.bitDepthChroma.bits, golomb sps.log2MaxPocLsbMinus4,
    [sps.orderingInfoPresent],
    (List.range sps.orderedLayers).flatMap fun layer =>
      fieldsBits (sps.orderingInfo layer),
    golomb sps.log2MinCbMinus3, golomb sps.log2DiffCb,
    fieldsBits sps.transformSizes,
    announced (announced scalingListDataBits) sps.scaling, [sps.amp],
    [sps.sampleAdaptiveOffset], announced PcmSyntax.bits sps.pcm]

/-- The set up to the last field that slice headers depend on. -/
def fields : List (List Bool) :=
  [nalHeader 33 sps.temporalId, toBits 4 sps.vpsId,
    toBits 3 sps.maxSubLayersMinus1, [sps.temporalIdNesting],
    sps.profileTierLevel.bits sps.maxSubLayersMinus1, sps.id.bits,
    sps.frontFields.flatten, golomb sps.referenceSets.length,
    setsBits [] sps.referenceSets, announced sps.longTermBits sps.longTerm,
    [sps.temporalMvp]]

def bits : List Bool :=
  sps.fields.flatten

def separate : Bool :=
  sps.chromaFormatIdc.1 = 3 && sps.separateColourPlane

/-- Zero where there is no chroma, or where its planes are coded as luma. -/
def chromaArrayType : ℕ :=
  if sps.separate then 0 else sps.chromaFormatIdc

def ctbSize : ℕ :=
  2 ^ (sps.log2MinCbMinus3 + 3 + sps.log2DiffCb)

def picSizeInCtbs : ℕ :=
  (sps.width.1 ⌈/⌉ sps.ctbSize) * (sps.height.1 ⌈/⌉ sps.ctbSize)

def sets : List ReferenceSet :=
  derivedSets [] sps.referenceSets

/-- Of each long-term picture that is listed, whether it is used. -/
def longTermUsed : List Bool :=
  sps.longTerm.elim [] fun listed => listed.map Prod.snd

end SpsSyntax

/-! ## Picture parameter sets -/

structure TileSyntax where
  columnsMinus1 : Fin 256
  rowsMinus1 : Fin 256
  /-- The sizes of columns and rows but for the last, if not uniform. -/
  sizes : Option (ℕ → UeValue)
  loopFilterAcrossTiles : Bool

def TileSyntax.bits (tiles : TileSyntax) : List Bool :=
  [golomb tiles.columnsMinus1, golomb tiles.rowsMinus1,
    [tiles.sizes.isNone],
    tiles.sizes.elim [] fun sizes =>
      (List.range (tiles.columnsMinus1 + tiles.rowsMinus1)).flatMap
        fun index => (sizes index).bits,
    [tiles.loopFilterAcrossTiles]].flatten

/-- Whether slices may override it, and the offsets unless it is off. -/
structure DeblockingSyntax where
  overrideEnabled : Bool
  offsets : Option (SeValue × SeValue)

/-- A flag that something is off, and two offsets where it is not. -/
def offsetsBits (offsets : Option (SeValue × SeValue)) : List Bool :=
  [offsets.isNone] ++
    offsets.elim [] fun offsets => offsets.1.bits ++ offsets.2.bits

def DeblockingSyntax.bits (deblocking : DeblockingSyntax) : List Bool :=
  [deblocking.overrideEnabled] ++ offsetsBits deblocking.offsets

structure RangeExtension where
  log2MaxTransformSkipSize : UeValue
  crossComponentPrediction : Bool
  chromaQpOffsetListEnabled : Bool

/-- The extensions that are supported: the one of the range extensions, and
those that are not given a meaning. -/
structure PpsExtension where
  range : Option RangeExtension
  others : Fin (2 ^ 4)

structure PpsSyntax where
  temporalId : Fin (2 ^ 3)
  id : UeValue
  spsId : UeValue
  dependentSliceSegmentsEnabled : Bool
  outputFlagPresent : Bool
  numExtraSliceHeaderBits : Fin (2 ^ 3)
  signDataHiding : Bool
  cabacInitPresent : Bool
  numRefIdxL0DefaultMinus1 : Fin 16
  numRefIdxL1DefaultMinus1 : Fin 16
  initQp : SeValue
  constrainedIntraPred : Bool
  transformSkip : Bool
  cuQpDeltaDepth : Option UeValue
  cbQpOffset : SeValue
  crQpOffset : SeValue
  sliceChromaQpOffsetsPresent : Bool
  weightedPred : Bool
  weightedBipred : Bool
  transquantBypass : Bool
  tiles : Option TileSyntax
  entropyCodingSync : Bool
  loopFilterAcrossSlices : Bool
  deblocking : Option DeblockingSyntax
  scaling : Option ScalingLists
  listsModificationPresent : Bool
  log2ParallelMergeLevel : UeValue
  sliceHeaderExtensionPresent : Bool
  extension : Option PpsExtension

namespace PpsSyntax

variable (pps : PpsSyntax)

def rangeBits (range : RangeExtension) : List Bool :=
  [if pps.transformSkip then range.log2MaxTransformSkipSize.bits else [],
    [range.crossComponentPrediction],
    [range.chromaQpOffsetListEnabled]].flatten

def extensionBits (extension : PpsExtension) : List Bool :=
  [[extension.range.isSome], [false], [false], [false],
    toBits 4 extension.others,
    extension.range.elim [] pps.rangeBits].flatten

def fields : List (List Bool) :=
  [nalHeader 34 pps.temporalId, pps.id.bits, pps.spsId.bits,
    [pps.dependentSliceSegmentsEnabled], [pps.outputFlagPresent],
    toBits 3 pps.numExtraSliceHeaderBits, [pps.signDataHiding],
    [pps.cabacInitPresent], golomb pps.numRefIdxL0DefaultMinus1,
    golomb pps.numRefIdxL1DefaultMinus1, pps.initQp.bits,
    [pps.constrainedIntraPred], [pps.transformSkip],
    announced UeValue.bits pps.cuQpDeltaDepth,
    pps.cbQpOffset.bits ++ pps.crQpOffset.bits,
    [pps.sliceChromaQpOffsetsPresent], [pps.weightedPred],
    [pps.weightedBipred], [pps.transquantBypass], [pps.tiles.isSome],
    [pps.entropyCodingSync], pps.tiles.elim [] TileSyntax.bits,
    [pps.loopFilterAcrossSlices], announced DeblockingSyntax.bits pps.deblocking,
    announced scalingListDataBits pps.scaling,
    [pps.listsModificationPresent], pps.log2ParallelMergeLevel.bits,
    [pps.sliceHeaderExtensionPresent],
    announced pps.extensionBits pps.extension]

def bits : List Bool :=
  pps.fields.flatten

def chromaQpOffsetListEnabled : Bool :=
  pps.extension.elim false fun extension =>
    extension.range.elim false RangeExtension.chromaQpOffsetListEnabled

def deblockingOverrideEnabled : Bool :=
  pps.deblocking.elim false DeblockingSyntax.overrideEnabled

def deblockingDisabled : Bool :=
  pps.deblocking.elim false fun deblocking => deblocking.offsets.isNone

end PpsSyntax

/-! ## Slice segment headers -/

/-- The reference picture set of a picture: one of the sequence, or its own. -/
inductive ShortTerm
  | listed (index : ℕ)
  | own (set : SetSyntax)

structure ListedLongTerm where
  index : ℕ
  msbCycle : Option UeValue

structure OwnLongTerm where
  lsb : ℕ
  used : Bool
  msbCycle : Option UeValue

/-- The weights of one reference picture, as far as it has some. -/
structure Weights where
  luma : Option (SeValue × SeValue)
  chroma : Option ((SeValue × SeValue) × (SeValue × SeValue))

def Weights.bits (weights : Weights) (chromaArrayType : ℕ) : List Bool :=
  weights.luma.elim [] (fun pair => pair.1.bits ++ pair.2.bits) ++
    if chromaArrayType ≠ 0 then
      weights.chroma.elim [] fun pairs => pairs.1.1.bits ++ pairs.1.2.bits ++
        pairs.2.1.bits ++ pairs.2.2.bits
    else []

/-- The weights of a list: which references have some, and then what. -/
def listWeightsBits (weights : ℕ → Weights) (chromaArrayType count : ℕ) :
    List Bool :=
  [(List.range count).flatMap fun index => [(weights index).luma.isSome],
    if chromaArrayType ≠ 0 then
      (List.range count).flatMap fun index => [(weights index).chroma.isSome]
    else [],
    (List.range count).flatMap fun index =>
      (weights index).bits chromaArrayType].flatten

structure WeightTable where
  lumaLog2Denom : UeValue
  deltaChromaLog2Denom : SeValue
  l0 : ℕ → Weights
  l1 : ℕ → Weights

def WeightTable.bits (table : WeightTable) (chromaArrayType l0 l1 : ℕ) :
    List Bool :=
  [table.lumaLog2Denom.bits,
    if chromaArrayType ≠ 0 then table.deltaChromaLog2Denom.bits else [],
    listWeightsBits table.l0 chromaArrayType l0,
    listWeightsBits table.l1 chromaArrayType l1].flatten

structure EntryPoints where
  offsetLenMinus1 : Fin 32
  offsets : List ℕ
  offsets_lt : offsets.length + 1 < 2 ^ 32

def EntryPoints.bits (points : EntryPoints) : List Bool :=
  [golomb points.offsets.length,
    if 0 < points.offsets.length then
      golomb points.offsetLenMinus1 ++ points.offsets.flatMap fun offset =>
        toBits (points.offsetLenMinus1 + 1) offset
    else []].flatten

structure SliceSyntax where
  nalUnitType : ℕ
  supported : nalUnitType ≤ 9 ∨ (16 ≤ nalUnitType ∧ nalUnitType ≤ 21)
  temporalId : Fin (2 ^ 3)
  firstSliceSegment : Bool
  noOutputOfPriorPics : Bool
  dependent : Bool
  segmentAddress : ℕ
  reservedFlags : ℕ
  sliceType : Fin 3
  picOutput : Bool
  colourPlaneId : Fin 4
  picOrderCntLsb : ℕ
  shortTerm : ShortTerm
  longTermListed : List ListedLongTerm
  longTermOwn : List OwnLongTerm
  longTerm_le : longTermListed.length + longTermOwn.length ≤ 32
  temporalMvp : Bool
  saoLuma : Bool
  saoChroma : Bool
  /-- The numbers of active references in place of the set's, less one. -/
  numRefIdxOverride : Option (Fin 16 × Fin 16)
  modificationL0 : Option (ℕ → ℕ)
  modificationL1 : Option (ℕ → ℕ)
  mvdL1Zero : Bool
  cabacInit : Bool
  collocatedFromL0 : Bool
  collocatedRefIdx : UeValue
  weights : WeightTable
  fiveMinusMaxNumMergeCand : UeValue
  sliceQpDelta : SeValue
  cbQpOffset : SeValue
  crQpOffset : SeValue
  cuChromaQpOffsetEnabled : Bool
  /-- The offsets, or that deblocking is off, in place of the set's. -/
  deblockingOverride : Option (Option (SeValue × SeValue))
  loopFilterAcrossSlices : Bool
  entryPoints : EntryPoints
  headerExtension : List (Fin (2 ^ 8))
  headerExtension_lt : headerExtension.length + 1 < 2 ^ 32

namespace SliceSyntax

variable (slice : SliceSyntax) (sps : SpsSyntax) (pps : PpsSyntax)

def isIdr : Bool := slice.nalUnitType = 19 ∨ slice.nalUnitType = 20
def isB : Bool := slice.sliceType.1 = 0

/-- A first segment does not depend on one in front of it. -/
def isDependent : Bool :=
  !slice.firstSliceSegment && pps.dependentSliceSegmentsEnabled &&
    slice.dependent

/-- The long-term pictures it takes from the sequence, if that lists some. -/
def listed : List ListedLongTerm :=
  if 0 < sps.longTermUsed.length then slice.longTermListed else []

def shortTermBits : List Bool :=
  match slice.shortTerm with
  | .listed index =>
      [[true], if 1 < sps.referenceSets.length then
        toBits (Nat.clog 2 sps.referenceSets.length) index else []].flatten
  | .own set => [[false], set.bits sps.sets true].flatten

def listedBits (picture : ListedLongTerm) : List Bool :=
  [if 1 < sps.longTermUsed.length then
      toBits (Nat.clog 2 sps.longTermUsed.length) picture.index else [],
    announced UeValue.bits picture.msbCycle].flatten

def ownBits (picture : OwnLongTerm) : List Bool :=
  [toBits sps.log2MaxPocLsb picture.lsb, [picture.used],
    announced UeValue.bits picture.msbCycle].flatten

def longTermBits : List Bool :=
  [if 0 < sps.longTermUsed.length then golomb slice.longTermListed.length
    else [],
    golomb slice.longTermOwn.length, (slice.listed sps).flatMap (listedBits sps),
    slice.longTermOwn.flatMap (ownBits sps)].flatten

def pictureBits : List Bool :=
  [toBits sps.log2MaxPocLsb slice.picOrderCntLsb, slice.shortTermBits sps,
    if sps.longTerm.isSome then slice.longTermBits sps else [],
    if sps.temporalMvp then [slice.temporalMvp] else []].flatten

def currentSet : Option ReferenceSet :=
  match slice.shortTerm with
  | .listed index => sps.sets[index]?
  | .own set => some (set.derived sps.sets true)

/-- How many long-term pictures the picture is predicted from. -/
def longTermCurr : ℕ :=
  if sps.longTerm.isSome then
    ((slice.listed sps).map (fun picture =>
        sps.longTermUsed[picture.index]?.getD false) ++
      slice.longTermOwn.map OwnLongTerm.used).count true
  else 0

/-- Equation 7-55. -/
def numPicTotalCurr : ℕ :=
  if slice.isIdr then 0
  else (slice.currentSet sps).elim 0 ReferenceSet.used + slice.longTermCurr sps

def hasTemporalMvp : Bool :=
  !slice.isIdr && sps.temporalMvp && slice.temporalMvp

def activeL0 : ℕ :=
  slice.numRefIdxOverride.elim pps.numRefIdxL0DefaultMinus1.1
    (fun counts => counts.1.1) + 1

def activeL1 : ℕ :=
  slice.numRefIdxOverride.elim pps.numRefIdxL1DefaultMinus1.1
    (fun counts => counts.2.1) + 1

def numRefIdxBits : List Bool :=
  announced (fun counts =>
    golomb counts.1 ++ if slice.isB then golomb counts.2 else [])
    slice.numRefIdxOverride

/-- An entry for each active reference, if a list is modified. -/
def modificationBits (active total : ℕ) : Option (ℕ → ℕ) → List Bool :=
  announced fun entries => (List.range active).flatMap fun index =>
    toBits (Nat.clog 2 total) (entries index)

/-- Where there is no choice the first list has the picture. -/
def fromL0 : Bool :=
  if slice.hasTemporalMvp sps ∧ slice.isB then slice.collocatedFromL0 else true

def interFields : List (List Bool) :=
  [slice.numRefIdxBits,
    if pps.listsModificationPresent ∧ 1 < slice.numPicTotalCurr sps then
      modificationBits (slice.activeL0 pps) (slice.numPicTotalCurr sps)
        slice.modificationL0 else [],
    if (pps.listsModificationPresent ∧ 1 < slice.numPicTotalCurr sps) ∧
        slice.isB then
      modificationBits (slice.activeL1 pps) (slice.numPicTotalCurr sps)
        slice.modificationL1 else [],
    if slice.isB then [slice.mvdL1Zero] else [],
    if pps.cabacInitPresent then [slice.cabacInit] else [],
    if slice.hasTemporalMvp sps ∧ slice.isB then [slice.collocatedFromL0]
    else [],
    if slice.hasTemporalMvp sps ∧
        ((slice.fromL0 sps ∧ 1 < slice.activeL0 pps) ∨
          (¬ slice.fromL0 sps ∧ 1 < slice.activeL1 pps)) then
      slice.collocatedRefIdx.bits else [],
    if (pps.weightedPred ∧ ¬ slice.isB) ∨ (pps.weightedBipred ∧ slice.isB) then
      slice.weights.bits sps.chromaArrayType (slice.activeL0 pps)
        (if slice.isB then slice.activeL1 pps else 0) else [],
    slice.fiveMinusMaxNumMergeCand.bits]

/-- Whether deblocking is off, by the set where the slice does not say. -/
def deblockingDisabled : Bool :=
  (if pps.deblockingOverrideEnabled then slice.deblockingOverride
    else none).elim pps.deblockingDisabled Option.isNone

/-- The fields that a dependent segment takes from the one before it. -/
def independentFields : List (List Bool) :=
  [toBits pps.numExtraSliceHeaderBits slice.reservedFlags,
    golomb slice.sliceType,
    if pps.outputFlagPresent then [slice.picOutput] else [],
    if sps.separate then toBits 2 slice.colourPlaneId else [],
    if ¬ slice.isIdr then slice.pictureBits sps else [],
    if sps.sampleAdaptiveOffset then [slice.saoLuma] else [],
    if sps.sampleAdaptiveOffset ∧ sps.chromaArrayType ≠ 0 then
      [slice.saoChroma] else [],
    if slice.sliceType.1 ≠ 2 then (slice.interFields sps pps).flatten else [],
    slice.sliceQpDelta.bits,
    if pps.sliceChromaQpOffsetsPresent then
      slice.cbQpOffset.bits ++ slice.crQpOffset.bits else [],
    if pps.chromaQpOffsetListEnabled then [slice.cuChromaQpOffsetEnabled]
    else [],
    if pps.deblockingOverrideEnabled then
      announced offsetsBits slice.deblockingOverride else [],
    if pps.loopFilterAcrossSlices ∧
        ((sps.sampleAdaptiveOffset ∧ slice.saoLuma) ∨
          ((sps.sampleAdaptiveOffset ∧ sps.chromaArrayType ≠ 0) ∧
            slice.saoChroma) ∨
          ¬ slice.deblockingDisabled pps) then
      [slice.loopFilterAcrossSlices] else []]

/-- The header up to the id of its picture parameter set. -/
def frontFields : List (List Bool) :=
  [nalHeader slice.nalUnitType slice.temporalId, [slice.firstSliceSegment],
    if 16 ≤ slice.nalUnitType ∧ slice.nalUnitType ≤ 23 then
      [slice.noOutputOfPriorPics] else [],
    pps.id.bits]

def headerExtensionBits : List Bool :=
  [golomb slice.headerExtension.length,
    slice.headerExtension.flatMap fun byte => toBits 8 byte.1].flatten

/-- The header behind that id. -/
def backFields : List (List Bool) :=
  [if ¬ slice.firstSliceSegment ∧ pps.dependentSliceSegmentsEnabled then
      [slice.dependent] else [],
    if ¬ slice.firstSliceSegment then
      toBits (Nat.clog 2 sps.picSizeInCtbs) slice.segmentAddress else [],
    if ¬ slice.isDependent pps then
      (slice.independentFields sps pps).flatten else [],
    if pps.tiles.isSome ∨ pps.entropyCodingSync then slice.entryPoints.bits
    else [],
    if pps.sliceHeaderExtensionPresent then slice.headerExtensionBits else []]

/-- A slice segment header with the bytes in front of it, up to its
alignment. -/
def bits : List Bool :=
  (slice.frontFields pps ++ slice.backFields sps pps).flatten

/-- With its alignment: a one bit, and zero bits to the end of a byte. -/
def alignedBits : List Bool :=
  slice.bits sps pps ++
    true :: List.replicate (7 - (slice.bits sps pps).length % 8) false

/-- What it names is listed in its sequence. -/
structure Fits : Prop where
  listed : ∀ index, slice.shortTerm = .listed index →
    index < sps.referenceSets.length
  own : ∀ set, slice.shortTerm = .own set → set.Fits sps.sets true
  longTerm : ∀ picture ∈ slice.longTermListed,
    picture.index < 2 ^ Nat.clog 2 sps.longTermUsed.length

end SliceSyntax

end Segmentor.Hevc
