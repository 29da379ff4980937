import Segmentor.NalUnits

/-!
# H.264 slice headers

Just enough of the syntax to find where each slice header ends.  What a header
holds depends on the picture parameter set it names and on the sequence
parameter set which that one names, so those are read as far as the header
asks.
-/

namespace Segmentor.Avc

open General BitReading Reading

def maxSliceHeaderBytes : ℕ := 4096
def maxParameterSetBytes : ℕ := 64 * 1024

def highProfiles : List ℕ :=
  [100, 110, 122, 244, 44, 83, 86, 118, 128, 138, 139, 134, 135]

structure Sps where
  chromaArrayType : ℕ
  separateColourPlane : Bool
  log2MaxFrameNum : ℕ
  pocType : ℕ
  log2MaxPocLsb : ℕ
  deltaPicOrderAlwaysZero : Bool
  frameMbsOnly : Bool
  deriving DecidableEq, Repr

structure Pps where
  spsId : ℕ
  entropyCoding : Bool
  bottomFieldPicOrderInFramePresent : Bool
  numRefIdxL0Default : ℕ
  numRefIdxL1Default : ℕ
  weightedPred : Bool
  weightedBipredIdc : ℕ
  deblockingFilterControlPresent : Bool
  redundantPicCntPresent : Bool
  deriving DecidableEq, Repr

/-- A track's parameter sets by their ids, and the size of its NAL lengths. -/
structure Parameters where
  nalLengthSize : ℕ
  sps : ℕ → Option Sps
  pps : ℕ → Option Pps

def empty (nalLengthSize : ℕ) : Parameters where
  nalLengthSize := nalLengthSize
  sps := fun _ => none
  pps := fun _ => none

/-! ## Parameter sets -/

def small (value max : ℕ) : Result ℕ :=
  if max < value then
    .error (.invalidMedia "an H.264 parameter is out of range")
  else .ok value

def refCount : BitReading ℕ := do
  let code ← ue
  ofExcept (okOr
    ((checkedAdd (2 ^ 32) code 1).filter fun count => count ≤ 32)
    (.invalidMedia "too many H.264 reference indices"))

/-- Passes over the rest of a scaling list: a scale of zero ends its deltas. -/
def skipScalingList : ℕ → ℤ → ℤ → BitReading Unit
  | 0, _, _ => pure ()
  | left + 1, last, next => do
      let next ← present (next ≠ 0)
        (do
          let delta ← se
          pure ((last + delta + 256) % 256))
        next
      skipScalingList left (if next ≠ 0 then next else last) next

def scalingListSize (index : ℕ) : ℕ :=
  if index < 6 then 16 else 64

/-- The lists of a scaling matrix, each there or not. -/
def skipScalingMatrix (lists : ℕ) : BitReading Unit :=
  forEach (List.range lists) fun index => do
    let listed ← bit
    present listed (skipScalingList (scalingListSize index) 8 8) ()

/-- The chroma format, and whether the planes are coded apart. -/
def chromaFormat : BitReading (ℕ × Bool) := do
  let chromaFormatIdc ← ue
  if 3 < chromaFormatIdc then
    fail (.invalidMedia "an H.264 chroma format is out of range")
  else
    let separate ← present (chromaFormatIdc = 3) bit false
    let _ ← ue
    let _ ← ue
    skip 1
    let scaled ← bit
    present scaled (skipScalingMatrix (if chromaFormatIdc = 3 then 12 else 8)) ()
    pure (chromaFormatIdc, separate)

/-- The size of a picture order count, and whether its deltas are left out. -/
def pictureOrder (pocType : ℕ) : BitReading (ℕ × Bool) :=
  if pocType = 0 then do
    let code ← ue
    let log2 ← ofExcept (small code 12)
    pure (log2 + 4, false)
  else if pocType = 1 then do
    let deltaPicOrderAlwaysZero ← bit
    let _ ← se
    let _ ← se
    let code ← ue
    let cycle ← ofExcept (small code 255)
    let _ ← times cycle se
    pure (0, deltaPicOrderAlwaysZero)
  else if pocType = 2 then pure (0, false)
  else
    fail (.invalidMedia "an H.264 POC type is out of range")

def spsFields : BitReading (ℕ × Sps) := do
  skip 8
  let profileIdc ← bits 8
  skip 16
  let id ← ue
  let (chromaFormatIdc, separate) ←
    present (profileIdc ∈ highProfiles) chromaFormat (1, false)
  let code ← ue
  let log2 ← ofExcept (small code 12)
  let pocType ← ue
  let (log2MaxPocLsb, deltaPicOrderAlwaysZero) ← pictureOrder pocType
  let _ ← ue
  skip 1
  let _ ← ue
  let _ ← ue
  let frameMbsOnly ← bit
  pure (id,
    { chromaArrayType := if separate then 0 else chromaFormatIdc
      separateColourPlane := separate
      log2MaxFrameNum := log2 + 4
      pocType := pocType
      log2MaxPocLsb := log2MaxPocLsb
      deltaPicOrderAlwaysZero := deltaPicOrderAlwaysZero
      frameMbsOnly := frameMbsOnly })

def ppsFields : BitReading (ℕ × Pps) := do
  skip 8
  let id ← ue
  let spsId ← ue
  let entropyCoding ← bit
  let bottomFieldPicOrderInFramePresent ← bit
  let sliceGroups ← ue
  if sliceGroups ≠ 0 then
    fail (.unsupported
      "H.264 with slice groups (FMO) cannot be encrypted")
  else
    let numRefIdxL0Default ← refCount
    let numRefIdxL1Default ← refCount
    let weightedPred ← bit
    let weightedBipredIdc ← bits 2
    let _ ← se
    let _ ← se
    let _ ← se
    let deblockingFilterControlPresent ← bit
    skip 1
    let redundantPicCntPresent ← bit
    pure (id,
      { spsId := spsId
        entropyCoding := entropyCoding
        bottomFieldPicOrderInFramePresent := bottomFieldPicOrderInFramePresent
        numRefIdxL0Default := numRefIdxL0Default
        numRefIdxL1Default := numRefIdxL1Default
        weightedPred := weightedPred
        weightedBipredIdc := weightedBipredIdc
        deblockingFilterControlPresent := deblockingFilterControlPresent
        redundantPicCntPresent := redundantPicCntPresent })

def parseSps (nal : List UInt8) : Result (ℕ × Sps) :=
  (spsFields.run (Rbsp.new nal maxParameterSetBytes).reader).map Prod.fst

def parsePps (nal : List UInt8) : Result (ℕ × Pps) :=
  (ppsFields.run (Rbsp.new nal maxParameterSetBytes).reader).map Prod.fst

/-- The type of a NAL unit, from its first byte. -/
def nalType (header : UInt8) : ℕ :=
  header.toNat % 32

/-- Takes in a parameter set; other NAL units are ignored. -/
def Parameters.update (parameters : Parameters) (nal : List UInt8) :
    Result Parameters :=
  match nal.head?.map nalType with
  | some 7 => do
      let (id, sps) ← parseSps nal
      .ok { parameters with sps := Function.update parameters.sps id (some sps) }
  | some 8 => do
      let (id, pps) ← parsePps nal
      .ok { parameters with pps := Function.update parameters.pps id (some pps) }
  | _ => .ok parameters

/-! ## Slice headers -/

def malformedModification : Error :=
  .invalidMedia "an H.264 reference list modification is malformed"

def modifications : ℕ → BitReading Unit
  | 0 => fail malformedModification
  | left + 1 => do
      let operation ← ue
      if operation ≤ 2 then
        let _ ← ue
        modifications left
      else if operation = 3 then pure ()
      else fail malformedModification

def listModification : BitReading Unit := do
  let modified ← bit
  present modified (modifications 65) ()

/-- The weights of one reference picture. -/
def weights (chroma : ℕ) : BitReading Unit := do
  let luma ← bit
  let _ ← present luma (times 2 se) []
  let weighted ← present (chroma ≠ 0) bit false
  let _ ← present weighted (times 4 se) []
  pure ()

def predWeightTable (chroma l0 l1 : ℕ) : BitReading Unit := do
  let _ ← ue
  let _ ← present (chroma ≠ 0) ue 0
  let _ ← times (saturatingAdd (2 ^ 32) l0 l1) (weights chroma)
  pure ()

def malformedMarking : Error :=
  .invalidMedia "an H.264 reference marking is malformed"

def markings : ℕ → BitReading Unit
  | 0 => fail malformedMarking
  | left + 1 => do
      let operation ← ue
      if operation = 0 then pure ()
      else if operation ∈ [1, 2, 4, 6] then
        let _ ← ue
        markings left
      else if operation = 3 then
        let _ ← ue
        let _ ← ue
        markings left
      else if operation = 5 then markings left
      else fail malformedMarking

def decRefPicMarking (idr : Bool) : BitReading Unit :=
  if idr then skip 2
  else do
    let adaptive ← bit
    present adaptive (markings 65) ()

/-- The sets a slice is read with. -/
def Parameters.sets (parameters : Parameters) (ppsId : ℕ) :
    Result (Sps × Pps) := do
  let pps ← okOr (parameters.pps ppsId)
    (.invalidMedia "a slice names an unknown PPS")
  let sps ← okOr (parameters.sps pps.spsId)
    (.invalidMedia "a PPS names an unknown SPS")
  .ok (sps, pps)

/-- The fields of a slice header after the one that names its sets. -/
def sliceFields (sps : Sps) (pps : Pps) (nalRefIdc nalType sliceType : ℕ) :
    BitReading Unit := do
  let p : Bool := sliceType = 0
  let b : Bool := sliceType = 1
  let i : Bool := sliceType = 2
  let sp : Bool := sliceType = 3
  let si : Bool := sliceType = 4
  present sps.separateColourPlane (skip 2) ()
  skip sps.log2MaxFrameNum
  let fieldPic ← present (¬ sps.frameMbsOnly) bit false
  present fieldPic (skip 1) ()
  let _ ← present (nalType = 5) ue 0
  let _ ← present (sps.pocType = 0) (skip sps.log2MaxPocLsb) ()
  let bottom : Bool := pps.bottomFieldPicOrderInFramePresent ∧ ¬ fieldPic
  let _ ← present (sps.pocType = 0 ∧ bottom) se 0
  let deltas : Bool := sps.pocType = 1 ∧ ¬ sps.deltaPicOrderAlwaysZero
  let _ ← present deltas se 0
  let _ ← present (deltas ∧ bottom) se 0
  let _ ← present pps.redundantPicCntPresent ue 0
  present b (skip 1) ()
  let overridden ← present (p ∨ sp ∨ b) bit false
  let l0 ← present overridden refCount pps.numRefIdxL0Default
  let l1 ← present (overridden ∧ b) refCount pps.numRefIdxL1Default
  present (¬ i ∧ ¬ si) listModification ()
  present ((¬ i ∧ ¬ si) ∧ b) listModification ()
  present ((pps.weightedPred ∧ (p ∨ sp)) ∨ (pps.weightedBipredIdc = 1 ∧ b))
    (predWeightTable sps.chromaArrayType l0 (if b then l1 else 0)) ()
  present (nalRefIdc ≠ 0) (decRefPicMarking (nalType = 5)) ()
  let _ ← present (pps.entropyCoding ∧ ¬ i ∧ ¬ si) ue 0
  let _ ← se
  present sp (skip 1) ()
  let _ ← present (sp ∨ si) se 0
  let deblocking ← present pps.deblockingFilterControlPresent ue 1
  let _ ← present (deblocking ≠ 1) (times 2 se) []
  pure ()

/-- A slice header up to the id of its picture parameter set. -/
structure SliceFront where
  nalRefIdc : ℕ
  nalType : ℕ
  sliceType : ℕ
  ppsId : ℕ
  deriving DecidableEq, Repr

def sliceFront : BitReading SliceFront := do
  skip 1
  let nalRefIdc ← bits 2
  let nalType ← bits 5
  if nalType ≠ 1 ∧ nalType ≠ 5 then
    fail (.unsupported s!"H.264 NAL unit type {nalType} cannot be encrypted")
  else
    let _ ← ue
    let rawType ← ue
    if 9 < rawType then
      fail (.invalidMedia "an H.264 slice type is out of range")
    else
      let ppsId ← ue
      pure
        { nalRefIdc := nalRefIdc
          nalType := nalType
          sliceType := rawType % 5
          ppsId := ppsId }

/-- A slice header, the byte in front of it included. -/
def sliceHeader (parameters : Parameters) : BitReading Unit := do
  let front ← sliceFront
  let (sps, pps) ← ofExcept (parameters.sets front.ppsId)
  sliceFields sps pps front.nalRefIdc front.nalType front.sliceType

/-- How many bits of the payload the header takes. -/
def Parameters.headerBits (parameters : Parameters) (nal : List UInt8) :
    Result ℕ :=
  ((sliceHeader parameters).run
    (Rbsp.new nal maxSliceHeaderBytes).reader).map fun read => read.2.bit

/-- How many bytes of a slice NAL unit must stay clear. -/
def Parameters.clearBytes (parameters : Parameters) (nal : List UInt8) :
    Result ℕ := do
  let bits ← parameters.headerBits nal
  okOr ((Rbsp.new nal maxSliceHeaderBytes).nalBytesCovering bits)
    (.invalidMedia "a slice header is truncated")

/-! ## What a slice depends on -/

/-- The picture parameter set a slice names. -/
def Names (nal : List UInt8) (ppsId : ℕ) : Prop :=
  ∃ front stop, sliceFront.run (Rbsp.new nal maxSliceHeaderBytes).reader =
    .ok (front, stop) ∧ front.ppsId = ppsId

theorem Parameters.clearBytes_congr {a b : Parameters} {nal : List UInt8}
    (h : ∀ ppsId, Names nal ppsId → a.sets ppsId = b.sets ppsId) :
    a.clearBytes nal = b.clearBytes nal := by
  have hheader : a.headerBits nal = b.headerBits nal := by
    unfold headerBits sliceHeader
    rw [run_bind_congr fun front stop hfront => ?_]
    rw [h front.ppsId ⟨front, stop, hfront, rfl⟩]
  unfold clearBytes
  rw [hheader]

end Segmentor.Avc
