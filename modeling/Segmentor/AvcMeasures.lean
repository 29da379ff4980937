import Segmentor.AvcHeaders

/-!
# H.264 slice headers measured

A parameter set is short enough to be read whole, so a slice NAL unit is read
with the sets as they were written, and its header measured with what stands
in them.
-/

namespace Segmentor.Avc

open General BitReading Reading

/-! ## How long parameter sets are -/

theorem length_scalingListBits_le (deltas : ScalingDeltas) (left index : ℕ)
    (last next : ℤ) :
    (scalingListBits deltas left index last next).length ≤ 63 * left := by
  induction left generalizing index last next with
  | zero => exact le_rfl
  | succ left ih =>
      rw [scalingListBits]
      split
      · have hrest := ih index last next
        omega
      · have hdelta := length_seBits_le (deltas index)
        have hrest := ih (index + 1)
          (if (last + (deltas index).1 + 256) % 256 = 0 then last
            else (last + (deltas index).1 + 256) % 256)
          ((last + (deltas index).1 + 256) % 256)
        rw [List.length_append]
        omega

theorem length_scalingMatrixBits_le (matrix : ScalingMatrix) (lists : ℕ) :
    (scalingMatrixBits matrix lists).length ≤ lists * 4033 := by
  have hall := @length_flatMap_le _ _ (fun index =>
    announced (fun deltas =>
      scalingListBits deltas (if index < 6 then 16 else 64) 0 8 8)
      (matrix index)) 4033 (List.range lists) fun index _ => by
    refine length_announced_le (fun deltas => ?_) (matrix index)
    have hlist := length_scalingListBits_le deltas
      (if index < 6 then 16 else 64) 0 8 8
    have hsize : (if index < 6 then 16 else 64) ≤ 64 := by
      split <;> decide
    omega
  rwa [List.length_range] at hall

theorem length_highBits_le (high : HighSyntax) :
    high.bits.length ≤ 50000 := by
  have hformat := @length_golomb_le high.chromaFormatIdc.1 (by omega)
  have hluma := length_ueBits_le high.bitDepthLuma
  have hchroma := length_ueBits_le high.bitDepthChroma
  have hseparate : (if high.chromaFormatIdc.1 = 3 then
      [high.separateColourPlane] else []).length ≤ 1 := by
    split <;> simp
  have hmatrix := @length_announced_le _ (fun matrix =>
    scalingMatrixBits matrix (if high.chromaFormatIdc.1 = 3 then 12 else 8))
    (12 * 4033) (fun matrix => by
      have hlists := length_scalingMatrixBits_le matrix
        (if high.chromaFormatIdc.1 = 3 then 12 else 8)
      have hcount : (if high.chromaFormatIdc.1 = 3 then 12 else 8) ≤ 12 := by
        split <;> decide
      exact hlists.trans (Nat.mul_le_mul_right 4033 hcount)) high.scalingMatrix
  unfold HighSyntax.bits
  simp only [List.flatten_cons, List.flatten_nil, List.length_append,
    List.length_singleton, List.length_nil]
  omega

theorem length_pictureOrderBits_le (order : PictureOrder) :
    order.fieldBits.length ≤ 20000 := by
  cases order with
  | lsb log2 =>
      have hlog2 := @length_golomb_le log2.1 (by omega)
      unfold PictureOrder.fieldBits
      dsimp only
      omega
  | cycle deltaAlwaysZero nonRef topToBottom offsets short =>
      have hnonRef := length_seBits_le nonRef
      have htop := length_seBits_le topToBottom
      have hcount := @length_golomb_le offsets.length (by omega)
      have hoffsets := @length_flatMap_le _ _ SeValue.bits 63 offsets
        fun offset _ => length_seBits_le offset
      unfold PictureOrder.fieldBits
      simp only [List.flatten_cons, List.flatten_nil, List.length_append,
        List.length_singleton, List.length_nil]
      omega
  | decodeOrder => decide

theorem length_sps_le (sps : SpsSyntax) : sps.bits.length ≤ 100000 := by
  have hid := length_ueBits_le sps.id
  have hhigh : (if sps.hasHigh then sps.high.bits else []).length ≤ 50000 := by
    split
    · exact length_highBits_le sps.high
    · exact Nat.zero_le _
  have hlog2 := @length_golomb_le sps.log2MaxFrameNumMinus4.1 (by omega)
  have htype := length_golomb_le sps.pictureOrder.type_lt
  have horder := length_pictureOrderBits_le sps.pictureOrder
  have hframes := length_ueBits_le sps.maxNumRefFrames
  have hwidth := length_ueBits_le sps.widthInMbs
  have hheight := length_ueBits_le sps.heightInMapUnits
  unfold SpsSyntax.bits SpsSyntax.fields
  simp only [List.flatten_cons, List.flatten_nil, List.length_append,
    List.length_singleton, List.length_nil, length_nalHeader, length_toBits]
  linarith

theorem length_pps_le (pps : PpsSyntax) : pps.bits.length ≤ 1000 := by
  have hid := length_ueBits_le pps.id
  have hspsId := length_ueBits_le pps.spsId
  have hgroups := @length_golomb_le 0 (by decide)
  have hl0 := @length_golomb_le pps.numRefIdxL0DefaultMinus1.1 (by omega)
  have hl1 := @length_golomb_le pps.numRefIdxL1DefaultMinus1.1 (by omega)
  have hqp := length_seBits_le pps.picInitQp
  have hqs := length_seBits_le pps.picInitQs
  have hoffset := length_seBits_le pps.chromaQpIndexOffset
  unfold PpsSyntax.bits PpsSyntax.fields
  simp only [List.flatten_cons, List.flatten_nil, List.length_append,
    List.length_singleton, List.length_nil, length_nalHeader, length_toBits]
  linarith

/-! ## Units -/

theorem head?_unit {front tail : List UInt8} {fields : List (List Bool)}
    {refIdc : Fin 4} {nalUnitType : ℕ} (htype : nalUnitType < 32)
    (h : (nalHeader refIdc nalUnitType :: fields).flatten <+: bitsOf front) :
    (escaped 0 front ++ tail).head?.map nalType = some nalUnitType := by
  have hheader : nalHeader refIdc nalUnitType <+: bitsOf front :=
    (List.prefix_append _ _).trans h
  obtain ⟨byte, hbyte, hmod⟩ := @head?_mod_of_bits front
    ([false] ++ toBits 2 refIdc) [] 5 nalUnitType rfl (by
      rwa [List.append_nil])
  rw [List.head?_append, head?_escaped, hbyte, Option.some_or,
    Option.map_some, nalType]
  congr 1
  rwa [Nat.mod_eq_of_lt (show nalUnitType < 2 ^ 5 from htype),
    List.length_nil, pow_zero, Nat.div_one] at hmod

theorem update_sps (parameters : Parameters) (sps : SpsSyntax)
    {front tail : List UInt8} (h : sps.bits <+: bitsOf front) :
    parameters.update (escaped 0 front ++ tail) =
      .ok { parameters with
        sps := Function.update parameters.sps sps.id.1 (some sps.value) } := by
  have hlength := length_sps_le sps
  have hparse : parseSps (escaped 0 front ++ tail) =
      .ok (sps.id.1, sps.value) :=
    map_run_of_reads_short (reads_sps sps) h (by
      unfold maxParameterSetBytes
      omega)
  rw [Parameters.update, head?_unit (by decide) h]
  dsimp only
  rw [hparse]
  rfl

theorem update_pps (parameters : Parameters) (pps : PpsSyntax)
    {front tail : List UInt8} (h : pps.bits <+: bitsOf front) :
    parameters.update (escaped 0 front ++ tail) =
      .ok { parameters with
        pps := Function.update parameters.pps pps.id.1 (some pps.value) } := by
  have hlength := length_pps_le pps
  have hparse : parsePps (escaped 0 front ++ tail) =
      .ok (pps.id.1, pps.value) :=
    map_run_of_reads_short (reads_pps pps) h (by
      unfold maxParameterSetBytes
      omega)
  rw [Parameters.update, head?_unit (by decide) h]
  dsimp only
  rw [hparse]
  rfl

theorem headerBits_slice {parameters : Parameters} {sps : SpsSyntax}
    {pps : PpsSyntax} {slice : SliceSyntax} {front tail : List UInt8}
    (hsets : parameters.sets pps.id.1 = .ok (sps.value, pps.value))
    (hbounded : slice.Bounded) (h : slice.bits sps pps <+: bitsOf front)
    (hlimit : (escaped 0 front).length ≤ maxSliceHeaderBytes) :
    parameters.headerBits (escaped 0 front ++ tail) =
      .ok (slice.bits sps pps).length := by
  have hbits := h.trans (bitsOf_mono (front_prefix_bytes front tail hlimit))
  rw [Parameters.headerBits,
    run_of_reads (reads_sliceHeader slice sps pps hsets hbounded) hbits]
  rfl

/-! ## Measures -/

/-- Units with these values are taken in and measured, whatever stands behind
the bits of each, if the header's bytes are within the limit. -/
def Measures (sps : SpsSyntax) (pps : PpsSyntax) (slice : SliceSyntax) : Prop :=
  ∀ (parameters : Parameters)
    (spsFront spsTail ppsFront ppsTail front tail : List UInt8),
    sps.bits <+: bitsOf spsFront → pps.bits <+: bitsOf ppsFront →
    slice.bits sps pps <+: bitsOf front →
    (escaped 0 front).length ≤ maxSliceHeaderBytes →
    ∃ first second,
      parameters.update (escaped 0 spsFront ++ spsTail) = .ok first ∧
      first.update (escaped 0 ppsFront ++ ppsTail) = .ok second ∧
      second.headerBits (escaped 0 front ++ tail) =
        .ok (slice.bits sps pps).length

/-- Headers of NAL units are measured exactly, and nothing is read outside. -/
theorem slice_headers_measured :
    (∀ (sps : SpsSyntax) (pps : PpsSyntax) (slice : SliceSyntax),
      pps.spsId = sps.id → slice.Bounded → Measures sps pps slice) ∧
    ∀ nal : List UInt8, StaysInside spsFields nal maxParameterSetBytes ∧
      StaysInside ppsFields nal maxParameterSetBytes ∧
      ∀ parameters : Parameters,
        StaysInside (sliceHeader parameters) nal maxSliceHeaderBytes := by
  refine ⟨fun sps pps slice hid hbounded => ?_, fun nal =>
    ⟨staysInside _ _ _, staysInside _ _ _, fun _ => staysInside _ _ _⟩⟩
  intro parameters spsFront spsTail ppsFront ppsTail front tail hsps hpps hslice
    hlimit
  refine ⟨_, _, update_sps parameters sps hsps, update_pps _ pps hpps,
    headerBits_slice ?_ hbounded hslice hlimit⟩
  unfold Parameters.sets
  dsimp only
  rw [Function.update_self, okOr_some, ok_bind]
  show okOr (Function.update parameters.sps sps.id.1 (some sps.value)
    pps.spsId.1) _ >>= _ = _
  rw [hid, Function.update_self, okOr_some, ok_bind]

/-! ## An intra slice -/

def plainSps : SpsSyntax where
  refIdc := 3
  profileIdc := 66
  constraintsAndLevel := 30
  id := ⟨0, by decide⟩
  high :=
    { chromaFormatIdc := 1
      separateColourPlane := false
      bitDepthLuma := ⟨0, by decide⟩
      bitDepthChroma := ⟨0, by decide⟩
      transformBypass := false
      scalingMatrix := none }
  log2MaxFrameNumMinus4 := 0
  pictureOrder := .decodeOrder
  maxNumRefFrames := ⟨16, by decide⟩
  gapsInFrameNum := false
  widthInMbs := ⟨9, by decide⟩
  heightInMapUnits := ⟨8, by decide⟩
  frameMbsOnly := true

def plainPps : PpsSyntax where
  refIdc := 3
  id := ⟨0, by decide⟩
  spsId := ⟨0, by decide⟩
  entropyCodingMode := false
  bottomFieldPicOrderInFramePresent := false
  numRefIdxL0DefaultMinus1 := 0
  numRefIdxL1DefaultMinus1 := 0
  weightedPred := false
  weightedBipredIdc := 0
  picInitQp := ⟨0, by decide⟩
  picInitQs := ⟨0, by decide⟩
  chromaQpIndexOffset := ⟨0, by decide⟩
  deblockingFilterControlPresent := true
  constrainedIntraPred := false
  redundantPicCntPresent := false

/-- An intra slice whose picture changes the marking of others. -/
def markingSlice (operations : List Marking) : SliceSyntax where
  refIdc := 3
  idr := false
  firstMb := ⟨0, by decide⟩
  sliceType := 2
  colourPlaneId := 0
  frameNum := 5
  fieldPic := false
  bottomField := false
  idrPicId := ⟨0, by decide⟩
  picOrderCntLsb := 0
  deltaPicOrderCntBottom := ⟨0, by decide⟩
  deltaPicOrderCnt0 := ⟨0, by decide⟩
  deltaPicOrderCnt1 := ⟨0, by decide⟩
  redundantPicCnt := ⟨0, by decide⟩
  directSpatialMvPred := false
  numRefIdxOverride := none
  modificationL0 := none
  modificationL1 := none
  weights :=
    { lumaLog2Denom := ⟨0, by decide⟩
      chromaLog2Denom := ⟨0, by decide⟩
      l0 := fun _ => ⟨none, none⟩
      l1 := fun _ => ⟨none, none⟩ }
  marking := ⟨false, false, some operations⟩
  cabacInitIdc := ⟨0, by decide⟩
  sliceQpDelta := ⟨-2, by decide⟩
  spForSwitch := false
  sliceQsDelta := ⟨0, by decide⟩
  disableDeblockingFilterIdc := ⟨0, by decide⟩
  sliceAlphaOffset := ⟨0, by decide⟩
  sliceBetaOffset := ⟨1, by decide⟩

/-- One marking operation more than are read: fields are kept as long-term
references and forgotten again, and their number is limited. -/
def longMarking : List Marking :=
  List.replicate 32 (.keepShortTerm ⟨0, by decide⟩ ⟨0, by decide⟩) ++
    List.replicate 32 (.forgetLongTerm ⟨0, by decide⟩) ++
    [.limitLongTerm ⟨0, by decide⟩]

theorem slice_headers_measured_short_marking :
    ∃ first second,
      (empty 4).update (escaped 0 [103, 66, 0, 30, 216, 68, 40, 76] ++ []) =
        .ok first ∧
      first.update (escaped 0 [104, 206, 60] ++ []) = .ok second ∧
      second.headerBits (escaped 0 [97, 186, 205, 46, 128] ++ [255, 0, 0, 1]) =
        .ok 34 := by
  obtain ⟨first, second, hfirst, hsecond, hbits⟩ :=
    slice_headers_measured.1 plainSps plainPps (markingSlice [.forgetAll]) rfl
      { modificationL0 := nofun
        modificationL1 := nofun
        marking := by
          rintro operations ⟨⟩
          decide }
      (empty 4) [103, 66, 0, 30, 216, 68, 40, 76] [] [104, 206, 60] []
      [97, 186, 205, 46, 128] [255, 0, 0, 1] (by decide)
      (by decide) (by decide) (by decide)
  exact ⟨first, second, hfirst, hsecond, hbits⟩

theorem long_marking_unmeasured :
    plainPps.spsId = plainSps.id ∧
      ¬ Measures plainSps plainPps (markingSlice longMarking) := by
  refine ⟨rfl, fun hmeasures => ?_⟩
  have hsps : plainSps.bits <+: bitsOf [103, 66, 0, 30, 216, 68, 40, 76] := by
    decide
  have hpps : plainPps.bits <+: bitsOf [104, 206, 60] := by decide
  obtain ⟨first, second, hfirst, hsecond, hbits⟩ :=
    @hmeasures (empty 4) [103, 66, 0, 30, 216, 68, 40, 76] [] [104, 206, 60] []
      [97, 186, 201, 147, 38, 76, 153, 50, 100, 201, 147, 38, 76, 153, 50, 100,
        201, 147, 38, 76, 153, 50, 100, 201, 147, 38, 76, 153, 50, 100, 221,
        221, 221, 221, 221, 221, 221, 221, 221, 221, 221, 221, 221, 221, 221,
        221, 203, 151, 64] [] hsps hpps (by decide +kernel) (by decide +kernel)
  rw [update_sps _ _ hsps] at hfirst
  cases hfirst
  rw [update_pps _ _ hpps] at hsecond
  cases hsecond
  revert hbits
  decide +kernel

end Segmentor.Avc
