import Segmentor.AvcSyntax

/-!
# Measuring H.264 slice headers

Parameter sets and slice headers are read as they were written, field by field,
so the measure of a header is its length.
-/

namespace Segmentor.Avc

open General BitReading Reading

/-! ## Sequence parameter sets -/

theorem reads_scalingList (deltas : ScalingDeltas) (left index : ℕ)
    (last next : ℤ) :
    (skipScalingList left last next).Reads
      (scalingListBits deltas left index last next) () := by
  induction left generalizing index last next with
  | zero => exact reads_pure ()
  | succ left ih =>
      rw [skipScalingList, scalingListBits]
      by_cases hnext : next = 0
      · rw [if_pos hnext, ← List.nil_append (scalingListBits _ _ _ _ _)]
        refine (reads_absent (not_not_intro hnext)).bind ?_
        rw [if_neg (not_not_intro hnext)]
        exact ih index last next
      · rw [if_neg hnext]
        refine (reads_there hnext ((reads_seValue (deltas index)).map
          fun delta => (last + delta + 256) % 256)).bind ?_
        rw [ite_not]
        exact ih (index + 1) _ _

theorem reads_scalingMatrix (matrix : ScalingMatrix) (lists : ℕ) :
    (skipScalingMatrix lists).Reads (scalingMatrixBits matrix lists) () := by
  refine reads_forEach fun index _ => ?_
  exact reads_announced fun deltas _ => reads_scalingList deltas _ 0 8 8

theorem reads_chromaFormat (high : HighSyntax) :
    chromaFormat.Reads high.bits (high.chromaFormatIdc.1, high.separate) := by
  refine (reads_finUe high.chromaFormatIdc (by decide)).field ?_
  rw [if_neg (by omega)]
  refine Reads.field (a := high.separate) (reads_present (fun hthree => ?_)
    fun hthree => ?_) ?_
  · unfold HighSyntax.separate
    rw [decide_eq_true hthree, Bool.true_and]
    exact reads_bit _
  · unfold HighSyntax.separate
    rw [decide_eq_false hthree, Bool.false_and]
  refine (reads_ueValue high.bitDepthLuma).field ?_
  refine (reads_ueValue high.bitDepthChroma).field ?_
  refine (reads_skip rfl).field ?_
  rw [List.flatten_singleton]
  cases high.scalingMatrix with
  | none => exact (reads_bit false).bind ((reads_pure ()).bind (reads_pure _))
  | some matrix =>
      exact (reads_bit true).bind
        ((reads_there rfl (reads_scalingMatrix matrix _)).before (reads_pure _))

theorem reads_small {code max : ℕ} (h : code ≤ max) :
    (ofExcept (small code max) : BitReading ℕ).Reads [] code :=
  reads_ofExcept (if_neg (not_lt.mpr h))

theorem reads_pictureOrder (order : PictureOrder) :
    (pictureOrder order.type).Reads order.fieldBits
      (order.log2MaxLsb, order.deltaAlwaysZero) := by
  cases order with
  | lsb log2 =>
      dsimp only [pictureOrder, PictureOrder.type]
      rw [if_pos rfl]
      exact (reads_finUe log2 (by decide)).before
        ((reads_small (by omega)).after (reads_pure _))
  | cycle deltaAlwaysZero nonRef topToBottom offsets short =>
      dsimp only [pictureOrder, PictureOrder.type]
      rw [if_neg (show ¬ 1 = 0 by decide), if_pos rfl]
      refine (reads_bit deltaAlwaysZero).field ?_
      refine (reads_seValue nonRef).field ?_
      refine (reads_seValue topToBottom).field ?_
      refine (reads_ue (by omega)).field ?_
      refine (reads_small short).after ?_
      refine Reads.last ?_
      exact (reads_times fun offset _ => reads_seValue offset).map _
  | decodeOrder => exact reads_pure _

theorem PictureOrder.type_lt (order : PictureOrder) :
    order.type + 1 < 2 ^ 32 := by
  cases order <;> simp [PictureOrder.type]

def SpsSyntax.value (sps : SpsSyntax) : Sps where
  chromaArrayType := sps.chromaArrayType
  separateColourPlane := sps.separateColourPlane
  log2MaxFrameNum := sps.log2MaxFrameNumMinus4 + 4
  pocType := sps.pictureOrder.type
  log2MaxPocLsb := sps.pictureOrder.log2MaxLsb
  deltaPicOrderAlwaysZero := sps.pictureOrder.deltaAlwaysZero
  frameMbsOnly := sps.frameMbsOnly

theorem length_nalHeader (refIdc : Fin 4) (nalUnitType : ℕ) :
    (nalHeader refIdc nalUnitType).length = 8 := by
  unfold nalHeader
  rw [List.length_append, List.length_append, length_toBits, length_toBits]
  rfl

theorem reads_sps (sps : SpsSyntax) :
    spsFields.Reads sps.bits (sps.id.1, sps.value) := by
  refine (reads_skip (length_nalHeader sps.refIdc 7)).field ?_
  refine (reads_finBits sps.profileIdc (by decide)).field ?_
  refine (reads_skip (length_toBits 16 _)).field ?_
  refine (reads_ueValue sps.id).field ?_
  refine Reads.field (a := sps.chroma)
    (reads_present (fun hhigh => ?_) fun hlow => ?_) ?_
  · rw [SpsSyntax.chroma, if_pos (show sps.hasHigh from hhigh)]
    exact reads_chromaFormat sps.high
  · rw [SpsSyntax.chroma, if_neg (show ¬ sps.hasHigh from hlow)]
  refine (reads_finUe sps.log2MaxFrameNumMinus4 (by decide)).field ?_
  refine (reads_small (by omega)).after ?_
  refine (reads_ue sps.pictureOrder.type_lt).field ?_
  refine (reads_pictureOrder sps.pictureOrder).field ?_
  refine (reads_ueValue sps.maxNumRefFrames).field ?_
  refine (reads_skip rfl).field ?_
  refine (reads_ueValue sps.widthInMbs).field ?_
  refine (reads_ueValue sps.heightInMapUnits).field ?_
  exact Reads.last ((reads_bit sps.frameMbsOnly).map _)

/-! ## Picture parameter sets -/

theorem reads_refCount (count : Fin 32) :
    refCount.Reads (golomb count) (count + 1) := by
  refine (reads_finUe count (by decide)).before (reads_ofExcept ?_)
  have hsum : checkedAdd (2 ^ 32) count.1 1 = some (count.1 + 1) :=
    if_pos (by omega)
  rw [hsum, Option.filter_some, if_pos (decide_eq_true (by omega)), okOr_some]

def PpsSyntax.value (pps : PpsSyntax) : Pps where
  spsId := pps.spsId.1
  entropyCoding := pps.entropyCodingMode
  bottomFieldPicOrderInFramePresent := pps.bottomFieldPicOrderInFramePresent
  numRefIdxL0Default := pps.numRefIdxL0DefaultMinus1 + 1
  numRefIdxL1Default := pps.numRefIdxL1DefaultMinus1 + 1
  weightedPred := pps.weightedPred
  weightedBipredIdc := pps.weightedBipredIdc
  deblockingFilterControlPresent := pps.deblockingFilterControlPresent
  redundantPicCntPresent := pps.redundantPicCntPresent

theorem reads_pps (pps : PpsSyntax) :
    ppsFields.Reads pps.bits (pps.id.1, pps.value) := by
  refine (reads_skip (length_nalHeader pps.refIdc 8)).field ?_
  refine (reads_ueValue pps.id).field ?_
  refine (reads_ueValue pps.spsId).field ?_
  refine (reads_bit pps.entropyCodingMode).field ?_
  refine (reads_bit pps.bottomFieldPicOrderInFramePresent).field ?_
  refine (reads_ue (show 0 + 1 < 2 ^ 32 by decide)).field ?_
  rw [if_neg (not_not_intro rfl)]
  refine (reads_refCount pps.numRefIdxL0DefaultMinus1).field ?_
  refine (reads_refCount pps.numRefIdxL1DefaultMinus1).field ?_
  refine (reads_bit pps.weightedPred).field ?_
  refine (reads_finBits pps.weightedBipredIdc (by decide)).field ?_
  refine (reads_seValue pps.picInitQp).field ?_
  refine (reads_seValue pps.picInitQs).field ?_
  refine (reads_seValue pps.chromaQpIndexOffset).field ?_
  refine (reads_bit pps.deblockingFilterControlPresent).field ?_
  refine (reads_skip rfl).field ?_
  exact Reads.last ((reads_bit pps.redundantPicCntPresent).map _)

/-! ## Slice headers -/

theorem reads_modifications {changes : ListModification} {left : ℕ}
    (h : changes.length < left) :
    (modifications left).Reads
      ((changes.flatMap fun change => golomb change.1 ++ change.2.bits) ++
        golomb 3) () := by
  induction changes generalizing left with
  | nil =>
      obtain ⟨left, rfl⟩ := Nat.exists_eq_add_one.mpr h
      refine (reads_ue (show 3 + 1 < 2 ^ 32 by decide)).before ?_
      rw [if_neg (by decide), if_pos rfl]
      exact reads_pure ()
  | cons change changes ih =>
      obtain ⟨left, rfl⟩ := Nat.exists_eq_add_one.mpr
        (Nat.zero_lt_of_lt h)
      rw [List.flatMap_cons, List.append_assoc, List.append_assoc]
      refine (reads_finUe change.1 (by decide)).bind ?_
      rw [if_pos (by omega)]
      exact (reads_ueValue change.2).bind (ih (Nat.lt_of_succ_lt_succ h))

theorem reads_listModification {changes : Option ListModification}
    (h : ∀ listed ∈ changes, listed.length ≤ 64) :
    listModification.Reads (listModificationBits changes) () := by
  exact reads_announced fun listed hlisted =>
    reads_modifications (Nat.lt_succ_of_le (h listed hlisted))

theorem reads_weights (weights : Weights) (chroma : ℕ) :
    (Avc.weights chroma).Reads (weights.bits chroma) () := by
  have hchroma : (do
      let weighted ← present (chroma ≠ 0) bit false
      let _ ← present weighted (times 4 se) []
      pure () : BitReading Unit).Reads
      (if chroma ≠ 0 then
        announced (fun pairs => pairs.1.1.bits ++ pairs.1.2.bits ++
          pairs.2.1.bits ++ pairs.2.2.bits) weights.chroma
      else []) () := by
    by_cases hzero : chroma ≠ 0
    · rw [if_pos hzero]
      cases weights.chroma with
      | none =>
          exact (reads_there hzero (reads_bit false)).before
            ((reads_absent Bool.false_ne_true).after (reads_pure ()))
      | some values =>
          exact (reads_there hzero (reads_bit true)).bind
            ((reads_there rfl (reads_fourSe _ _ _ _)).map fun _ => ())
    · rw [if_neg hzero]
      exact (reads_absent hzero).after
        ((reads_absent Bool.false_ne_true).after (reads_pure ()))
  unfold Weights.bits
  cases weights.luma with
  | none =>
      exact (reads_bit false).bind
        ((reads_absent Bool.false_ne_true).after hchroma)
  | some values =>
      rw [announced, List.append_assoc]
      exact (reads_bit true).bind
        ((reads_there rfl (reads_twoSe _ _)).bind hchroma)

theorem reads_predWeightTable (table : WeightTable) (chroma : ℕ) {l0 l1 : ℕ}
    (h : l0 + l1 < 2 ^ 32) :
    (predWeightTable chroma l0 l1).Reads (table.bits chroma l0 l1) () := by
  refine (reads_ueValue table.lumaLog2Denom).field ?_
  refine (reads_optional Iff.rfl
    fun _ => reads_ueValue table.chromaLog2Denom).field ?_
  have hall := @reads_times _ _ _ (Avc.weights chroma)
    (fun weights : Weights => weights.bits chroma) (fun _ => ())
    ((List.range l0).map table.l0 ++ (List.range l1).map table.l1)
    fun weights _ => reads_weights weights chroma
  rw [List.length_append, List.length_map, List.length_map, List.length_range,
    List.length_range, List.flatMap_append, List.flatMap_map,
    List.flatMap_map] at hall
  have hsum : saturatingAdd (2 ^ 32) l0 l1 = l0 + l1 := by
    unfold saturatingAdd
    omega
  rw [hsum, List.flatten_cons, List.flatten_singleton]
  exact hall.map fun _ => ()

theorem reads_markings {operations : List Marking} {left : ℕ}
    (h : operations.length < left) :
    (markings left).Reads (operations.flatMap Marking.bits ++ golomb 0) () := by
  induction operations generalizing left with
  | nil =>
      obtain ⟨left, rfl⟩ := Nat.exists_eq_add_one.mpr h
      exact (reads_ue (show 0 + 1 < 2 ^ 32 by decide)).before (reads_pure ())
  | cons operation operations ih =>
      obtain ⟨left, rfl⟩ := Nat.exists_eq_add_one.mpr
        (Nat.zero_lt_of_lt h)
      have hrest := ih (Nat.lt_of_succ_lt_succ h)
      rw [List.flatMap_cons, List.append_assoc]
      cases operation with
      | forgetShortTerm difference =>
          rw [Marking.bits, List.append_assoc]
          exact (reads_ue (show 1 + 1 < 2 ^ 32 by decide)).bind
            ((reads_ueValue difference).bind hrest)
      | forgetLongTerm number =>
          rw [Marking.bits, List.append_assoc]
          exact (reads_ue (show 2 + 1 < 2 ^ 32 by decide)).bind
            ((reads_ueValue number).bind hrest)
      | keepShortTerm difference place =>
          rw [Marking.bits, List.append_assoc, List.append_assoc]
          exact (reads_ue (show 3 + 1 < 2 ^ 32 by decide)).bind
            ((reads_ueValue difference).bind
              ((reads_ueValue place).bind hrest))
      | limitLongTerm most =>
          rw [Marking.bits, List.append_assoc]
          exact (reads_ue (show 4 + 1 < 2 ^ 32 by decide)).bind
            ((reads_ueValue most).bind hrest)
      | forgetAll =>
          exact (reads_ue (show 5 + 1 < 2 ^ 32 by decide)).bind hrest
      | keepCurrent place =>
          rw [Marking.bits, List.append_assoc]
          exact (reads_ue (show 6 + 1 < 2 ^ 32 by decide)).bind
            ((reads_ueValue place).bind hrest)

theorem reads_decRefPicMarking (marking : MarkingSyntax) (idr : Bool)
    (h : ∀ operations ∈ marking.operations, operations.length ≤ 64) :
    (decRefPicMarking idr).Reads (marking.bits idr) () := by
  unfold decRefPicMarking MarkingSyntax.bits
  cases idr with
  | true => exact reads_skip rfl
  | false =>
      exact reads_announced fun operations hoperations =>
        reads_markings (Nat.lt_succ_of_le (h operations hoperations))

section Slices

variable (slice : SliceSyntax) (sps : SpsSyntax) (pps : PpsSyntax)

theorem SliceSyntax.activeL0_le : slice.activeL0 pps ≤ 32 := by
  unfold SliceSyntax.activeL0
  cases slice.numRefIdxOverride with
  | none => exact pps.numRefIdxL0DefaultMinus1.2
  | some counts => exact counts.1.2

theorem SliceSyntax.activeL1_le : slice.activeL1 pps ≤ 32 := by
  unfold SliceSyntax.activeL1
  cases slice.numRefIdxOverride with
  | none => exact pps.numRefIdxL1DefaultMinus1.2
  | some counts => exact counts.2.2

theorem reads_sliceFront :
    sliceFront.Reads (slice.frontFields pps).flatten
      { nalRefIdc := slice.refIdc
        nalType := slice.nalUnitType
        sliceType := slice.sliceType % 5
        ppsId := pps.id.1 } := by
  have htype : slice.nalUnitType = 1 ∨ slice.nalUnitType = 5 := by
    unfold SliceSyntax.nalUnitType
    cases slice.idr <;> decide
  unfold SliceSyntax.frontFields nalHeader
  rw [List.flatten_cons, List.append_assoc, List.append_assoc]
  refine (reads_skip rfl).bind ?_
  refine (@reads_finBits 2 slice.refIdc (by decide)).bind ?_
  refine (reads_bits (by decide)).bind ?_
  rw [Nat.mod_eq_of_lt (by omega), if_neg (by omega)]
  refine (reads_ueValue slice.firstMb).field ?_
  refine (reads_finUe slice.sliceType (by decide)).field ?_
  rw [if_neg (by omega)]
  exact Reads.last ((reads_ueValue pps.id).map _)

/-- Where the numbers of references are given, and where the set's hold. -/
theorem reads_numRefIdx {f : ℕ → ℕ → BitReading Unit} {back : List Bool}
    (hf : ∀ l0 l1, (slice.isP ∨ slice.isSp ∨ slice.isB →
      l0 = slice.activeL0 pps) → (slice.isB → l1 = slice.activeL1 pps) →
      (f l0 l1).Reads back ()) :
    (do
      let overridden ← present (slice.isP ∨ slice.isSp ∨ slice.isB) bit false
      let l0 ← present overridden refCount pps.value.numRefIdxL0Default
      let l1 ← present (overridden ∧ slice.isB) refCount
        pps.value.numRefIdxL1Default
      f l0 l1 : BitReading Unit).Reads
      ((if slice.isP ∨ slice.isSp ∨ slice.isB then slice.numRefIdxBits
        else []) ++ back) () := by
  by_cases hinter : slice.isP ∨ slice.isSp ∨ slice.isB
  · rw [if_pos hinter]
    unfold SliceSyntax.numRefIdxBits
    unfold SliceSyntax.activeL0 SliceSyntax.activeL1 at hf
    cases hoverride : slice.numRefIdxOverride with
    | none =>
        rw [hoverride] at hf
        exact (reads_there hinter (reads_bit false)).bind
          ((reads_absent Bool.false_ne_true).after
            ((reads_absent fun h => Bool.false_ne_true h.1).after
              (hf _ _ (fun _ => rfl) fun _ => rfl)))
    | some counts =>
        rw [hoverride] at hf
        rw [announced, List.append_assoc, List.append_assoc]
        refine (reads_there hinter (reads_bit true)).bind ?_
        refine (reads_there rfl (reads_refCount counts.1)).bind ?_
        refine Reads.bind (reads_optional (a := counts.2.1 + 1)
          (by simp) fun _ => reads_refCount counts.2) ?_
        exact hf _ _ (fun _ => rfl) fun hb => if_pos ⟨rfl, hb⟩
  · rw [if_neg hinter]
    refine (reads_absent hinter).after ?_
    refine (reads_absent Bool.false_ne_true).after ?_
    refine (reads_absent fun h => Bool.false_ne_true h.1).after ?_
    exact hf _ _ (fun h => absurd h hinter)
      fun hb => absurd (Or.inr (Or.inr hb)) hinter

theorem nalUnitType_eq_five_iff : slice.nalUnitType = 5 ↔ slice.idr := by
  unfold SliceSyntax.nalUnitType
  cases slice.idr <;> decide

theorem reads_sliceMarking (hbounded : slice.Bounded) :
    (decRefPicMarking (slice.nalUnitType = 5)).Reads
      (slice.marking.bits slice.idr) () := by
  have hidr : decide (slice.nalUnitType = 5) = slice.idr := by
    rw [Bool.eq_iff_iff, decide_eq_true_iff]
    exact nalUnitType_eq_five_iff slice
  rw [hidr]
  exact reads_decRefPicMarking slice.marking slice.idr hbounded.marking

theorem reads_sliceWeights {l0 l1 : ℕ} (hl0 : l0 = slice.activeL0 pps)
    (hl1 : slice.isB → l1 = slice.activeL1 pps) :
    (predWeightTable sps.chromaArrayType l0 (if slice.isB then l1 else 0)).Reads
      (slice.weights.bits sps.chromaArrayType (slice.activeL0 pps)
        (if slice.isB then slice.activeL1 pps else 0)) () := by
  have hcount : (if slice.isB then l1 else 0) =
      if slice.isB then slice.activeL1 pps else 0 := by
    by_cases hb : slice.isB
    · rw [if_pos hb, if_pos hb, hl1 hb]
    · rw [if_neg hb, if_neg hb]
  rw [hl0, hcount]
  refine reads_predWeightTable slice.weights sps.chromaArrayType ?_
  have hfirst := slice.activeL0_le pps
  have hsecond := slice.activeL1_le pps
  split <;> omega

theorem reads_sliceFields (hbounded : slice.Bounded) :
    (sliceFields sps.value pps.value slice.refIdc slice.nalUnitType
      (slice.sliceType % 5)).Reads (slice.backFields sps pps).flatten () := by
  have hidr := nalUnitType_eq_five_iff slice
  unfold SliceSyntax.backFields
  refine (reads_skipOptional (length_toBits _ _)).field ?_
  refine (reads_skip (length_toBits _ _)).field ?_
  have hfield : (if ¬ sps.value.frameMbsOnly then slice.fieldPic else false) =
      slice.isField sps := by
    unfold SliceSyntax.isField SpsSyntax.value
    cases sps.frameMbsOnly <;> rfl
  refine (reads_optional Iff.rfl fun _ => reads_bit slice.fieldPic).field ?_
  rw [hfield]
  refine (reads_skipOptional rfl).field ?_
  refine (reads_optional hidr fun _ => reads_ueValue slice.idrPicId).field ?_
  refine (reads_skipOptional (length_toBits _ _)).field ?_
  have hbottom : decide (pps.value.bottomFieldPicOrderInFramePresent ∧
      ¬ slice.isField sps) = true ↔
      pps.bottomFieldPicOrderInFramePresent ∧ ¬ slice.isField sps :=
    decide_eq_true_iff
  have hdeltas : decide (sps.value.pocType = 1 ∧
      ¬ sps.value.deltaPicOrderAlwaysZero) = true ↔
      sps.pictureOrder.type = 1 ∧ ¬ sps.pictureOrder.deltaAlwaysZero :=
    decide_eq_true_iff
  refine (reads_optional (and_congr Iff.rfl hbottom)
    fun _ => reads_seValue slice.deltaPicOrderCntBottom).field ?_
  refine (reads_optional hdeltas
    fun _ => reads_seValue slice.deltaPicOrderCnt0).field ?_
  refine (reads_optional (and_congr hdeltas hbottom)
    fun _ => reads_seValue slice.deltaPicOrderCnt1).field ?_
  refine (reads_optional Iff.rfl
    fun _ => reads_ueValue slice.redundantPicCnt).field ?_
  refine (reads_skipOptional rfl).field ?_
  rw [List.flatten_cons]
  refine reads_numRefIdx slice pps fun l0 l1 hl0 hl1 => ?_
  have hinter : ¬ slice.isI ∧ ¬ slice.isSi ↔
      slice.isP ∨ slice.isSp ∨ slice.isB := by
    unfold SliceSyntax.isI SliceSyntax.isSi SliceSyntax.isP SliceSyntax.isSp
      SliceSyntax.isB
    simp only [decide_eq_true_eq]
    omega
  refine (reads_optional Iff.rfl
    fun _ => reads_listModification hbounded.modificationL0).field ?_
  refine (reads_optional (and_iff_right_of_imp fun hb =>
      hinter.mpr (Or.inr (Or.inr hb)))
    fun _ => reads_listModification hbounded.modificationL1).field ?_
  refine (reads_optional (a := ()) Iff.rfl fun hweighted => ?_).field ?_
  · have hlisted : slice.isP ∨ slice.isSp ∨ slice.isB :=
      hweighted.elim (fun h => h.2.elim Or.inl fun hsp => Or.inr (Or.inl hsp))
        fun h => Or.inr (Or.inr h.2)
    exact reads_sliceWeights slice sps pps (hl0 hlisted) hl1
  refine (reads_optional Iff.rfl
    fun _ => reads_sliceMarking slice hbounded).field ?_
  refine (reads_optional Iff.rfl
    fun _ => reads_ueValue slice.cabacInitIdc).field ?_
  refine (reads_seValue slice.sliceQpDelta).field ?_
  refine (reads_skipOptional rfl).field ?_
  refine (reads_optional Iff.rfl
    fun _ => reads_seValue slice.sliceQsDelta).field ?_
  refine (reads_optional Iff.rfl
    fun _ => reads_ueValue slice.disableDeblockingFilterIdc).field ?_
  refine Reads.last ((reads_optional ?_ fun _ =>
    reads_twoSe slice.sliceAlphaOffset slice.sliceBetaOffset).map _)
  show (if pps.deblockingFilterControlPresent then
    slice.disableDeblockingFilterIdc.1 else 1) ≠ 1 ↔ _
  split <;> simp_all

theorem reads_sliceHeader {parameters : Parameters}
    (hsets : parameters.sets pps.id.1 = .ok (sps.value, pps.value))
    (hbounded : slice.Bounded) :
    (sliceHeader parameters).Reads (slice.bits sps pps) () := by
  unfold SliceSyntax.bits
  rw [List.flatten_append]
  exact (reads_sliceFront slice pps).bind
    ((reads_ofExcept hsets).after (reads_sliceFields slice sps pps hbounded))

end Slices

end Segmentor.Avc
