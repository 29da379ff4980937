import Segmentor.HevcHeaders

/-!
# H.265 slice segment headers measured

A parameter set is short enough to be read whole, so a slice segment's NAL unit
is read with the sets as they were written, and its header measured with what
stands in them.  Looking at less of a unit never measures it otherwise.
-/

namespace Segmentor.Hevc

open General BitReading Reading

/-! ## How long parameter sets are -/

theorem length_stepsBits_le (steps : List (PocStep × Bool)) :
    (SetSyntax.stepsBits steps).length ≤ steps.length * 64 := by
  refine length_flatMap_le fun step _ => ?_
  have hcode := @length_golomb_le step.1.1 (by omega)
  rw [List.length_append, List.length_singleton]
  omega

theorem length_flagBits_le (flags : Bool × Bool) :
    (SetSyntax.flagBits flags).length ≤ 2 := by
  obtain ⟨used, delta⟩ := flags
  cases used <;> simp [SetSyntax.flagBits]

theorem length_setBits_le {earlier : List ReferenceSet} {set : SetSyntax}
    (hearlier : ∀ set ∈ earlier, set.Reaches earlier.length)
    (hcount : earlier.length ≤ 64) (hfits : set.Fits earlier false) :
    (set.bits earlier false).length ≤ 2400 := by
  cases set with
  | explicit before after =>
      obtain ⟨hbefore, hafter⟩ := hfits
      have hfirst := @length_golomb_le before.length (by omega)
      have hsecond := @length_golomb_le after.length (by omega)
      have hsteps := length_stepsBits_le before
      have hothers := length_stepsBits_le after
      have hflag : (if earlier.length ≠ 0 then [false] else []).length ≤ 1 := by
        split <;> simp
      simp only [SetSyntax.bits, List.flatten_cons, List.flatten_nil,
        List.length_append, List.length_nil]
      omega
  | inter deltaIdxMinus1 negative magnitude flags =>
      obtain ⟨set, hset, hreference⟩ := SetSyntax.exists_reference hfits
      have hfew := (hearlier set hset).few
      have hcode := @length_golomb_le magnitude.1 (by omega)
      have hflags := @length_flatMap_le _ _
        (fun index => SetSyntax.flagBits (flags index)) 2
        (List.range (set.len + 1)) fun index _ => length_flagBits_le _
      rw [List.length_range] at hflags
      simp only [SetSyntax.bits, hreference, Option.elim_some,
        List.flatten_cons, List.flatten_nil, List.length_append,
        List.length_singleton, List.length_nil, Bool.false_eq_true, if_false]
      omega

theorem length_setsBits_le {earlier : List ReferenceSet}
    {sets : List SetSyntax}
    (hearlier : ∀ set ∈ earlier, set.Reaches earlier.length)
    (hcount : earlier.length + sets.length ≤ 64)
    (hfit : SetsFit earlier sets) :
    (setsBits earlier sets).length ≤ sets.length * 2400 := by
  induction sets generalizing earlier with
  | nil => exact Nat.zero_le _
  | cons set sets ih =>
      rw [List.length_cons] at hcount
      have hset := length_setBits_le hearlier (by omega) hfit.1
      have hothers := ih (SetSyntax.reaches_concat hearlier hfit.1) (by
        rw [List.length_append, List.length_singleton]
        omega) hfit.2
      rw [setsBits, List.length_append, List.length_cons]
      omega

theorem length_scalingListBits_le (sizeId : ℕ) (list : ScalingList) :
    (list.bits sizeId).length ≤ 4100 := by
  cases list with
  | copied matrixIdDelta =>
      have hcode := length_ueBits_le matrixIdDelta
      simp only [ScalingList.bits, List.flatten_cons, List.flatten_nil,
        List.length_append, List.length_singleton, List.length_nil]
      omega
  | own dcCoef deltas =>
      have hdc : (if 1 < sizeId then dcCoef.bits else []).length ≤ 63 := by
        split
        · exact length_seBits_le dcCoef
        · exact Nat.zero_le _
      have hdeltas := @length_flatMap_le _ _
        (fun index => (deltas index).bits) 63
        (List.range (min 64 (2 ^ (4 + 2 * sizeId))))
        fun index _ => length_seBits_le _
      rw [List.length_range] at hdeltas
      simp only [ScalingList.bits, List.flatten_cons, List.flatten_nil,
        List.length_append, List.length_singleton, List.length_nil]
      omega

theorem length_scalingListDataBits_le (lists : ScalingLists) :
    (scalingListDataBits lists).length ≤ 98400 := by
  refine length_flatMap_le (l := [0, 1, 2, 3]) fun sizeId _ =>
    show _ ≤ 24600 from ?_
  refine (length_flatMap_le fun index _ =>
    length_scalingListBits_le sizeId (lists sizeId index)).trans ?_
  rw [List.length_range]
  split <;> omega

theorem length_fieldsBits_le {count : ℕ} (values : Fin count → UeValue) :
    (fieldsBits values).length ≤ count * 63 := by
  have hall := @length_flatMap_le _ _ (fun index => (values index).bits) 63
    (List.finRange count) fun index _ => length_ueBits_le _
  rwa [List.length_finRange] at hall

theorem length_elim_le {α : Type} {write : α → List Bool} {bound : ℕ}
    (h : ∀ a, (write a).length ≤ bound) (value : Option α) :
    (value.elim [] write).length ≤ bound := by
  cases value with
  | none => exact Nat.zero_le _
  | some a => exact h a

theorem length_profileTierLevel_le (ptl : ProfileTierLevel) {layers : ℕ}
    (hlayers : layers ≤ 6) : (ptl.bits layers).length ≤ 700 := by
  have hflags := @length_flatMap_le _ _ (fun layer =>
    [(ptl.subLayers layer).profile.isSome,
      (ptl.subLayers layer).level.isSome]) 2 (List.range layers)
    fun layer _ => le_rfl
  have hreserved : (if 0 < layers then
      List.replicate (2 * (8 - layers)) false else []).length ≤ 16 := by
    split
    · rw [List.length_replicate]
      omega
    · exact Nat.zero_le _
  have hlevels := @length_flatMap_le _ _ (fun layer =>
    (ptl.subLayers layer).profile.elim [] (fun profile => toBits 88 profile)
      ++ (ptl.subLayers layer).level.elim [] fun level => toBits 8 level) 96
    (List.range layers) fun layer _ => by
      have hprofile := @length_elim_le _ (fun profile : Fin (2 ^ 88) =>
        toBits 88 profile) 88 (fun _ => (length_toBits 88 _).le)
        (ptl.subLayers layer).profile
      have hlevel := @length_elim_le _ (fun level : Fin (2 ^ 8) =>
        toBits 8 level) 8 (fun _ => (length_toBits 8 _).le)
        (ptl.subLayers layer).level
      rw [List.length_append]
      omega
  rw [List.length_range] at hflags hlevels
  simp only [ProfileTierLevel.bits, List.flatten_cons, List.flatten_nil,
    List.length_append, List.length_nil, length_toBits]
  omega

theorem length_pcm_le (pcm : PcmSyntax) : pcm.bits.length ≤ 135 := by
  have hleast := length_ueBits_le pcm.log2MinSize
  have hdiff := length_ueBits_le pcm.log2DiffSize
  simp only [PcmSyntax.bits, List.flatten_cons, List.flatten_nil,
    List.length_append, List.length_singleton, List.length_nil, length_toBits]
  omega

theorem length_spsFront_le (sps : SpsSyntax) :
    sps.frontFields.flatten.length ≤ 101000 := by
  have hformat := @length_golomb_le sps.chromaFormatIdc.1 (by omega)
  have hseparate : (if sps.chromaFormatIdc.1 = 3 then
      [sps.separateColourPlane] else []).length ≤ 1 := by
    split <;> simp
  have hwidth := length_ueBits_le sps.width
  have hheight := length_ueBits_le sps.height
  have hwindow := length_announced_le length_fieldsBits_le
    sps.conformanceWindow
  have hluma := length_ueBits_le sps.bitDepthLuma
  have hchroma := length_ueBits_le sps.bitDepthChroma
  have hlog2 := @length_golomb_le sps.log2MaxPocLsbMinus4.1 (by omega)
  have hlayers : sps.orderedLayers ≤ 7 := by
    unfold SpsSyntax.orderedLayers
    split <;> omega
  have hordering := @length_flatMap_le _ _
    (fun layer => fieldsBits (sps.orderingInfo layer)) 189
    (List.range sps.orderedLayers) fun layer _ => length_fieldsBits_le _
  rw [List.length_range] at hordering
  have hctb := sps.ctb_le
  have hleast := @length_golomb_le sps.log2MinCbMinus3 (by omega)
  have hdiff := @length_golomb_le sps.log2DiffCb (by omega)
  have htransform := length_fieldsBits_le sps.transformSizes
  have hscaling := length_announced_le
    (length_announced_le length_scalingListDataBits_le) sps.scaling
  have hpcm := length_announced_le length_pcm_le sps.pcm
  simp only [SpsSyntax.frontFields, List.flatten_cons, List.flatten_nil,
    List.length_append, List.length_singleton, List.length_nil]
  linarith

theorem length_longTermBits_le (sps : SpsSyntax) {listed : List (ℕ × Bool)}
    (hlisted : listed.length ≤ 32) :
    (sps.longTermBits listed).length ≤ 700 := by
  have hcode := @length_golomb_le listed.length (by omega)
  have hpictures := @length_flatMap_le _ _ (fun picture : ℕ × Bool =>
    toBits sps.log2MaxPocLsb picture.1 ++ [picture.2]) 17 listed
    fun picture _ => by
      rw [List.length_append, length_toBits, List.length_singleton,
        SpsSyntax.log2MaxPocLsb]
      omega
  rw [SpsSyntax.longTermBits, List.length_append]
  omega

theorem length_sps_le (sps : SpsSyntax) : sps.bits.length ≤ 260000 := by
  have hprofile := length_profileTierLevel_le sps.profileTierLevel
    (show sps.maxSubLayersMinus1.1 ≤ 6 by omega)
  have hid := length_ueBits_le sps.id
  have hfront := length_spsFront_le sps
  have hcount := sps.referenceSets_le
  have hcode := @length_golomb_le sps.referenceSets.length (by omega)
  have hsets := length_setsBits_le (List.forall_mem_nil _)
    (show ([] : List ReferenceSet).length + sps.referenceSets.length ≤ 64 by
      rwa [List.length_nil, Nat.zero_add]) sps.referenceSets_fit
  have hlongTerm : (announced sps.longTermBits sps.longTerm).length ≤ 701 := by
    have hle := sps.longTerm_le
    cases hlisted : sps.longTerm with
    | none => exact Nat.succ_le_succ (Nat.zero_le 700)
    | some listed =>
        have hlisted := length_longTermBits_le sps (hle listed hlisted)
        rw [announced, List.length_append, List.length_singleton]
        omega
  simp only [SpsSyntax.bits, SpsSyntax.fields, List.flatten_cons,
    List.flatten_nil, List.length_append, List.length_singleton,
    List.length_nil, length_toBits, length_nalHeader]
  omega

theorem length_tiles_le (tiles : TileSyntax) : tiles.bits.length ≤ 33000 := by
  have hcolumns := @length_golomb_le tiles.columnsMinus1.1 (by omega)
  have hrows := @length_golomb_le tiles.rowsMinus1.1 (by omega)
  have hsizes := @length_elim_le _ (fun sizes : ℕ → UeValue =>
    (List.range (tiles.columnsMinus1 + tiles.rowsMinus1)).flatMap
      fun index => (sizes index).bits) (510 * 63) (fun sizes => by
        have hall := @length_flatMap_le _ _ (fun index => (sizes index).bits)
          63 (List.range (tiles.columnsMinus1 + tiles.rowsMinus1))
          fun index _ => length_ueBits_le _
        rw [List.length_range] at hall
        omega) tiles.sizes
  simp only [TileSyntax.bits, List.flatten_cons, List.flatten_nil,
    List.length_append, List.length_singleton, List.length_nil]
  omega

theorem length_deblocking_le (deblocking : DeblockingSyntax) :
    deblocking.bits.length ≤ 128 := by
  have hoffsets := @length_elim_le _ (fun offsets : SeValue × SeValue =>
    offsets.1.bits ++ offsets.2.bits) 126 (fun offsets => by
      have hfirst := length_seBits_le offsets.1
      have hsecond := length_seBits_le offsets.2
      rw [List.length_append]
      omega) deblocking.offsets
  simp only [DeblockingSyntax.bits, offsetsBits, List.length_append,
    List.length_singleton]
  omega

theorem length_extension_le (pps : PpsSyntax) (extension : PpsExtension) :
    (pps.extensionBits extension).length ≤ 100 := by
  have hrange := @length_elim_le _ pps.rangeBits 65 (fun range => by
    have hsize : (if pps.transformSkip then
        range.log2MaxTransformSkipSize.bits else []).length ≤ 63 := by
      split
      · exact length_ueBits_le _
      · exact Nat.zero_le _
    simp only [PpsSyntax.rangeBits, List.flatten_cons, List.flatten_nil,
      List.length_append, List.length_singleton, List.length_nil]
    omega) extension.range
  simp only [PpsSyntax.extensionBits, List.flatten_cons, List.flatten_nil,
    List.length_append, List.length_singleton, List.length_nil, length_toBits]
  omega

theorem length_pps_le (pps : PpsSyntax) : pps.bits.length ≤ 140000 := by
  have hid := length_ueBits_le pps.id
  have hspsId := length_ueBits_le pps.spsId
  have hl0 := @length_golomb_le pps.numRefIdxL0DefaultMinus1.1 (by omega)
  have hl1 := @length_golomb_le pps.numRefIdxL1DefaultMinus1.1 (by omega)
  have hqp := length_seBits_le pps.initQp
  have hdepth := length_announced_le length_ueBits_le pps.cuQpDeltaDepth
  have hcb := length_seBits_le pps.cbQpOffset
  have hcr := length_seBits_le pps.crQpOffset
  have htiles := length_elim_le length_tiles_le pps.tiles
  have hdeblocking := length_announced_le length_deblocking_le pps.deblocking
  have hscaling := length_announced_le length_scalingListDataBits_le pps.scaling
  have hmerge := length_ueBits_le pps.log2ParallelMergeLevel
  have hextension := length_announced_le (length_extension_le pps) pps.extension
  simp only [PpsSyntax.bits, PpsSyntax.fields, List.flatten_cons,
    List.flatten_nil, List.length_append, List.length_singleton,
    List.length_nil, length_toBits, length_nalHeader]
  linarith

/-! ## Units -/

theorem head?_unit {front tail : List UInt8} {fields : List (List Bool)}
    {nalUnitType : ℕ} {temporalId : Fin (2 ^ 3)} (htype : nalUnitType < 64)
    (h : (nalHeader nalUnitType temporalId :: fields).flatten <+:
      bitsOf front) :
    (escaped 0 front ++ tail).head?.map nalType = some nalUnitType := by
  have hheader : [false] ++ (toBits 6 nalUnitType ++ [false]) <+:
      bitsOf front := by
    refine List.IsPrefix.trans ⟨toBits 5 0 ++ toBits 3 temporalId ++
      fields.flatten, ?_⟩ h
    simp only [nalHeader, List.flatten_cons, List.append_assoc]
    rfl
  obtain ⟨byte, hbyte, hmod⟩ := @head?_mod_of_bits front [false] [false] 6
    nalUnitType rfl hheader
  rw [List.head?_append, head?_escaped, hbyte, Option.some_or,
    Option.map_some, nalType]
  congr 1
  rwa [Nat.mod_eq_of_lt (show nalUnitType < 2 ^ 6 from htype),
    List.length_singleton, pow_one] at hmod

theorem update_sps (parameters : Parameters) (sps : SpsSyntax)
    {front tail : List UInt8} (h : sps.bits <+: bitsOf front) :
    parameters.update (escaped 0 front ++ tail) =
      .ok { parameters with
        sps := Function.update parameters.sps sps.id.1 (some sps.value) } := by
  have hlength := length_sps_le sps
  have hparse : parseSps (escaped 0 front ++ tail) =
      .ok (sps.id.1, sps.value) :=
    map_run_of_reads_short (reads_sps sps) h (by
      unfold maxParameterSetBytes
      omega)
  rw [Parameters.update, head?_unit (by decide) h]
  dsimp only
  rw [hparse]
  rfl

theorem update_pps (parameters : Parameters) (pps : PpsSyntax)
    {front tail : List UInt8} (h : pps.bits <+: bitsOf front) :
    parameters.update (escaped 0 front ++ tail) =
      .ok { parameters with
        pps := Function.update parameters.pps pps.id.1 (some pps.value) } := by
  have hlength := length_pps_le pps
  have hparse : parsePps (escaped 0 front ++ tail) =
      .ok (pps.id.1, pps.value) :=
    map_run_of_reads_short (reads_pps pps) h (by
      unfold maxParameterSetBytes
      omega)
  rw [Parameters.update, head?_unit (by decide) h]
  dsimp only
  rw [hparse]
  rfl

theorem SliceSyntax.length_alignedBits (slice : SliceSyntax) (sps : SpsSyntax)
    (pps : PpsSyntax) :
    (slice.alignedBits sps pps).length =
      ((slice.bits sps pps).length / 8 + 1) * 8 := by
  rw [alignedBits, List.length_append, List.length_cons, List.length_replicate]
  omega

theorem headerBits_slice {parameters : Parameters} {sps : SpsSyntax}
    {pps : PpsSyntax} {slice : SliceSyntax} {front tail : List UInt8}
    {limit : ℕ}
    (hsets : parameters.sets pps.id.1 = .ok (sps.value, pps.value))
    (hfits : slice.Fits sps)
    (h : slice.alignedBits sps pps <+: bitsOf front)
    (hlimit : (escaped 0 front).length ≤ limit) :
    parameters.headerBits (Rbsp.new (escaped 0 front ++ tail) limit) =
      .ok (slice.alignedBits sps pps).length := by
  have hbits := ((List.prefix_append _ _).trans h).trans
    (bitsOf_mono (front_prefix_bytes front tail hlimit))
  rw [Parameters.headerBits,
    run_of_reads (reads_sliceHeader slice sps pps hsets hfits) hbits,
    SliceSyntax.length_alignedBits]
  rfl

/-! ## Attempts -/

namespace Parameters

variable {parameters : Parameters} {nal : List UInt8}

theorem headerBits_eq_ok_iff {rbsp : Rbsp} {bits : ℕ} :
    parameters.headerBits rbsp = .ok bits ↔
      ∃ read, read <+: bitsOf rbsp.bytes ∧
        (sliceHeader parameters).Reads read () ∧
        bits = (read.length / 8 + 1) * 8 := by
  constructor
  · intro h
    unfold headerBits at h
    cases hrun : (sliceHeader parameters).run rbsp.reader with
    | error error =>
        rw [hrun] at h
        cases h
    | ok result =>
        rw [hrun] at h
        obtain ⟨read, hread, hreads, hstop⟩ :=
          exists_reads_of_run (a := result.1) hrun
        refine ⟨read, hread, hreads, ?_⟩
        rw [← Except.ok.inj h]
        dsimp only
        rw [hstop]
  · rintro ⟨read, hread, hreads, rfl⟩
    rw [headerBits, run_of_reads hreads hread]
    rfl

theorem attempt_eq_ok_iff {limit count : ℕ} :
    parameters.attempt nal limit = .ok count ↔
      ∃ bits, parameters.headerBits (Rbsp.new nal limit) = .ok bits ∧
        (Rbsp.new nal limit).nalBytesCovering bits = some count := by
  unfold attempt
  rw [bind_eq_ok_iff]
  exact exists_congr fun bits => and_congr Iff.rfl okOr_eq_ok_iff

theorem attempt_of_le {limit more count : ℕ} (hle : limit ≤ more)
    (h : parameters.attempt nal limit = .ok count) :
    parameters.attempt nal more = .ok count := by
  obtain ⟨bits, hbits, hcover⟩ := attempt_eq_ok_iff.mp h
  obtain ⟨read, hread, hreads, rfl⟩ := headerBits_eq_ok_iff.mp hbits
  obtain ⟨later, hbytes, -, -⟩ := Rbsp.new_of_le nal hle
  refine attempt_eq_ok_iff.mpr ⟨_, headerBits_eq_ok_iff.mpr ⟨read, ?_, hreads,
    rfl⟩, Rbsp.nalBytesCovering_of_le hle hcover⟩
  exact hread.trans (bitsOf_mono ⟨_, hbytes.symm⟩)

theorem attempt_of_count_le {limit more count : ℕ} (hle : limit ≤ more)
    (hcount : count ≤ limit) (h : parameters.attempt nal more = .ok count) :
    parameters.attempt nal limit = .ok count := by
  obtain ⟨bits, hbits, hcover⟩ := attempt_eq_ok_iff.mp h
  obtain ⟨read, hread, hreads, rfl⟩ := headerBits_eq_ok_iff.mp hbits
  obtain ⟨later, hbytes, -, -⟩ := Rbsp.new_of_le nal hle
  have hlimit := Rbsp.nalBytesCovering_of_count_le hle hcount hcover
  have hwithin := Rbsp.bits_le_of_nalBytesCovering hlimit
  refine attempt_eq_ok_iff.mpr ⟨_, headerBits_eq_ok_iff.mpr ⟨read, ?_, hreads,
    rfl⟩, hlimit⟩
  refine List.prefix_of_prefix_length_le hread
    (bitsOf_mono ⟨_, hbytes.symm⟩) ?_
  rw [length_bitsOf]
  omega

theorem attempt_of_length_le {limit : ℕ} (h : nal.length ≤ limit) :
    parameters.attempt nal limit = parameters.attempt nal nal.length := by
  have hnew : Rbsp.new nal limit = Rbsp.new nal nal.length := by
    unfold Rbsp.new
    rw [List.take_of_length_le (by rwa [List.length_zipIdx]),
      List.take_of_length_le (by rw [List.length_zipIdx])]
  unfold attempt
  rw [hnew]

/-- Whichever limit is tried, nothing else is measured than without one. -/
theorem attempt_unlimited {limit count : ℕ}
    (h : parameters.attempt nal limit = .ok count) :
    parameters.attempt nal nal.length = .ok count := by
  by_cases hle : limit ≤ nal.length
  · exact attempt_of_le hle h
  · rwa [attempt_of_length_le (by omega)] at h

theorem attempt_of_unlimited {limit count : ℕ} (hcount : count ≤ limit)
    (h : parameters.attempt nal nal.length = .ok count) :
    parameters.attempt nal limit = .ok count := by
  by_cases hle : limit ≤ nal.length
  · exact attempt_of_count_le hle hcount h
  · rwa [attempt_of_length_le (by omega)]

theorem unlimited_of_clearBytes {count : ℕ}
    (h : parameters.clearBytes nal = .ok count) :
    parameters.attempt nal nal.length = .ok count := by
  unfold clearBytes at h
  split at h
  · rename_i first hfirst
    rw [← Except.ok.inj h]
    exact attempt_unlimited hfirst
  · split at h
    · exact attempt_unlimited h
    · cases h

theorem clearBytes_of_unlimited {count : ℕ}
    (hcount : count ≤ largeSliceHeaderBytes)
    (h : parameters.attempt nal nal.length = .ok count) :
    parameters.clearBytes nal = .ok count := by
  unfold clearBytes
  cases hfirst : parameters.attempt nal sliceHeaderBytes with
  | ok first =>
      have hsame := attempt_unlimited hfirst
      rw [h] at hsame
      exact hsame.symm
  | error error =>
      dsimp only
      have hlong : sliceHeaderBytes < nal.length := by
        by_contra hshort
        rw [attempt_of_length_le (by omega), h] at hfirst
        cases hfirst
      rw [if_pos hlong]
      exact attempt_of_unlimited hcount h

end Parameters

/-! ## Measures -/

/-- Units with these values are taken in and measured, with the alignment,
whatever stands behind the bits of each and however much is looked at behind
the header. -/
def Measures (sps : SpsSyntax) (pps : PpsSyntax) (slice : SliceSyntax) : Prop :=
  ∀ (parameters : Parameters)
    (spsFront spsTail ppsFront ppsTail front tail : List UInt8),
    sps.bits <+: bitsOf spsFront → pps.bits <+: bitsOf ppsFront →
    slice.alignedBits sps pps <+: bitsOf front →
    ∃ first second,
      parameters.update (escaped 0 spsFront ++ spsTail) = .ok first ∧
      first.update (escaped 0 ppsFront ++ ppsTail) = .ok second ∧
      ∀ limit, (escaped 0 front).length ≤ limit →
        second.headerBits (Rbsp.new (escaped 0 front ++ tail) limit) =
          .ok (slice.alignedBits sps pps).length

/-- Headers are measured exactly, and what is looked at of a unit changes the
measure only from none to that of the whole. -/
theorem slice_segment_headers_measured :
    (∀ (sps : SpsSyntax) (pps : PpsSyntax) (slice : SliceSyntax),
      pps.spsId = sps.id → slice.Fits sps → Measures sps pps slice) ∧
    ∀ (parameters : Parameters) (nal : List UInt8) (count : ℕ),
      (parameters.attempt nal sliceHeaderBytes = .ok count →
        parameters.attempt nal nal.length = .ok count) ∧
      (parameters.clearBytes nal = .ok count →
        parameters.attempt nal nal.length = .ok count) ∧
      (count ≤ largeSliceHeaderBytes →
        parameters.attempt nal nal.length = .ok count →
          parameters.clearBytes nal = .ok count) := by
  refine ⟨fun sps pps slice hid hfits => ?_, fun parameters nal count =>
    ⟨Parameters.attempt_unlimited, Parameters.unlimited_of_clearBytes,
      Parameters.clearBytes_of_unlimited⟩⟩
  intro parameters spsFront spsTail ppsFront ppsTail front tail hsps hpps hslice
  refine ⟨_, _, update_sps parameters sps hsps, update_pps _ pps hpps,
    fun limit hlimit => headerBits_slice ?_ hfits hslice hlimit⟩
  unfold Parameters.sets
  dsimp only
  rw [Function.update_self, okOr_some, ok_bind]
  show okOr (Function.update parameters.sps sps.id.1 (some sps.value)
    pps.spsId.1) _ >>= _ = _
  rw [hid, Function.update_self, okOr_some, ok_bind]

/-! ## A slice with a set of its own -/

/-- The number, or the last one that its field holds. -/
def capped (last number : ℕ) : Fin (last + 1) :=
  ⟨min number last, Nat.lt_succ_of_le (Nat.min_le_right ..)⟩

/-- Two pictures in front and one behind, and a set built on that one. -/
def pyramidSets : List SetSyntax :=
  [.explicit [(0, true), (2, false)] [(0, true)],
    .inter 0 true 0 fun index => if index = 1 then (false, true) else (true, false)]

def pyramidSps : SpsSyntax where
  temporalId := 1
  vpsId := 0
  maxSubLayersMinus1 := 0
  temporalIdNesting := true
  profileTierLevel :=
    { spaceAndTier := 0
      profileIdc := 1
      compatibilityAndLevel := 93
      subLayers := fun _ => ⟨none, none⟩
      supported := by decide }
  id := ⟨0, UeValue.zero_fits⟩
  chromaFormatIdc := capped _ 1
  separateColourPlane := false
  width := ⟨416, by decide⟩
  height := ⟨240, by decide⟩
  conformanceWindow := none
  bitDepthLuma := ⟨0, UeValue.zero_fits⟩
  bitDepthChroma := ⟨0, UeValue.zero_fits⟩
  log2MaxPocLsbMinus4 := capped _ 4
  orderingInfoPresent := false
  orderingInfo := fun _ _ => ⟨4, by decide⟩
  log2MinCbMinus3 := 0
  log2DiffCb := 3
  ctb_le := by decide
  transformSizes := fun _ => ⟨0, UeValue.zero_fits⟩
  scaling := none
  amp := false
  sampleAdaptiveOffset := true
  pcm := none
  referenceSets := pyramidSets
  referenceSets_le := by decide
  referenceSets_fit := by
    refine ⟨⟨by decide, by decide⟩, ?_, trivial⟩
    show 0 < 1
    decide
  longTerm := none
  longTerm_le := nofun
  temporalMvp := true

def pyramidPps : PpsSyntax where
  temporalId := 1
  id := ⟨0, UeValue.zero_fits⟩
  spsId := ⟨0, UeValue.zero_fits⟩
  dependentSliceSegmentsEnabled := false
  outputFlagPresent := false
  numExtraSliceHeaderBits := 0
  signDataHiding := false
  cabacInitPresent := false
  numRefIdxL0DefaultMinus1 := 1
  numRefIdxL1DefaultMinus1 := 0
  initQp := ⟨0, SeValue.zero_fits⟩
  constrainedIntraPred := false
  transformSkip := false
  cuQpDeltaDepth := none
  cbQpOffset := ⟨0, SeValue.zero_fits⟩
  crQpOffset := ⟨0, SeValue.zero_fits⟩
  sliceChromaQpOffsetsPresent := false
  weightedPred := false
  weightedBipred := false
  transquantBypass := false
  tiles := none
  entropyCodingSync := true
  loopFilterAcrossSlices := true
  deblocking := none
  scaling := none
  listsModificationPresent := true
  log2ParallelMergeLevel := ⟨0, UeValue.zero_fits⟩
  sliceHeaderExtensionPresent := false
  extension := none

/-- A slice with a set of its own, built on the first of the sequence, and with
its references in another order. -/
def pyramidSlice : SliceSyntax where
  nalUnitType := 1
  supported := by decide
  temporalId := 1
  firstSliceSegment := true
  noOutputOfPriorPics := false
  dependent := false
  segmentAddress := 0
  reservedFlags := 0
  sliceType := capped _ 1
  picOutput := true
  colourPlaneId := capped _ 0
  picOrderCntLsb := 6
  shortTerm := .own (.inter 1 true 1 fun index => (index ≠ 1, false))
  longTermListed := []
  longTermOwn := []
  longTerm_le := by decide
  temporalMvp := true
  saoLuma := true
  saoChroma := false
  numRefIdxOverride := none
  modificationL0 := some fun index => 1 - index
  modificationL1 := none
  mvdL1Zero := false
  cabacInit := false
  collocatedFromL0 := true
  collocatedRefIdx := ⟨1, by decide⟩
  weights :=
    { lumaLog2Denom := ⟨0, UeValue.zero_fits⟩
      deltaChromaLog2Denom := ⟨0, SeValue.zero_fits⟩
      l0 := fun _ => ⟨none, none⟩
      l1 := fun _ => ⟨none, none⟩ }
  fiveMinusMaxNumMergeCand := ⟨0, UeValue.zero_fits⟩
  sliceQpDelta := ⟨2, by decide⟩
  cbQpOffset := ⟨0, SeValue.zero_fits⟩
  crQpOffset := ⟨0, SeValue.zero_fits⟩
  cuChromaQpOffsetEnabled := false
  deblockingOverride := none
  loopFilterAcrossSlices := true
  entryPoints :=
    { offsetLenMinus1 := capped _ 11
      offsets := [100, 90, 80]
      offsets_lt := by decide }
  headerExtension := []
  headerExtension_lt := by decide

theorem slice_segment_headers_measured_own_set :
    ∃ first second,
      (empty 4).update (escaped 0 [66, 1, 1, 1, 0, 0, 0, 0, 0, 0, 0, 0, 0, 0,
        93, 160, 13, 8, 15, 22, 81, 74, 89, 60, 155, 91, 126, 232] ++ []) =
        .ok first ∧
      first.update (escaped 0 [68, 1, 192, 44, 96, 204] ++ []) = .ok second ∧
      second.headerBits (Rbsp.new (escaped 0 [2, 1, 208, 50, 170, 121, 69, 36,
        131, 1, 144, 22, 129, 66] ++ [255, 0, 0, 1]) 1024) = .ok 112 ∧
      second.clearBytes (escaped 0 [2, 1, 208, 50, 170, 121, 69, 36, 131, 1,
        144, 22, 129, 66] ++ [255, 0, 0, 1]) = .ok 14 := by
  obtain ⟨first, second, hfirst, hsecond, hbits⟩ :=
    slice_segment_headers_measured.1 pyramidSps pyramidPps pyramidSlice rfl
      { listed := nofun
        own := by
          rintro set ⟨⟩
          show 1 < pyramidSps.sets.length
          decide
        longTerm := nofun }
      (empty 4) [66, 1, 1, 1, 0, 0, 0, 0, 0, 0, 0, 0, 0, 0, 93, 160, 13, 8, 15,
        22, 81, 74, 89, 60, 155, 91, 126, 232] [] [68, 1, 192, 44, 96, 204] []
      [2, 1, 208, 50, 170, 121, 69, 36, 131, 1, 144, 22, 129, 66]
      [255, 0, 0, 1] (by decide +kernel) (by decide +kernel)
      (by decide +kernel)
  have hlength : (pyramidSlice.alignedBits pyramidSps pyramidPps).length =
      112 := by decide +kernel
  rw [hlength] at hbits
  refine ⟨first, second, hfirst, hsecond, hbits 1024 (by decide), ?_⟩
  have hattempt := Parameters.attempt_eq_ok_iff.mpr
    ⟨112, hbits 18 (by decide), show _ = some 14 by decide⟩
  exact (slice_segment_headers_measured.2 second _ 14).2.2 (by decide) hattempt

end Segmentor.Hevc
