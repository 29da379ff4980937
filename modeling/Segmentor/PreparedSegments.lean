import Segmentor.FragmentRoundTrip

/-!
# What a prepared segment serves

A prepared segment is served as its header followed by the ranges of the
source it lists.  The ranges hold the bytes of its samples in order, so each
sample is read back at the offset its run gives it.
-/

namespace Segmentor

open General

/-! ## The payload -/

def sampleBytes (source : List UInt8) (sample : Sample) : List UInt8 :=
  readRange source ⟨sample.offset, sample.size⟩

/-- What a client receives. -/
def PreparedSegment.served (prepared : PreparedSegment)
    (source : List UInt8) : List UInt8 :=
  prepared.header ++ prepared.ranges.flatMap (readRange source)

theorem length_sampleBytes {source : List UInt8} {sample : Sample}
    (hinside : sample.offset + sample.size ≤ source.length) :
    (sampleBytes source sample).length = sample.size :=
  length_readRange hinside

theorem length_flatMap_sampleBytes {source : List UInt8}
    {samples : List Sample}
    (hinside : ∀ sample ∈ samples,
      sample.offset + sample.size ≤ source.length) :
    (samples.flatMap (sampleBytes source)).length = totalSize samples := by
  induction samples with
  | nil => rfl
  | cons sample samples ih =>
      rw [List.flatMap_cons, List.length_append,
        length_sampleBytes (hinside sample (by simp)),
        ih fun s hs => hinside s (List.mem_cons_of_mem _ hs),
        totalSize_cons]

/-- Joining a sample to the range it touches reads the same bytes. -/
theorem coalesce_readRange {ranges joined : List ByteRange} {sample : Sample}
    (h : coalesce ranges sample = .ok joined) (source : List UInt8) :
    joined.flatMap (readRange source) =
      ranges.flatMap (readRange source) ++ sampleBytes source sample := by
  unfold coalesce at h
  split at h
  · rename_i previous hlast
    split at h
    · rename_i htouch
      obtain ⟨length, hlength, h⟩ := bind_eq_ok_iff.mp h
      obtain ⟨-, rfl⟩ :=
        checkedAdd_eq_some_iff.mp (okOr_eq_ok_iff.mp hlength)
      obtain ⟨-, hstop⟩ := checkedAdd_eq_some_iff.mp htouch
      obtain rfl := Except.ok.inj h
      have hranges : ranges = ranges.dropLast ++ [previous] :=
        (List.dropLast_append_getLast? previous hlast).symm
      conv_rhs => rw [hranges]
      simp only [List.flatMap_append, List.flatMap_singleton,
        List.append_assoc]
      unfold sampleBytes readRange
      rw [← hstop, List.take_add, List.drop_drop]
    · obtain rfl := Except.ok.inj h
      simp only [List.flatMap_append, List.flatMap_singleton]
      rfl
  · rename_i hlast
    obtain rfl := Except.ok.inj h
    obtain rfl := List.getLast?_eq_none_iff.mp hlast
    simp only [List.flatMap_nil, List.nil_append, List.flatMap_singleton]
    rfl

/-- The joined ranges hold the bytes of the samples in order. -/
theorem coalescedRanges_readRange {samples : List Sample}
    {ranges : List ByteRange} (h : coalescedRanges samples = .ok ranges)
    (source : List UInt8) :
    ranges.flatMap (readRange source) =
      samples.flatMap (sampleBytes source) := by
  have hfold := foldlM_invariant
    (I := fun rest ranges => ranges.flatMap (readRange source) ++
      rest.flatMap (sampleBytes source) =
        samples.flatMap (sampleBytes source))
    (fun sample rest ranges joined hI hjoin => by
      rw [coalesce_readRange hjoin, List.append_assoc, ← List.flatMap_cons,
        hI]) (by simp) h
  simpa using hfold

theorem payloadLength_eq_ok {samples : List Sample} {payload : ℕ}
    (h : payloadLength samples = .ok payload) :
    payload = totalSize samples := by
  simpa [totalSize] using (foldlM_checkedAdd_eq_ok h).symm

theorem totalPayload_eq_ok {expanded : List ExpandedPart} {payload : ℕ}
    (h : totalPayload expanded = .ok payload) :
    payload = (expanded.map ExpandedPart.payload).sum := by
  simpa using (foldlM_checkedAdd_eq_ok h).symm

/-! ## The samples that are read back -/

/-- A sample read back from a fragment is the one written: its size, duration
and offset are the same and its bytes are the source's.  In audio every sample
is read back as a sync sample. -/
structure SameSample (source served : List UInt8) (kind : TrackKind)
    (written found : Sample) : Prop where
  size_eq : found.size = written.size
  duration_eq : found.duration = written.duration
  compositionOffset_eq : found.compositionOffset = written.compositionOffset
  isSync_eq : found.isSync = (kind == .audio || written.isSync)
  bytes_eq : sampleBytes served found = sampleBytes source written

theorem readBack_same {source served : List UInt8} {kind : TrackKind}
    {samples : List Sample} {before after : List UInt8} {time : ℕ}
    (hinside : ∀ sample ∈ samples,
      sample.offset + sample.size ≤ source.length)
    (hserved : served =
      before ++ (samples.flatMap (sampleBytes source) ++ after)) :
    List.Forall₂ (SameSample source served kind) samples
      (readBack kind before.length time samples) := by
  induction samples generalizing before time with
  | nil => exact .nil
  | cons sample samples ih =>
      have hlength := length_sampleBytes (hinside sample (by simp))
      rw [List.flatMap_cons, List.append_assoc] at hserved
      have hbytes : sampleBytes served
          { offset := before.length
            size := sample.size
            decodeTime := time
            duration := sample.duration
            compositionOffset := sample.compositionOffset
            isSync := listedSync kind sample } =
          sampleBytes source sample := by
        unfold sampleBytes readRange at hserved hlength ⊢
        dsimp only
        rw [hserved, List.drop_left, List.take_left' hlength]
      have hrest := @ih (before ++ sampleBytes source sample)
        (time + sample.duration)
        (fun s hs => hinside s (List.mem_cons_of_mem _ hs))
        (by rw [hserved, List.append_assoc])
      rw [List.length_append, hlength] at hrest
      exact .cons ⟨rfl, rfl, rfl, rfl, hbytes⟩ hrest

/-! ## Preparing -/

/-- Whether a part has any samples. -/
def hasSamples (part : Track × TrackSegment) : Bool :=
  part.2.firstSample < part.2.endSample

/-- A part with its samples. -/
def expand (part : Track × TrackSegment) : ExpandedPart :=
  let samples :=
    part.1.samples.toVec part.2.firstSample part.2.endSample
  ⟨part.1, part.2, samples, totalSize samples⟩

theorem expand_valid {part : Track × TrackSegment}
    (hsamples : hasSamples part = true)
    (hend : part.2.endSample ≤ part.1.samples.len) : (expand part).Valid := by
  have hvalid := part.1.samples_valid
  have hfirst : part.2.firstSample < part.2.endSample := by
    simpa [hasSamples] using hsamples
  have htime := hvalid.totalDuration_toVec_lt hfirst hend
  refine ⟨hvalid.toVec_fits hfirst.le hend, ?_, rfl, ?_⟩
  · intro hnil
    have hlength := hvalid.length_toVec hfirst.le hend
    change part.1.samples.toVec _ _ = [] at hnil
    rw [hnil] at hlength
    simp only [List.length_nil] at hlength
    omega
  · exact lt_of_le_of_lt (Nat.le_add_left _ _) htime

theorem expandPart_eq_ok {part : (Track × TrackSegment) × ℕ}
    {parts expanded : List ExpandedPart}
    (h : expandPart parts part = .ok expanded) :
    part.1.2.endSample ≤ part.1.1.samples.len ∧
      expanded = parts ++ ([part.1].filter hasSamples).map expand := by
  obtain ⟨⟨track, segment⟩, index⟩ := part
  unfold expandPart at h
  dsimp only at h
  split at h
  · simp at h
  · rename_i hrange
    have hlength := @SampleIndex.Valid.length_toVec _ track.samples_valid
      segment.firstSample segment.endSample (by omega) (by omega)
    refine ⟨by dsimp only; omega, ?_⟩
    split at h
    · rename_i hempty
      rw [List.isEmpty_iff] at hempty
      rw [hempty, List.length_nil] at hlength
      have hnone : hasSamples (track, segment) = false := by
        simp only [hasSamples, decide_eq_false_iff_not]
        omega
      split at h
      · simp at h
      · obtain rfl := Except.ok.inj h
        simp [hnone]
    · rename_i hempty
      rw [List.isEmpty_iff, ← List.length_eq_zero_iff] at hempty
      obtain ⟨payload, hpayload, h⟩ := bind_eq_ok_iff.mp h
      obtain rfl := payloadLength_eq_ok hpayload
      obtain rfl := Except.ok.inj h
      have hsome : hasSamples (track, segment) = true := by
        simp only [hasSamples, decide_eq_true_eq]
        omega
      simp [hsome, expand]

theorem expandParts_eq_ok {parts : List (Track × TrackSegment)}
    {expanded : List ExpandedPart}
    (h : parts.zipIdx.foldlM expandPart [] = .ok expanded) :
    (∀ part ∈ parts, part.2.endSample ≤ part.1.samples.len) ∧
      expanded = (parts.filter hasSamples).map expand := by
  have hfold := foldlM_invariant
    (I := fun rest done =>
      (∀ part ∈ parts, part ∈ rest.map Prod.fst ∨
        part.2.endSample ≤ part.1.samples.len) ∧
      done ++ ((rest.map Prod.fst).filter hasSamples).map expand =
        (parts.filter hasSamples).map expand)
    (fun part rest done next hI hnext => by
      obtain ⟨hend, rfl⟩ := expandPart_eq_ok hnext
      refine ⟨fun other hother => ?_, ?_⟩
      · rcases hI.1 other hother with hmem | hother
        · rcases List.mem_cons.mp hmem with rfl | hmem
          · exact .inr hend
          · exact .inl hmem
        · exact .inr hother
      · rw [← hI.2, List.append_assoc, ← List.map_append,
          ← List.filter_append, List.map_cons, List.singleton_append])
    ⟨fun part hpart => .inl (by rwa [List.zipIdx_map_fst]), by
      rw [List.zipIdx_map_fst, List.nil_append]⟩ h
  refine ⟨fun part hpart => (hfold.1 part hpart).resolve_left (by simp), ?_⟩
  simpa using hfold.2

theorem partOffsets_eq_ok {offset : ℕ} {parts : List ExpandedPart}
    {offsets : List ℤ} (h : partOffsets offset parts = .ok offsets) :
    offsets = (placedParts offset parts).map (fun item => (item.2 : ℤ)) ∧
      ∀ item ∈ placedParts offset parts, item.2 < 2 ^ 31 := by
  induction parts generalizing offset offsets with
  | nil =>
      obtain rfl := Except.ok.inj h
      exact ⟨rfl, by simp [placedParts]⟩
  | cons part parts ih =>
      unfold partOffsets at h
      obtain ⟨first, hfirst, h⟩ := bind_eq_ok_iff.mp h
      obtain ⟨others, hothers, h⟩ := bind_eq_ok_iff.mp h
      obtain rfl := Except.ok.inj h
      obtain ⟨rfl, hrest⟩ := ih hothers
      unfold signedOffset at hfirst
      split at hfirst
      · rename_i hlt
        obtain rfl := Except.ok.inj hfirst
        exact ⟨rfl, List.forall_mem_cons.mpr ⟨hlt, hrest⟩⟩
      · simp at hfirst

theorem length_trafs {parts : List ExpandedPart} {offsets : List ℤ}
    {bytes : List (List UInt8)} (hlength : offsets.length = parts.length)
    (h : trafs parts offsets = .ok bytes) :
    bytes.flatten.length =
      (parts.map fun part => 64 + part.samples.length * 16).sum := by
  unfold trafs at h
  have hall := mapM_forall₂ h
  clear h
  induction parts generalizing offsets bytes with
  | nil =>
      rw [List.zip_nil_left, List.forall₂_nil_left_iff] at hall
      simp [hall]
  | cons part parts ih =>
      cases offsets with
      | nil => simp at hlength
      | cons offset offsets =>
          rw [List.zip_cons_cons] at hall
          cases hall with
          | cons hpart hrest =>
              obtain ⟨-, -, rfl⟩ := partTraf_eq_ok hpart
              rw [List.flatten_cons, List.length_append,
                ih (by simpa using hlength) hrest, length_boxBytes_code,
                ExpandedPart.length_trafPayload, List.map_cons, List.sum_cons]
              omega

theorem trafs_placed {offset : ℕ} {parts : List ExpandedPart}
    {bytes : List (List UInt8)}
    (h : trafs parts ((placedParts offset parts).map
      fun item => (item.2 : ℤ)) = .ok bytes) :
    bytes.flatten = (placedParts offset parts).flatMap placedTrafBytes ∧
      ∀ item ∈ placedParts offset parts,
        item.1.samples.length < 2 ^ 32 ∧
          (item.1.trafPayload item.2).length + 8 < 2 ^ 32 := by
  unfold trafs at h
  have hall := mapM_forall₂ h
  clear h
  induction parts generalizing offset bytes with
  | nil =>
      rw [List.zip_nil_left, List.forall₂_nil_left_iff] at hall
      simp [hall, placedParts]
  | cons part parts ih =>
      rw [placedParts, List.map_cons, List.zip_cons_cons] at hall
      cases hall with
      | cons hpart hrest =>
          obtain ⟨hcount, hsize, rfl⟩ := partTraf_eq_ok hpart
          obtain ⟨hflatten, hitems⟩ := ih hrest
          rw [placedParts, List.flatten_cons, List.flatMap_cons, hflatten]
          exact ⟨rfl, List.forall_mem_cons.mpr ⟨⟨hcount, hsize⟩, hitems⟩⟩

theorem moofOf_eq_ok {sequenceNumber : ℕ} {trafs : List (List UInt8)}
    {moof : List UInt8} (h : moofOf sequenceNumber [] trafs = .ok moof) :
    ∃ mfhd, mfhd.length = 8 ∧
      (boxBytes (code 'm' 'f' 'h' 'd') mfhd ++ trafs.flatten).length + 8 <
        2 ^ 32 ∧
      moof = boxBytes (code 'm' 'o' 'o' 'f')
        (boxBytes (code 'm' 'f' 'h' 'd') mfhd ++ trafs.flatten) := by
  unfold moofOf at h
  dsimp only at h
  obtain ⟨mfhdBox, hmfhd, h⟩ := bind_eq_ok_iff.mp h
  obtain ⟨-, rfl⟩ := writeBox_eq_ok_iff.mp hmfhd
  rw [List.append_nil] at h
  obtain ⟨hsize, rfl⟩ := writeBox_eq_ok_iff.mp h
  exact ⟨_, by simp [writeFullBoxFields], hsize, rfl⟩

theorem closeHeader_eq_ok {moof header : List UInt8}
    {payload contentLength : ℕ}
    (h : closeHeader moof payload = .ok (header, contentLength)) :
    ∃ mdat, mdat.length = 8 ∧ header = moof ++ mdat ∧
      contentLength = header.length + payload ∧ contentLength < 2 ^ 64 := by
  unfold closeHeader writeBoxHeader at h
  split at h
  · rw [ok_bind] at h
    dsimp only at h
    obtain ⟨length, hlength, h⟩ := bind_eq_ok_iff.mp h
    obtain ⟨hlt, rfl⟩ := checkedAdd_eq_some_iff.mp (okOr_eq_ok_iff.mp hlength)
    obtain ⟨rfl, rfl⟩ := Prod.mk.inj (Except.ok.inj h)
    refine ⟨_, ?_, rfl, rfl, hlt⟩
    rw [List.length_append, length_encode]
    rfl
  · simp at h

/-- The length of the `moof` does not depend on the data offsets, so the ones
computed from a provisional `moof` point behind the final header. -/
theorem written_of_parts {parts : List ExpandedPart} {zeros offsets : List ℤ}
    {sequenceNumber payload contentLength : ℕ}
    {provisionalTrafs finalTrafs : List (List UInt8)}
    {provisionalMoof moof header : List UInt8} {ranges : List ByteRange}
    (hvalid : ∀ part ∈ parts, part.Valid)
    (hzeros : zeros.length = parts.length)
    (hprovisionalTrafs : trafs parts zeros = .ok provisionalTrafs)
    (hprovisional : moofOf sequenceNumber [] provisionalTrafs =
      .ok provisionalMoof)
    (hoffsets : partOffsets (provisionalMoof.length + 8) parts = .ok offsets)
    (hfinalTrafs : trafs parts offsets = .ok finalTrafs)
    (hmoof : moofOf sequenceNumber [] finalTrafs = .ok moof)
    (hpayload : payload = (parts.map ExpandedPart.payload).sum)
    (hclose : closeHeader moof payload = .ok (header, contentLength)) :
    PreparedSegment.Written ⟨header, ranges, contentLength⟩ parts := by
  obtain ⟨rfl, hlt⟩ := partOffsets_eq_ok hoffsets
  have hlength : moof.length = provisionalMoof.length := by
    have h₁ := length_trafs hzeros hprovisionalTrafs
    have h₂ := length_trafs (by
      rw [List.length_map, ← List.length_map (f := Prod.fst),
        map_fst_placedParts]) hfinalTrafs
    obtain ⟨first, hfirst, -, rfl⟩ := moofOf_eq_ok hprovisional
    obtain ⟨second, hsecond, -, rfl⟩ := moofOf_eq_ok hmoof
    simp only [length_boxBytes_code, List.length_append, hfirst, hsecond, h₁,
      h₂]
  obtain ⟨mdat, hmdat, rfl, rfl, hcontent⟩ := closeHeader_eq_ok hclose
  have hheader : (moof ++ mdat).length = provisionalMoof.length + 8 := by
    rw [List.length_append, hlength, hmdat]
  rw [← hheader] at hlt hfinalTrafs
  obtain ⟨hflatten, hsizes⟩ := trafs_placed hfinalTrafs
  have hstops : ∀ offset, ∀ item ∈ placedParts offset parts,
      item.2 + item.1.payload ≤
        offset + (parts.map ExpandedPart.payload).sum := by
    clear * -
    induction parts with
    | nil => simp [placedParts]
    | cons part parts ih =>
        intro offset
        rw [placedParts, List.map_cons, List.sum_cons, List.forall_mem_cons]
        refine ⟨by dsimp only; omega, fun item hitem => ?_⟩
        have := ih _ item hitem
        omega
  refine ⟨fun item hitem => ?_, ?_, hpayload ▸ rfl⟩
  · change item ∈ placedParts (moof ++ mdat).length parts at hitem
    have hpart := forall_mem_placedParts.mpr hvalid item hitem
    have hstop := hstops _ item hitem
    rw [hpart.payload_eq] at hstop
    exact ⟨hpart, (hsizes item hitem).1, (hsizes item hitem).2,
      hlt item hitem, by omega⟩
  · obtain ⟨mfhd, hmfhd, hsize, hbox⟩ := moofOf_eq_ok hmoof
    rw [hflatten] at hsize hbox
    refine ⟨mfhd, mdat, hmfhd, hsize, ?_⟩
    dsimp only
    rw [← hbox]

theorem prepareMediaSegment_written {track : Track} {segment : TrackSegment}
    {sequenceNumber : ℕ} {limits : LimitsConfig} {prepared : PreparedSegment}
    (h : prepareMediaSegment track segment sequenceNumber limits =
      .ok prepared) :
    hasSamples (track, segment) = true ∧
      segment.endSample ≤ track.samples.len ∧
      prepared.Written [expand (track, segment)] ∧
      ∀ source, prepared.ranges.flatMap (readRange source) =
        (expand (track, segment)).samples.flatMap (sampleBytes source) := by
  unfold prepareMediaSegment buildMoof at h
  split at h
  · simp at h
  rename_i hrange
  dsimp only at h
  split at h
  · simp at h
  rename_i hempty
  have hlength := @SampleIndex.Valid.length_toVec _ track.samples_valid
    segment.firstSample segment.endSample (by omega) (by omega)
  rw [List.isEmpty_iff, ← List.length_eq_zero_iff] at hempty
  have hsamples : hasSamples (track, segment) = true := by
    simp only [hasSamples, decide_eq_true_eq]
    omega
  have hvalid := expand_valid hsamples (by dsimp only; omega)
  obtain ⟨provisionalMoof, hprovisional, h⟩ := bind_eq_ok_iff.mp h
  obtain ⟨provisionalTraf, hprovisionalTraf, hprovisional⟩ :=
    bind_eq_ok_iff.mp hprovisional
  obtain ⟨dataOffset, hdataOffset, h⟩ := bind_eq_ok_iff.mp h
  obtain ⟨moof, hmoof, h⟩ := bind_eq_ok_iff.mp h
  obtain ⟨traf, htraf, hmoof⟩ := bind_eq_ok_iff.mp hmoof
  obtain ⟨payload, hpayload, h⟩ := bind_eq_ok_iff.mp h
  split at h
  · simp at h
  obtain ⟨⟨header, contentLength⟩, hclose, h⟩ := bind_eq_ok_iff.mp h
  dsimp only at h
  obtain ⟨ranges, hranges, h⟩ := bind_eq_ok_iff.mp h
  obtain rfl := Except.ok.inj h
  refine ⟨hsamples, by omega, ?_, coalescedRanges_readRange hranges⟩
  have htrafs : ∀ offset traf,
      buildTraf track.id track.kind
        (track.samples.toVec segment.firstSample segment.endSample)
        segment.decodeTime offset [] = .ok traf →
      trafs [expand (track, segment)] [offset] = .ok [traf] := by
    intro offset traf htraf
    have hpart : partTraf (expand (track, segment)) offset = .ok traf := htraf
    simp [trafs, hpart, pure, Except.pure]
  have hoffsets : partOffsets (provisionalMoof.length + 8)
      [expand (track, segment)] = .ok [dataOffset] := by
    unfold signedOffset at hdataOffset
    unfold partOffsets signedOffset
    split at hdataOffset
    · rename_i hlt
      rw [if_pos hlt, Except.ok.inj hdataOffset]
      rfl
    · simp at hdataOffset
  exact written_of_parts (fun part hpart => by
      rw [List.mem_singleton] at hpart
      exact hpart ▸ hvalid) (by rfl)
    (htrafs 0 _ hprovisionalTraf) hprovisional hoffsets
    (htrafs dataOffset _ htraf) hmoof
    (by rw [payloadLength_eq_ok hpayload]; rfl) hclose

theorem prepareMuxedSegment_written {parts : List (Track × TrackSegment)}
    {sequenceNumber : ℕ} {limits : LimitsConfig} {prepared : PreparedSegment}
    (h : prepareMuxedSegment parts sequenceNumber limits = .ok prepared) :
    (∀ part ∈ parts, part.2.endSample ≤ part.1.samples.len) ∧
      prepared.Written ((parts.filter hasSamples).map expand) ∧
      ∀ source, prepared.ranges.flatMap (readRange source) =
        ((parts.filter hasSamples).map expand).flatMap
          fun part => part.samples.flatMap (sampleBytes source) := by
  unfold prepareMuxedSegment at h
  obtain ⟨expanded, hexpanded, h⟩ := bind_eq_ok_iff.mp h
  obtain ⟨hends, rfl⟩ := expandParts_eq_ok hexpanded
  obtain ⟨payload, hpayload, h⟩ := bind_eq_ok_iff.mp h
  split at h
  · simp at h
  split at h
  · simp at h
  obtain ⟨provisionalTrafs, hprovisionalTrafs, h⟩ := bind_eq_ok_iff.mp h
  obtain ⟨provisionalMoof, hprovisional, h⟩ := bind_eq_ok_iff.mp h
  obtain ⟨offsets, hoffsets, h⟩ := bind_eq_ok_iff.mp h
  obtain ⟨finalTrafs, hfinalTrafs, h⟩ := bind_eq_ok_iff.mp h
  obtain ⟨moof, hmoof, h⟩ := bind_eq_ok_iff.mp h
  obtain ⟨⟨header, contentLength⟩, hclose, h⟩ := bind_eq_ok_iff.mp h
  dsimp only at h
  obtain ⟨ranges, hranges, h⟩ := bind_eq_ok_iff.mp h
  obtain rfl := Except.ok.inj h
  refine ⟨hends, ?_, fun source => ?_⟩
  · refine written_of_parts ?_ (List.length_replicate ..) hprovisionalTrafs
      hprovisional hoffsets hfinalTrafs hmoof (totalPayload_eq_ok hpayload)
      hclose
    intro part hpart
    obtain ⟨source, hsource, rfl⟩ := List.mem_map.mp hpart
    rw [List.mem_filter] at hsource
    exact expand_valid hsource.2 (hends _ hsource.1)
  · have hall := mapM_forall₂ hranges
    dsimp only
    generalize (parts.filter hasSamples).map expand = expanded at hall ⊢
    clear * - hall
    induction hall with
    | nil => rfl
    | cons hpart _ ih =>
        rw [List.flatten_cons, List.flatMap_append, List.flatMap_cons, ih,
          coalescedRanges_readRange hpart]

/-! ## Reading back -/

/-- What the parser checks of a track it finds in `source`: every sample is
inside the file, and there are no more of them than the limit. -/
structure Loaded (source : List UInt8) (limits : LimitsConfig)
    (track : Track) : Prop where
  inside : ∀ sample ∈ track.samples.all,
    sample.offset + sample.size ≤ source.length
  count_le : track.samples.len ≤ limits.maxSamplesPerTrack

/-- Reading the fragment for the track of `part` gives its samples. -/
def Recovered (source : List UInt8) (limits : LimitsConfig)
    (defaults : TrackDefaults) (prepared : PreparedSegment)
    (part : Track × TrackSegment) : Prop :=
  ∃ found,
    trackSamples [⟨0, prepared.header⟩]
      { trackId := part.1.id
        defaults := defaults
        sourceLen := prepared.contentLength
        limits := limits } = .ok found ∧
    found.head?.map Sample.decodeTime = some part.2.decodeTime ∧
    List.Forall₂ (SameSample source (prepared.served source) part.1.kind)
      (part.1.samples.toVec part.2.firstSample part.2.endSample) found

def partDuration (part : Track × TrackSegment) : ℕ :=
  totalDuration
    (part.1.samples.toVec part.2.firstSample part.2.endSample)

/-- The decode times of the parts of a fragment fit a word, also when the
durations of a later part are added to an earlier one's. -/
structure DecodeTimesFit (parts : List (Track × TrackSegment)) : Prop where
  own : ∀ part ∈ parts, part.2.decodeTime + partDuration part < 2 ^ 64
  later : parts.Pairwise fun part other =>
    part.2.decodeTime + partDuration part + partDuration other < 2 ^ 64

/-- A segment that starts when its first sample does fits. -/
theorem decodeTimesFit_singleton {track : Track} {segment : TrackSegment}
    (hsamples : hasSamples (track, segment) = true)
    (hend : segment.endSample ≤ track.samples.len)
    (hstart : segment.decodeTime =
      track.samples.decodeTime segment.firstSample) :
    DecodeTimesFit [(track, segment)] := by
  have htime := track.samples_valid.totalDuration_toVec_lt
    (by simpa [hasSamples] using hsamples) hend
  rw [← hstart] at htime
  refine ⟨fun part hpart => ?_, List.pairwise_singleton ..⟩
  rw [List.mem_singleton] at hpart
  exact hpart ▸ htime

theorem Loaded.toVec_inside {source : List UInt8} {limits : LimitsConfig}
    {track : Track} (h : Loaded source limits track) {first stop : ℕ}
    (hfirst : first ≤ stop) (hstop : stop ≤ track.samples.len) :
    ∀ sample ∈ track.samples.toVec first stop,
      sample.offset + sample.size ≤ source.length := by
  intro sample hsample
  rw [track.samples_valid.toVec_eq hfirst hstop] at hsample
  exact h.inside sample
    (List.mem_of_mem_take (List.mem_of_mem_drop hsample))

theorem length_flatMap_expand {source : List UInt8}
    {parts : List (Track × TrackSegment)}
    (hinside : ∀ part ∈ parts, ∀ sample ∈ (expand part).samples,
      sample.offset + sample.size ≤ source.length) :
    ((parts.map expand).flatMap fun part =>
      part.samples.flatMap (sampleBytes source)).length =
      ((parts.map expand).map ExpandedPart.payload).sum := by
  induction parts with
  | nil => rfl
  | cons part parts ih =>
      rw [List.map_cons, List.flatMap_cons, List.length_append,
        length_flatMap_sampleBytes (hinside part (by simp)),
        ih fun other hother => hinside other (List.mem_cons_of_mem _ hother)]
      rfl

section Fragment

variable {source : List UInt8} {limits : LimitsConfig}
  {defaults : TrackDefaults} {prepared : PreparedSegment}
  {parts : List (Track × TrackSegment)}

/-- A part of a written fragment is recovered exactly where its decode times
fit a word, also when the durations of a later part are added. -/
theorem recovered_iff {before after : List (Track × TrackSegment)}
    {part : Track × TrackSegment}
    (h : prepared.Written ((before ++ part :: after).map expand))
    (hids : ((before ++ part :: after).map fun part => part.1.id).Nodup)
    (hranges : prepared.ranges.flatMap (readRange source) =
      ((before ++ part :: after).map expand).flatMap
        fun part => part.samples.flatMap (sampleBytes source))
    (hinside : ∀ other ∈ before ++ part :: after,
      ∀ sample ∈ (expand other).samples,
        sample.offset + sample.size ≤ source.length)
    (hmax : (expand part).samples.length ≤ limits.maxSamplesPerTrack) :
    Recovered source limits defaults prepared part ↔
      part.2.decodeTime + partDuration part < 2 ^ 64 ∧
        ∀ other ∈ after,
          part.2.decodeTime + partDuration part + partDuration other <
            2 ^ 64 := by
  rw [List.map_append, List.map_cons] at h hranges
  have hread := fun found => @trackSamples_written_eq_ok_iff
    ⟨part.1.id, defaults, prepared.contentLength, limits⟩ _ _ _ _ found h
    (by simpa only [List.map_append, List.map_cons, List.map_map,
      Function.comp_def, expand] using hids) rfl (Nat.le_refl _) hmax
  simp only [List.forall_mem_map] at hread
  change ∀ found, _ ↔ (part.2.decodeTime % 2 ^ 64 + partDuration part <
    2 ^ 64 ∧ ∀ other ∈ after, part.2.decodeTime % 2 ^ 64 +
      partDuration part + partDuration other < 2 ^ 64) ∧ found =
        readBack part.1.kind (prepared.header.length +
          ((before.map expand).map ExpandedPart.payload).sum)
          (part.2.decodeTime % 2 ^ 64) (expand part).samples at hread
  have hsamples : (expand part).samples ≠ [] := by
    have hvalid := forall_mem_placedParts.mp
      fun item hitem => (h.placed item hitem).valid
    exact (hvalid (expand part) (by simp)).nonempty
  have hhead : ∀ offset time, (readBack part.1.kind offset time
      (expand part).samples).head?.map Sample.decodeTime = some time := by
    intro offset time
    cases hcase : (expand part).samples with
    | nil => exact absurd hcase hsamples
    | cons sample rest => rfl
  constructor
  · rintro ⟨found, hfound, htime, -⟩
    obtain ⟨hfits, rfl⟩ := (hread found).mp hfound
    have hmod : part.2.decodeTime % 2 ^ 64 = part.2.decodeTime :=
      Option.some.inj ((hhead _ _).symm.trans htime)
    rwa [hmod] at hfits
  · intro hfits
    have hmod : part.2.decodeTime % 2 ^ 64 = part.2.decodeTime :=
      Nat.mod_eq_of_lt (by omega)
    rw [hmod] at hread
    refine ⟨_, (hread _).mpr ⟨hfits, rfl⟩, hhead _ _, ?_⟩
    have hbefore := @length_flatMap_expand source before
      fun other hother => hinside other (List.mem_append_left _ hother)
    rw [← hbefore, ← List.length_append]
    refine @readBack_same _ _ _ _ _
      ((after.map expand).flatMap fun part => part.samples.flatMap
        (sampleBytes source)) _ (fun sample hsample =>
      hinside part (by simp) sample hsample) ?_
    unfold PreparedSegment.served
    rw [hranges, List.flatMap_append, List.flatMap_cons, List.append_assoc]
    rfl

/-- A pairwise relation, by the ways to split the list at an element. -/
theorem pairwise_iff_split {α : Type} {R : α → α → Prop} {l : List α} :
    l.Pairwise R ↔ ∀ before a after, l = before ++ a :: after →
      ∀ b ∈ after, R a b := by
  constructor
  · rintro h before a after rfl
    exact (List.pairwise_cons.mp (List.pairwise_append.mp h).2.1).1
  · intro h
    induction l with
    | nil => exact .nil
    | cons a l ih =>
        exact .cons (h [] a l rfl) (ih fun before b after hl =>
          h (a :: before) b after (by rw [hl]; rfl))

/-- The parts of a written fragment are all recovered exactly where their
decode times fit. -/
theorem forall_recovered_iff (h : prepared.Written (parts.map expand))
    (hids : (parts.map fun part => part.1.id).Nodup)
    (hranges : prepared.ranges.flatMap (readRange source) =
      (parts.map expand).flatMap
        fun part => part.samples.flatMap (sampleBytes source))
    (hloaded : ∀ part ∈ parts, Loaded source limits part.1)
    (hbounds : ∀ part ∈ parts, part.2.firstSample ≤ part.2.endSample ∧
      part.2.endSample ≤ part.1.samples.len) :
    prepared.contentLength = (prepared.served source).length ∧
      ((∀ part ∈ parts,
        Recovered source limits defaults prepared part) ↔
        DecodeTimesFit parts) := by
  have hinside : ∀ part ∈ parts, ∀ sample ∈ (expand part).samples,
      sample.offset + sample.size ≤ source.length := fun part hpart =>
    (hloaded part hpart).toVec_inside (hbounds part hpart).1
      (hbounds part hpart).2
  have hmax : ∀ part ∈ parts,
      (expand part).samples.length ≤ limits.maxSamplesPerTrack := by
    intro part hpart
    have hcount := (hloaded part hpart).count_le
    obtain ⟨hfirst, hend⟩ := hbounds part hpart
    have hlength := part.1.samples_valid.length_toVec hfirst hend
    change (part.1.samples.toVec _ _).length ≤ _
    omega
  have hpart : ∀ before part after, parts = before ++ part :: after →
      (Recovered source limits defaults prepared part ↔
        part.2.decodeTime + partDuration part < 2 ^ 64 ∧
          ∀ other ∈ after,
            part.2.decodeTime + partDuration part + partDuration other <
              2 ^ 64) := by
    rintro before part after rfl
    exact recovered_iff h hids hranges hinside (hmax part (by simp))
  constructor
  · unfold PreparedSegment.served
    rw [h.length_eq, List.length_append, hranges,
      length_flatMap_expand hinside]
  · constructor
    · intro hall
      have hsplit : ∀ before part after, parts = before ++ part :: after →
          part.2.decodeTime + partDuration part < 2 ^ 64 ∧
            ∀ other ∈ after,
              part.2.decodeTime + partDuration part + partDuration other <
                2 ^ 64 := fun before part after heq =>
        (hpart before part after heq).mp
          (hall part (heq ▸ List.mem_append_right _ (List.mem_cons_self ..)))
      refine ⟨fun part hmem => ?_, pairwise_iff_split.mpr
        fun before part after heq => (hsplit before part after heq).2⟩
      obtain ⟨before, after, heq⟩ := List.append_of_mem hmem
      exact (hsplit before part after heq).1
    · intro hfits part hmem
      obtain ⟨before, after, heq⟩ := List.append_of_mem hmem
      exact (hpart before part after heq).mpr ⟨hfits.own part hmem,
        pairwise_iff_split.mp hfits.later before part after heq⟩

end Fragment

/-- Writing a fragment is undone by reading it, for every part of it, exactly
where the decode times of its parts fit a word; the announced length is the
length of what is served. -/
theorem prepared_segments_read_back (source : List UInt8)
    (limits : LimitsConfig) (defaults : TrackDefaults)
    (sequenceNumber : ℕ) :
    (∀ track segment prepared, Loaded source limits track →
      prepareMediaSegment track segment sequenceNumber limits =
        .ok prepared →
      prepared.contentLength = (prepared.served source).length ∧
        (Recovered source limits defaults prepared (track, segment) ↔
          DecodeTimesFit [(track, segment)])) ∧
    ∀ parts prepared, (∀ part ∈ parts, Loaded source limits part.1) →
      (parts.map fun part => part.1.id).Nodup →
      prepareMuxedSegment parts sequenceNumber limits = .ok prepared →
      prepared.contentLength = (prepared.served source).length ∧
        ((∀ part ∈ parts, hasSamples part = true →
          Recovered source limits defaults prepared part) ↔
          DecodeTimesFit (parts.filter hasSamples)) := by
  have hfirst : ∀ part : Track × TrackSegment, hasSamples part = true →
      part.2.firstSample ≤ part.2.endSample := by
    intro part hsamples
    simp only [hasSamples, decide_eq_true_eq] at hsamples
    exact hsamples.le
  constructor
  · intro track segment prepared hloaded hprepared
    obtain ⟨hsamples, hend, hwritten, hranges⟩ :=
      prepareMediaSegment_written hprepared
    have hall := @forall_recovered_iff _ _ defaults _ ([(track, segment)])
      hwritten (List.nodup_singleton _) (by simpa using hranges source)
      (by simpa using hloaded) (by simpa using ⟨hfirst _ hsamples, hend⟩)
    simpa using hall
  · intro parts prepared hloaded hids hprepared
    obtain ⟨hends, hwritten, hranges⟩ := prepareMuxedSegment_written hprepared
    have hall := @forall_recovered_iff _ _ defaults _ _ hwritten
      (hids.sublist (List.filter_sublist.map _)) (hranges source)
      (fun part hpart => hloaded part (List.mem_filter.mp hpart).1)
      (fun part hpart => ⟨hfirst part (List.mem_filter.mp hpart).2,
        hends part (List.mem_filter.mp hpart).1⟩)
    simpa only [List.mem_filter, and_imp] using hall

/-- A track of one sample that decodes close to the end of a word. -/
def lateTrack (id : Fin 3) (key : TrackKey) (offset duration : Fin 9) :
    Track :=
  .checked id key 1
    (.new ⟨[2], [⟨0, offset⟩], [⟨0, 2 ^ 64 - 10, duration⟩], [], none⟩)
    (Track.passes_iff.mpr ⟨⟨by omega, by decide, by decide, Nat.one_pos⟩, by
      revert offset duration
      decide⟩)

/-- A video sample of five seconds, and audio that starts with it. -/
def lateIndex (audioDuration : Fin 9) : MediaIndex where
  tracks := [lateTrack 1 .video 0 5, lateTrack 2 (.audio 1) 2 audioDuration]
  ids_unique := by
    revert audioDuration
    decide

def lateParts (audioDuration : Fin 9) : List (Track × TrackSegment) :=
  [(lateTrack 1 .video 0 5, ⟨1, 0, 1, 2 ^ 64 - 10, 5⟩),
   (lateTrack 2 (.audio 1) 2 audioDuration,
    ⟨2, 0, 1, 2 ^ 64 - 10, audioDuration⟩)]

def lateSource : List UInt8 :=
  [1, 2, 3, 4]

theorem lateParts_loaded (audioDuration : Fin 9) :
    ∀ part ∈ lateParts audioDuration, Loaded lateSource {} part.1 := by
  have hchecked : ∀ part ∈ lateParts audioDuration,
      (∀ sample ∈ part.1.samples.all,
        sample.offset + sample.size ≤ lateSource.length) ∧
      part.1.samples.len ≤ ({} : LimitsConfig).maxSamplesPerTrack := by
    revert audioDuration
    decide
  intro part hpart
  exact ⟨(hchecked part hpart).1, (hchecked part hpart).2⟩

def lateSegment : PreparedSegment :=
  (prepareMuxedSegment (lateParts 8) 1 {}).toOption.getD ⟨[], [], 0⟩

/-- Reading the only muxed segment for its video track stops at the audio's
duration. -/
theorem late_video_not_recovered :
    plan (lateIndex 8) 1000 {} =
        .ok ⟨[⟨0, (lateParts 8).map Prod.snd⟩]⟩ ∧
      prepareMuxedSegment (lateParts 8) 1 {} = .ok lateSegment ∧
      (∀ part ∈ lateParts 8, Loaded lateSource {} part.1) ∧
      trackSamples [⟨0, lateSegment.header⟩]
        ⟨1, {}, lateSegment.contentLength, {}⟩ =
          .error (invalidMedia "decode timestamp overflow") ∧
      ¬ ∀ part ∈ lateParts 8, hasSamples part = true →
        Recovered lateSource {} {} lateSegment part := by
  have hread : trackSamples [⟨0, lateSegment.header⟩]
      ⟨1, {}, lateSegment.contentLength, {}⟩ =
        .error (invalidMedia "decode timestamp overflow") := by
    decide +kernel
  refine ⟨by decide +kernel, by decide +kernel, lateParts_loaded 8, hread,
    fun hall => ?_⟩
  obtain ⟨found, hfound, -⟩ := hall _ (List.mem_cons_self ..) (by decide)
  change trackSamples [⟨0, lateSegment.header⟩]
    ⟨1, {}, lateSegment.contentLength, {}⟩ = .ok found at hfound
  simp [hread] at hfound

/-- Audio that ends with the video is read back beside it. -/
theorem prepared_segments_read_back_late :
    ∃ single muxed,
      prepareMediaSegment (lateTrack 1 .video 0 5)
        ⟨1, 0, 1, 2 ^ 64 - 10, 5⟩ 1 {} = .ok single ∧
      Recovered lateSource {} {} single
        (lateTrack 1 .video 0 5, ⟨1, 0, 1, 2 ^ 64 - 10, 5⟩) ∧
      prepareMuxedSegment (lateParts 3) 1 {} = .ok muxed ∧
      ∀ part ∈ lateParts 3, Recovered lateSource {} {} muxed part := by
  have h := prepared_segments_read_back lateSource {} {} 1
  obtain ⟨single, hsingle⟩ := exists_ok_of_isOk
    (x := prepareMediaSegment (lateTrack 1 .video 0 5)
      ⟨1, 0, 1, 2 ^ 64 - 10, 5⟩ 1 {}) (by decide +kernel)
  obtain ⟨muxed, hmuxed⟩ := exists_ok_of_isOk
    (x := prepareMuxedSegment (lateParts 3) 1 {}) (by decide +kernel)
  have hloaded := lateParts_loaded 3
  refine ⟨single, muxed, hsingle, ?_, hmuxed, ?_⟩
  · exact (h.1 _ _ _ (hloaded _ (List.mem_cons_self ..)) hsingle).2.mpr
      (decodeTimesFit_singleton (by decide) (by decide) (by decide))
  · intro part hpart
    refine (h.2 _ _ hloaded (by decide) hmuxed).2.mpr
      ⟨by decide, by decide⟩ part hpart ?_
    revert part
    decide

end Segmentor
