import Segmentor.EncryptedLayout
import Segmentor.SencEntries

/-!
# Playing encrypted fragments

A player that knows a track's key finds the samples of a fragment by its
`trun`, and what is protected of each by the sizes that `saiz` lists and the
position that `saio` gives.  What it decrypts is what was encrypted.
-/

namespace Segmentor

open General

/-! ## The player -/

/-- A list of numbers, one byte each. -/
def readBytes : ℕ → Reader (List ℕ)
  | 0 => pure []
  | count + 1 => do
      let first ← Reader.u8
      let rest ← readBytes count
      return first :: rest

/-- The size of each sample's auxiliary information, from `saiz`: a default
that is not zero is the size of all of them. -/
def readAuxSizes : Reader (List ℕ) := do
  let (_, flags) ← Reader.fullBoxFlags
  let _ ← Reader.optional (hasFlag flags 1) (Reader.skip 8)
  let default ← Reader.u8
  let count ← Reader.u32
  if default ≠ 0 then return List.replicate count default
  else readBytes count

/-- Where the auxiliary information of the first run starts, from `saio`. -/
def readAuxOffset : Reader ℕ := do
  let (version, flags) ← Reader.fullBoxFlags
  let _ ← Reader.optional (hasFlag flags 1) (Reader.skip 8)
  let count ← Reader.u32
  if count = 0 then Reader.fail (invalidMedia "saio is empty")
  else if version = 0 then Reader.u32
  else Reader.u64

/-- One sample's auxiliary information, under a constant vector.  A sample
without any is protected whole. -/
def readAuxEntry (bytes : List UInt8) : Result (List Subsample) :=
  if bytes.isEmpty then .ok []
  else
    StateT.run'
      (do
        let count ← Reader.u16
        readSubsamples count : Reader (List Subsample))
      bytes

/-- The subsamples of each sample of a fragment. -/
def playerMaps (fragment : List UInt8) : Result (List (List Subsample)) := do
  let moof ← boxPayload fragment 0
  let traf ← requiredChild moof.payload (code 't' 'r' 'a' 'f')
  let saiz ← requiredChild traf.payload (code 's' 'a' 'i' 'z')
  let sizes ← readAuxSizes.run' saiz.payload
  let saio ← requiredChild traf.payload (code 's' 'a' 'i' 'o')
  let offset ← readAuxOffset.run' saio.payload
  (cutSizes sizes (fragment.drop offset)).mapM readAuxEntry

/-- The samples of a fragment, decrypted. -/
def play (decryptor : SampleDecryptor) (iv : List UInt8) (query : TrackQuery)
    (fragment : List UInt8) : Result (List (List UInt8)) := do
  let samples ← trackSamples [⟨0, fragment⟩] query
  let maps ← playerMaps fragment
  if maps.length ≠ samples.length then
    .error (invalidMedia "saiz does not describe the samples")
  else
    (samples.zip maps).mapM fun (sample, subsamples) =>
      decryptor.decrypt iv
        (stretch fragment sample.offset (sample.offset + sample.size))
        subsamples

/-! ## Auxiliary information -/

theorem readBytes_encode {sizes : List ℕ} (h : ∀ size ∈ sizes, size < 2 ^ 8)
    (rest : List UInt8) :
    (readBytes sizes.length).run (sizes.flatMap (encode 1) ++ rest) =
      .ok (sizes, rest) := by
  induction sizes with
  | nil => rfl
  | cons size sizes ih =>
      obtain ⟨hsize, hsizes⟩ := List.forall_mem_cons.mp h
      rw [List.length_cons, readBytes, List.flatMap_cons, List.append_assoc,
        StateT.run_bind, Reader.u8_append hsize, ok_bind]
      dsimp only
      rw [StateT.run_bind, ih hsizes]
      rfl

theorem auxSize_lt {maps : List SubsampleMap}
    (h : ∀ map ∈ maps, map.length ≤ MAX_SUBSAMPLES) :
    ∀ size ∈ auxSizes maps, size < 2 ^ 8 := by
  intro size hsize
  obtain ⟨map, hmap, rfl⟩ := List.mem_map.mp hsize
  have hshort := h map hmap
  unfold MAX_SUBSAMPLES at hshort
  split <;> omega

theorem uniformSize_eq_some {sizes : List ℕ} {size : ℕ}
    (h : uniformSize sizes = some size) :
    size ≠ 0 ∧ sizes = List.replicate sizes.length size := by
  unfold uniformSize at h
  obtain ⟨hhead, hall⟩ := Option.filter_eq_some_iff.mp h
  rw [Bool.and_eq_true, bne_iff_ne, List.all_eq_true] at hall
  refine ⟨hall.1, List.eq_replicate_of_mem fun other hother => ?_⟩
  exact beq_iff_eq.mp (hall.2 other hother)

/-- The sizes are read back, listed or not. -/
theorem readAuxSizes_saizPayload {maps : List SubsampleMap}
    (hcount : maps.length < 2 ^ 32)
    (h : ∀ map ∈ maps, map.length ≤ MAX_SUBSAMPLES) :
    readAuxSizes.run' (saizPayload maps) = .ok (auxSizes maps) := by
  have hlength : (auxSizes maps).length = maps.length := by
    simp [auxSizes]
  have hsizes := auxSize_lt h
  unfold readAuxSizes saizPayload
  dsimp only
  rw [StateT.run'_eq, StateT.run_bind,
    Reader.fullBoxFlags_append (by decide) (by decide), ok_bind]
  dsimp only
  rw [show hasFlag 0 1 = false from rfl, StateT.run_bind,
    Reader.run_optional_false, ok_bind]
  dsimp only
  cases huniform : uniformSize (auxSizes maps) with
  | some size =>
      obtain ⟨hnonzero, hreplicate⟩ := uniformSize_eq_some huniform
      have hlt : size < 2 ^ 8 := by
        unfold uniformSize at huniform
        exact hsizes size (List.mem_of_head?
          (Option.filter_eq_some_iff.mp huniform).1)
      rw [Option.getD_some, StateT.run_bind, Reader.u8_append hlt, ok_bind]
      dsimp only
      rw [StateT.run_bind, Reader.u32_append hcount, ok_bind]
      dsimp only
      rw [if_pos hnonzero, hreplicate, hlength]
      rfl
  | none =>
      have hread := readBytes_encode hsizes []
      rw [hlength, List.append_nil] at hread
      rw [Option.getD_none, StateT.run_bind, Reader.u8_append (by decide),
        ok_bind]
      dsimp only
      rw [StateT.run_bind, Reader.u32_append hcount, ok_bind]
      dsimp only
      rw [if_neg (not_not.mpr rfl), Option.isNone_none, if_pos rfl, hread]
      rfl

theorem readAuxOffset_saioPayload {auxOffset : ℕ} (h : auxOffset < 2 ^ 32) :
    readAuxOffset.run' (saioPayload auxOffset) = .ok auxOffset := by
  have hread := Reader.u32_append h []
  rw [List.append_nil] at hread
  unfold readAuxOffset saioPayload
  rw [StateT.run'_eq, StateT.run_bind,
    Reader.fullBoxFlags_append (by decide) (by decide), ok_bind]
  dsimp only
  rw [show hasFlag 0 1 = false from rfl, StateT.run_bind,
    Reader.run_optional_false, ok_bind]
  dsimp only
  rw [StateT.run_bind, Reader.u32_append (by decide), ok_bind]
  dsimp only
  rw [if_neg (by decide), if_pos rfl, hread]
  rfl

/-- The pieces of what is listed one after another. -/
theorem cutSizes_flatten (parts : List (List UInt8)) (rest : List UInt8) :
    cutSizes (parts.map List.length) (parts.flatten ++ rest) = parts := by
  induction parts with
  | nil => rfl
  | cons part parts ih =>
      rw [List.map_cons, cutSizes, List.flatten_cons, List.append_assoc,
        List.take_left, List.drop_left, ih]

/-- What is listed for a sample is its map. -/
theorem readAuxEntry_listedMap {maps : List SubsampleMap} {map : SubsampleMap}
    {length : ℕ} (hmem : map ∈ maps) (h : map.Describes length)
    (hlength : length < 2 ^ 32) :
    readAuxEntry (listedMap maps map) = .ok map.entry.subsamples := by
  unfold listedMap
  cases hlists : listsMaps maps with
  | false =>
      unfold listsMaps at hlists
      rw [List.any_eq_false] at hlists
      have hempty := hlists map hmem
      rw [Bool.not_eq_true', Bool.not_eq_false, List.isEmpty_iff] at hempty
      rw [hempty]
      rfl
  | true =>
      have hfits : map.entry.Fits true 0 := h.fits hlength (by simp)
      have hread : (do
          let count ← Reader.u16
          readSubsamples count : Reader (List Subsample)).run
          (map.entry.bytes true) = .ok (map.entry.subsamples, []) := by
        simp only [Reader.run_bind_eq_ok_iff, Reader.u16_eq_ok_iff,
          readSubsamples_eq_ok_iff]
        exact ⟨_, _, ⟨hfits.count_lt, rfl⟩, rfl, hfits.subsamples_fit,
          (List.append_nil _).symm⟩
      have hsize := length_entry_bytes map
      unfold readAuxEntry
      rw [if_neg (by
        rw [List.isEmpty_iff, ← List.length_eq_zero_iff]
        omega), StateT.run'_eq, hread]
      rfl

/-! ## Samples -/

namespace FragmentLayout

variable {layout : FragmentLayout}

theorem find?_traf (h : layout.Fits) :
    layout.children.find? (fun box => box.1 == code 't' 'r' 'a' 'f') =
      some (code 't' 'r' 'a' 'f', layout.trafPayload) := by
  have hnone : layout.beside.find?
      (fun box => box.1 == code 't' 'r' 'a' 'f') = none := by
    apply find?_eq_none_of_names
    intro hmem
    obtain ⟨box, hbox, hname⟩ := List.mem_map.mp hmem
    rw [h.beside box hbox] at hname
    exact absurd hname (by decide)
  have hmfhd : ¬ (code 'm' 'f' 'h' 'd' == code 't' 'r' 'a' 'f') = true := by
    decide
  unfold children
  rw [List.find?_cons_of_neg (a := (code 'm' 'f' 'h' 'd', layout.mfhd))
    (by exact hmfhd), List.find?_append, hnone]
  rfl

theorem filter_traf (h : layout.Fits) :
    (layout.children.map BoxSpec.raw).filter
        (fun child => child.name == code 't' 'r' 'a' 'f') =
      [BoxSpec.raw (code 't' 'r' 'a' 'f', layout.trafPayload)] := by
  have hnone : (layout.beside.map BoxSpec.raw).filter
      (fun child => child.name == code 't' 'r' 'a' 'f') = [] := by
    rw [List.filter_eq_nil_iff]
    intro child hchild
    obtain ⟨box, hbox, rfl⟩ := List.mem_map.mp hchild
    change ¬ (box.1 == code 't' 'r' 'a' 'f') = true
    rw [h.beside box hbox]
    decide
  have hmfhd : ¬ (code 'm' 'f' 'h' 'd' == code 't' 'r' 'a' 'f') = true := by
    decide
  unfold children
  rw [List.map_cons, List.map_append, List.filter_cons_of_neg
    (a := BoxSpec.raw (code 'm' 'f' 'h' 'd', layout.mfhd)) (by exact hmfhd),
    List.filter_append, hnone]
  rfl

/-- The boxes after a part's own are none that its samples are read from. -/
def Beyond (boxes : List BoxSpec) : Prop :=
  ∀ box ∈ boxes, box.1 ∉ [code 't' 'f' 'h' 'd', code 't' 'f' 'd' 't',
    code 't' 'r' 'u' 'n']

theorem Fits.inside (h : layout.Fits) :
    ∀ box ∈ layout.part.boxes layout.dataOffset ++ layout.own, box.Fits :=
  List.forall_mem_append.mpr ⟨h.boxes, h.own⟩

theorem readTraf_eq (h : layout.Fits) (hbeyond : Beyond layout.own)
    (query : TrackQuery) (state : TrackState) :
    query.readTraf 0 state
        (BoxSpec.raw (code 't' 'r' 'a' 'f', layout.trafPayload)) =
      query.readTraf 0 state (layout.part.traf layout.dataOffset) := by
  have hnone : ∀ name ∈ [code 't' 'f' 'h' 'd', code 't' 'f' 'd' 't',
      code 't' 'r' 'u' 'n'],
      layout.own.find? (fun box => box.1 == name) = none := by
    intro name hname
    apply find?_eq_none_of_names
    intro hmem
    obtain ⟨box, hbox, rfl⟩ := List.mem_map.mp hmem
    exact hbeyond box hbox hname
  have hchild : ∀ name ∈ [code 't' 'f' 'h' 'd', code 't' 'f' 'd' 't',
      code 't' 'r' 'u' 'n'],
      optionalChild layout.trafPayload name =
        optionalChild (layout.part.trafPayload layout.dataOffset) name := by
    intro name hname
    unfold trafPayload
    rw [layout.part.trafPayload_eq, optionalChild_boxesBytes h.inside,
      optionalChild_boxesBytes h.boxes, List.find?_append, hnone name hname,
      Option.or_none]
  have hruns : (layout.own.map BoxSpec.raw).filter
      (fun child => child.name == code 't' 'r' 'u' 'n') = [] := by
    rw [List.filter_eq_nil_iff]
    intro child hmem hname
    obtain ⟨box, hbox, rfl⟩ := List.mem_map.mp hmem
    have hrun : box.1 = code 't' 'r' 'u' 'n' := beq_iff_eq.mp hname
    have hother := hbeyond box hbox
    rw [hrun] at hother
    exact absurd hother (by decide)
  have hchildren : childBoxes layout.trafPayload =
      .ok ((layout.part.boxes layout.dataOffset).map BoxSpec.raw ++
        layout.own.map BoxSpec.raw) := by
    unfold trafPayload
    rw [childBoxes_boxesBytes h.inside, List.map_append]
  have howned : childBoxes (layout.part.trafPayload layout.dataOffset) =
      .ok ((layout.part.boxes layout.dataOffset).map BoxSpec.raw) := by
    rw [layout.part.trafPayload_eq, childBoxes_boxesBytes h.boxes]
  unfold TrackQuery.readTraf ExpandedPart.traf requiredChild
  dsimp only [BoxSpec.raw]
  rw [hchild _ (by simp), hchild _ (by simp), hchildren, howned]
  simp only [ok_bind, List.filter_append, hruns, List.append_nil]

theorem readFragment_eq (h : layout.Fits) (hbeyond : Beyond layout.own)
    (query : TrackQuery) (rest : List UInt8) :
    query.readFragment ⟨[], 0, 0⟩ ⟨0, layout.moof ++ rest⟩ =
      query.readTraf 0 ⟨[], 0, 0⟩
        (layout.part.traf layout.dataOffset) := by
  unfold TrackQuery.readFragment moof
  dsimp only
  rw [boxPayload_append rfl h.size, ok_bind]
  dsimp only
  rw [if_neg (not_not.mpr rfl), childBoxes_boxesBytes h.children, ok_bind,
    filter_traf h, List.foldlM_cons, readTraf_eq h hbeyond]
  cases query.readTraf 0 ⟨[], 0, 0⟩ (layout.part.traf layout.dataOffset) <;>
    rfl

theorem trackSamples_eq (h : layout.Fits) (hbeyond : Beyond layout.own)
    (hvalid : layout.part.Valid) (hoffset : layout.dataOffset < 2 ^ 31)
    {query : TrackQuery} (hwanted : layout.part.track.id = query.trackId)
    (hstop : layout.dataOffset + totalSize layout.part.samples < 2 ^ 64)
    (hsource : layout.dataOffset + totalSize layout.part.samples ≤
      query.sourceLen)
    (hmax : layout.part.samples.length ≤ query.limits.maxSamplesPerTrack)
    (htime : layout.part.stopTime < 2 ^ 64) (rest : List UInt8) :
    trackSamples [⟨0, layout.moof ++ rest⟩] query =
      .ok (readBack layout.part.track.kind layout.dataOffset
        (layout.part.segment.decodeTime % 2 ^ 64) layout.part.samples) := by
  have hsize : (layout.part.trafPayload layout.dataOffset).length + 8 <
      2 ^ 32 := by
    have hmem : (code 't' 'r' 'a' 'f', layout.trafPayload) ∈
        layout.children := by
      simp [children]
    have htraf := (h.children _ hmem).size
    dsimp only [trafPayload] at htraf
    rw [boxesBytes_append, List.length_append] at htraf
    rw [layout.part.trafPayload_eq]
    omega
  have hplaced : layout.part.Placed layout.dataOffset :=
    ⟨hvalid, h.samples_lt, hsize, hoffset, hstop⟩
  rw [trackSamples_singleton_eq_ok_iff, readFragment_eq h hbeyond]
  exact ⟨_, (TrackQuery.readTraf_wanted_eq_ok_iff hplaced hwanted hsource hmax
    rfl rfl).mpr ⟨htime, rfl⟩, rfl⟩

end FragmentLayout

namespace EncryptedHeader

variable {part : ExpandedPart} {maps : List SubsampleMap}
  {rotation : Option FragmentRotation} {header : List UInt8}
  {layout : FragmentLayout} {groups : List BoxSpec} {auxOffset : ℕ}

theorem beyond
    (h : EncryptedHeader part maps rotation header layout groups auxOffset) :
    FragmentLayout.Beyond layout.own := by
  unfold FragmentLayout.Beyond
  rw [h.own_eq]
  intro box hbox
  rcases List.mem_append.mp hbox with hbox | hbox
  · have hname : box.1 ∈ [code 's' 'e' 'n' 'c', code 's' 'a' 'i' 'z',
        code 's' 'a' 'i' 'o'] := List.mem_map_of_mem (f := Prod.fst) hbox
    have hapart : ∀ name ∈ [code 's' 'e' 'n' 'c', code 's' 'a' 'i' 'z',
        code 's' 'a' 'i' 'o'], name ∉ [code 't' 'f' 'h' 'd',
          code 't' 'f' 'd' 't', code 't' 'r' 'u' 'n'] := by
      decide
    exact hapart _ hname
  · rcases h.groups_named box hbox with hname | hname
    · rw [hname]
      decide
    · rw [hname]
      decide

theorem entries_eq
    (h : EncryptedHeader part maps rotation header layout groups auxOffset) :
    ∃ before rest, before.length = auxOffset ∧
      header = before ++ (maps.flatMap (listedMap maps) ++ rest) := by
  obtain ⟨mdat, -, hheader⟩ := h.header_eq
  obtain ⟨before, hmoof⟩ := layout.moof_eq
  obtain ⟨head, rest, hhead, hentries⟩ := auxBoxes_entries maps auxOffset
  have haux := h.aux_eq
  rw [hmoof, List.length_append, Nat.add_sub_cancel_right] at haux
  refine ⟨before ++ head, rest ++ (boxesBytes groups ++ mdat),
    by rw [List.length_append, hhead, haux], ?_⟩
  rw [hheader, hmoof, h.own_eq, boxesBytes_append, hentries]
  simp only [List.append_assoc]

theorem boxPayload_eq
    (h : EncryptedHeader part maps rotation header layout groups auxOffset)
    (data : List UInt8) :
    boxPayload (header ++ data) 0 =
      .ok (BoxSpec.raw (code 'm' 'o' 'o' 'f', boxesBytes layout.children)) := by
  obtain ⟨mdat, -, hheader⟩ := h.header_eq
  rw [hheader, List.append_assoc]
  exact boxPayload_append rfl h.fits.size _

theorem requiredChild_eq
    (h : EncryptedHeader part maps rotation header layout groups auxOffset)
    {name : List UInt8} {box : BoxSpec}
    (hname : name ∉ [code 't' 'f' 'h' 'd', code 't' 'f' 'd' 't',
      code 't' 'r' 'u' 'n'])
    (hfind : (auxBoxes maps auxOffset).find? (fun box => box.1 == name) =
      some box) :
    requiredChild layout.trafPayload name = .ok box.raw := by
  have hnone : (layout.part.boxes layout.dataOffset).find?
      (fun box => box.1 == name) = none :=
    find?_eq_none_of_names hname
  refine requiredChild_boxesBytes h.fits.inside ?_
  rw [List.find?_append, hnone, Option.none_or, h.own_eq, List.find?_append,
    hfind, Option.some_or]

theorem playerMaps_eq
    (h : EncryptedHeader part maps rotation header layout groups auxOffset)
    (hmaps : ∀ map ∈ maps, ∃ length, map.Describes length ∧
      length < 2 ^ 32) (data : List UInt8) :
    playerMaps (header ++ data) =
      .ok (maps.map fun map => map.entry.subsamples) := by
  obtain ⟨before, rest, hbefore, hheader⟩ := h.entries_eq
  have hdrop : (header ++ data).drop auxOffset =
      (maps.map (listedMap maps)).flatten ++ (rest ++ data) := by
    rw [hheader, List.append_assoc, List.drop_left' hbefore,
      List.flatMap_def, List.append_assoc]
  have htraf : requiredChild (boxesBytes layout.children)
      (code 't' 'r' 'a' 'f') =
        .ok (BoxSpec.raw (code 't' 'r' 'a' 'f', layout.trafPayload)) :=
    requiredChild_boxesBytes h.fits.children (FragmentLayout.find?_traf h.fits)
  have hsaiz : requiredChild layout.trafPayload (code 's' 'a' 'i' 'z') =
      .ok (BoxSpec.raw (code 's' 'a' 'i' 'z', saizPayload maps)) :=
    h.requiredChild_eq (by decide) rfl
  have hsaio : requiredChild layout.trafPayload (code 's' 'a' 'i' 'o') =
      .ok (BoxSpec.raw (code 's' 'a' 'i' 'o', saioPayload auxOffset)) :=
    h.requiredChild_eq (by decide) rfl
  have hsizes := readAuxSizes_saizPayload h.maps_lt fun map hmap => by
    obtain ⟨_, hdescribes, -⟩ := hmaps map hmap
    exact hdescribes.short
  have hread : (maps.map (listedMap maps)).mapM readAuxEntry =
      .ok (maps.map fun map => map.entry.subsamples) := by
    have hlisted := @mapM_eq_ok _ _ _
      (fun map => readAuxEntry (listedMap maps map))
      (fun map : SubsampleMap => map.entry.subsamples) maps fun map hmap => by
        obtain ⟨length, hdescribes, hlength⟩ := hmaps map hmap
        exact readAuxEntry_listedMap hmap hdescribes hlength
    rw [List.mapM_map]
    exact hlisted
  unfold playerMaps
  rw [h.boxPayload_eq, ok_bind]
  dsimp only [BoxSpec.raw]
  rw [htraf, ok_bind]
  dsimp only [BoxSpec.raw]
  rw [hsaiz, ok_bind]
  dsimp only [BoxSpec.raw]
  rw [hsizes, ok_bind, hsaio, ok_bind]
  dsimp only [BoxSpec.raw]
  rw [readAuxOffset_saioPayload h.aux_lt, ok_bind, hdrop,
    ← map_length_listedMap, cutSizes_flatten, hread]

end EncryptedHeader

/-! ## Playing a fragment -/

theorem map_length_cutSizes {sizes : List ℕ} {payload : List UInt8}
    (h : sizes.sum ≤ payload.length) :
    (cutSizes sizes payload).map List.length = sizes := by
  induction sizes generalizing payload with
  | nil => rfl
  | cons size sizes ih =>
      rw [List.sum_cons] at h
      rw [cutSizes, List.map_cons, List.length_take,
        Nat.min_eq_left (by omega), ih (by rw [List.length_drop]; omega)]

theorem length_readBack (kind : TrackKind) (offset time : ℕ)
    (samples : List Sample) :
    (readBack kind offset time samples).length = samples.length := by
  induction samples generalizing offset time with
  | nil => rfl
  | cons sample samples ih => simp [readBack, ih]

/-- The samples are decrypted where they are read to be. -/
theorem mapM_readBack {decryptor : SampleDecryptor} {iv : List UInt8}
    {kind : TrackKind} {samples : List Sample} {found : List EncryptedSample}
    (hsizes : samples.map Sample.size =
      found.map fun sample => sample.clear.length)
    (hsound : ∀ sample ∈ found, sample.Sound decryptor iv) {offset : ℕ}
    (time : ℕ) {before : List UInt8} (hbefore : before.length = offset) :
    ((readBack kind offset time samples).zip
        (found.map fun sample => sample.map.entry.subsamples)).mapM
        (fun (sample, subsamples) => decryptor.decrypt iv
          (stretch (before ++ found.flatMap EncryptedSample.encrypted)
            sample.offset (sample.offset + sample.size)) subsamples) =
      .ok (found.map EncryptedSample.clear) := by
  induction found generalizing samples offset time before with
  | nil =>
      rw [List.map_nil, List.zip_nil_right]
      rfl
  | cons first found ih =>
      cases samples with
      | nil => simp at hsizes
      | cons sample samples =>
          obtain ⟨hfirst, hothers⟩ := List.forall_mem_cons.mp hsound
          rw [List.map_cons, List.map_cons, List.cons.injEq] at hsizes
          obtain ⟨hsize, hsizes⟩ := hsizes
          have hlength := hfirst.length_eq
          have hnow : stretch (before ++ (first.encrypted ++
              found.flatMap EncryptedSample.encrypted)) offset
                (offset + sample.size) = first.encrypted := by
            rw [stretch_eq_take_drop, List.drop_left' hbefore,
              Nat.add_sub_cancel_left, List.take_left' (by omega)]
          have hlater := @ih samples hsizes hothers (offset + sample.size)
            (time + sample.duration) (before ++ first.encrypted)
            (by rw [List.length_append]; omega)
          rw [List.append_assoc] at hlater
          rw [readBack, List.map_cons, List.zip_cons_cons, List.mapM_cons,
            List.flatMap_cons]
          dsimp only
          rw [hnow, hfirst.decrypts, hlater]
          rfl

theorem foldlM_size_eq_some {samples : List Sample} {total sum : ℕ}
    (h : samples.foldlM
      (fun total sample => checkedAdd (2 ^ 64) total sample.size) total =
        some sum) : total + (samples.map Sample.size).sum = sum := by
  induction samples generalizing total with
  | nil => simpa using h
  | cons sample samples ih =>
      rw [List.foldlM_cons] at h
      obtain ⟨next, hnext, hrest⟩ := Option.bind_eq_some_iff.mp h
      obtain ⟨-, rfl⟩ := checkedAdd_eq_some_iff.mp hnext
      have hsum := ih hrest
      rw [List.map_cons, List.sum_cons]
      omega

/-- Finishing a segment writes the header of its samples' maps in front of
the samples, encrypted. -/
theorem finishCbcs_eq_ok {context : FinishContext} {part : ExpandedPart}
    {sequenceNumber : ℕ} {protection : TrackProtection}
    {payload fragment : List UInt8}
    (hwhole : ∀ found, protection.rotation = some found → found.WholePssh)
    (h : PendingEncryption.finishCbcs context part.track.id part.track.kind
      part.samples part.segment.decodeTime sequenceNumber protection payload =
        .ok fragment) :
    (part.samples.map Sample.size).sum = payload.length ∧
      payload.length + 8 < 2 ^ 32 ∧
      ∃ found : List EncryptedSample,
        found.map EncryptedSample.clear =
            cutSizes (part.samples.map Sample.size) payload ∧
          (∀ sample ∈ found,
            sample.Sound (context.decryptor protection) protection.key.iv) ∧
          ∃ header layout groups auxOffset,
            EncryptedHeader part (found.map EncryptedSample.map)
              protection.rotation header layout groups auxOffset ∧
            fragment = header ++ found.flatMap EncryptedSample.encrypted := by
  unfold PendingEncryption.finishCbcs at h
  dsimp only at h
  split at h
  · cases h
  rename_i hexpected
  obtain ⟨⟨maps, encrypted⟩, hencrypt, h⟩ := bind_eq_ok_iff.mp h
  obtain ⟨header, hheader, h⟩ := bind_eq_ok_iff.mp h
  obtain rfl := Except.ok.inj h
  have hsum := foldlM_size_eq_some (not_not.mp hexpected)
  rw [Nat.zero_add] at hsum
  obtain ⟨found, hclear, rfl, rfl, hsound⟩ := @encryptSamples_eq_ok
    context.video (context.decryptor protection) rfl protection.key.iv
    part.samples payload encrypted maps hencrypt
  obtain ⟨hpayload, layout, groups, auxOffset, hlayout⟩ :=
    encryptedFragmentHeader_layout hwhole hheader
  exact ⟨hsum, hpayload, found, hclear, hsound, header, layout, groups,
    auxOffset, hlayout, rfl⟩

/-- Whatever a track's key and vector, its kind and the rotation of its keys, a
player that is given the finished fragment decrypts exactly the samples that
were to be encrypted, which are the payload. -/
theorem encrypted_fragments_play {context : FinishContext} {track : Track}
    {segment : TrackSegment} {samples : List Sample} {sequenceNumber : ℕ}
    {protection : TrackProtection} {payload fragment : List UInt8}
    {query : TrackQuery} (hfits : ∀ sample ∈ samples, sample.Fits)
    (hsamples : samples ≠ [])
    (htime : segment.decodeTime + totalDuration samples < 2 ^ 64)
    (hwhole : ∀ found, protection.rotation = some found → found.WholePssh)
    (hfinish : (PendingEncryption.cbcs track.id track.kind samples
      segment.decodeTime sequenceNumber protection).finish context payload =
        .ok fragment)
    (hwanted : track.id = query.trackId)
    (hsource : fragment.length ≤ query.sourceLen)
    (hmax : samples.length ≤ query.limits.maxSamplesPerTrack) :
    (cutSizes (samples.map Sample.size) payload).flatten = payload ∧
      play (context.decryptor protection) protection.key.iv query fragment =
        .ok (cutSizes (samples.map Sample.size) payload) := by
  obtain ⟨hsum, hpayload, found, hclear, hsound, header, layout, groups,
    auxOffset, hlayout, rfl⟩ := @finishCbcs_eq_ok context
      ⟨track, segment, samples, totalSize samples⟩ sequenceNumber protection
      payload fragment hwhole (by
        unfold PendingEncryption.finish at hfinish
        exact hfinish)
  dsimp only at hsum hclear
  refine ⟨flatten_cutSizes hsum, ?_⟩
  have hlengths : samples.map Sample.size =
      found.map fun sample => sample.clear.length := by
    rw [← map_length_cutSizes hsum.le, ← hclear, List.map_map]
    rfl
  have hpart := hlayout.part_eq
  have hoffset := hlayout.offset_eq
  have htotal : totalSize samples = payload.length := hsum
  have hencrypted : (found.flatMap EncryptedSample.encrypted).length =
      payload.length := by
    rw [← hsum, hlengths, List.length_flatMap]
    congr 1
    apply List.map_congr_left
    intro sample hsample
    exact (hsound sample hsample).length_eq
  have hvalid : layout.part.Valid := by
    rw [hpart]
    exact ⟨hfits, hsamples, rfl, by dsimp only; omega⟩
  obtain ⟨mdat, hmdat, hheader⟩ := hlayout.header_eq
  have hread := @FragmentLayout.trackSamples_eq _ hlayout.fits hlayout.beyond
    hvalid hlayout.offset_lt query (by rw [hpart]; exact hwanted)
    (by
      have hlt := hlayout.offset_lt
      rw [hpart]
      dsimp only
      omega)
    (by
      rw [hpart, hoffset]
      rw [List.length_append] at hsource
      dsimp only
      omega)
    (by rw [hpart]; exact hmax)
    (by
      rw [hpart]
      unfold ExpandedPart.stopTime
      dsimp only
      rw [Nat.mod_eq_of_lt (by omega)]
      exact htime)
    (mdat ++ found.flatMap EncryptedSample.encrypted)
  have hmaps := hlayout.playerMaps_eq (fun map hmap => by
    obtain ⟨sample, hsample, rfl⟩ := List.mem_map.mp hmap
    refine ⟨_, (hsound sample hsample).describes, ?_⟩
    have hmem : sample.clear.length ∈ samples.map Sample.size := by
      rw [hlengths]
      exact List.mem_map_of_mem hsample
    have hle := List.single_le_sum (by simp) _ hmem
    omega) (found.flatMap EncryptedSample.encrypted)
  have hcount : (found.map fun sample => sample.map.entry.subsamples).length =
      (readBack track.kind header.length
        (segment.decodeTime % 2 ^ 64) samples).length := by
    have hcounts := congrArg List.length hlengths
    rw [List.length_map, List.length_map] at hcounts
    rw [List.length_map, length_readBack, hcounts]
  have hplayed := @mapM_readBack (context.decryptor protection)
    protection.key.iv track.kind samples found hlengths hsound header.length
    (segment.decodeTime % 2 ^ 64) header rfl
  unfold play
  rw [← List.append_assoc, ← hheader, hpart, hoffset] at hread
  dsimp only at hread
  rw [hread, ok_bind, hmaps, ok_bind, List.map_map]
  change (if (found.map fun sample => sample.map.entry.subsamples).length ≠ _
    then _ else _) = _
  rw [if_neg (not_not.mpr hcount), ← hclear]
  exact hplayed

/-- Two frames of sound, one longer than a block. -/
def soundTrack : Track :=
  .checked 2 (.audio 1) 1000
    (.new ⟨[17, 1], [⟨0, 0⟩], [⟨0, 0, 20⟩], [], none⟩) (by decide)

/-- A context in which every key has the cipher of the chaining vector. -/
def soundContext : FinishContext where
  aes _ := chainedCipher
  video := none
  decryption :=
    { decryptor := ⟨chainedCipher, .cbcs, 0, 0⟩
      protection := ⟨.cbcs, code 'm' 'p' '4' 'a', [], none, 0, 0,
        ⟨0, [], [], []⟩⟩ }

/-- The sound under a new key. -/
def soundProtection : TrackProtection where
  key :=
    { keyId := List.replicate 16 1
      key := List.replicate 16 2
      iv := encode 16 0x000102030405060708090a0b0c0d0e0f }
  kind := .audio
  rotation := some ⟨some (.encrypted 0 0 (List.replicate 16 1)
    (encode 16 0x000102030405060708090a0b0c0d0e0f)), []⟩

set_option maxRecDepth 4000 in
theorem encrypted_fragments_play_sound :
    ∃ fragment,
      (PendingEncryption.cbcs 2 .audio (soundTrack.samples.toVec 0 2) 40 3
        soundProtection).finish soundContext
        (encode 16 0x6bc1bee22e409f96e93d7e117393172a ++ [3, 4]) =
          .ok fragment ∧
        play (soundContext.decryptor soundProtection)
          (encode 16 0x000102030405060708090a0b0c0d0e0f)
          ⟨2, {}, fragment.length, {}⟩ fragment =
            .ok [encode 16 0x6bc1bee22e409f96e93d7e117393172a ++ [3], [4]] := by
  obtain ⟨fragment, hfinish⟩ := @exists_ok_of_isOk Error (List UInt8)
    ((PendingEncryption.cbcs 2 .audio (soundTrack.samples.toVec 0 2) 40 3
      soundProtection).finish soundContext
      (encode 16 0x6bc1bee22e409f96e93d7e117393172a ++ [3, 4])) (by decide)
  have hfits : ∀ sample ∈ soundTrack.samples.toVec 0 2, sample.Fits := by
    intro sample hsample
    exact soundTrack.samples_valid.toVec_fits (by decide) (by decide) sample
      hsample
  have hmax : (soundTrack.samples.toVec 0 2).length ≤
      LimitsConfig.maxSamplesPerTrack {} := by
    decide
  have hplays := (@encrypted_fragments_play soundContext soundTrack
    ⟨2, 0, 2, 40, 40⟩ (soundTrack.samples.toVec 0 2) 3 soundProtection _
    fragment ⟨2, {}, fragment.length, {}⟩ hfits (by decide) (by decide)
    (by
      intro found hfound
      obtain rfl := Option.some.inj hfound
      exact ⟨[], by simp, rfl⟩) hfinish rfl le_rfl hmax).2
  exact ⟨fragment, hfinish, hplays⟩

end Segmentor
