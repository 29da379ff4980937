import Segmentor.EncryptedSamples
import Segmentor.FragmentRoundTrip

/-!
# The layout of encrypted fragments

An encrypted fragment is one `moof` and its data.  In its `traf` the usual
boxes come first, then `senc`, `saiz` and `saio`, and the boxes of a key
rotation last.
-/

namespace Segmentor

open General

/-! ## Maps in boxes -/

/-- Whether the maps are listed: where one of them is not empty. -/
def listsMaps (maps : List SubsampleMap) : Bool :=
  maps.any fun map => !map.isEmpty

def listedMap (maps : List SubsampleMap) (map : SubsampleMap) : List UInt8 :=
  map.entry.bytes (listsMaps maps)

def auxSizes (maps : List SubsampleMap) : List ℕ :=
  maps.map fun map => if listsMaps maps then 2 + 6 * map.length else 0

def sencPayload (maps : List SubsampleMap) : List UInt8 :=
  writeFullBoxFields 0 (if listsMaps maps then 2 else 0) ++
    (encode 4 maps.length ++ maps.flatMap (listedMap maps))

def saizPayload (maps : List SubsampleMap) : List UInt8 :=
  let uniform := uniformSize (auxSizes maps)
  writeFullBoxFields 0 0 ++ (encode 1 (uniform.getD 0) ++
    (encode 4 maps.length ++
      if uniform.isNone then (auxSizes maps).flatMap (encode 1) else []))

def saioPayload (auxOffset : ℕ) : List UInt8 :=
  writeFullBoxFields 0 0 ++ (encode 4 1 ++ encode 4 auxOffset)

def auxBoxes (maps : List SubsampleMap) (auxOffset : ℕ) : List BoxSpec :=
  [(code 's' 'e' 'n' 'c', sencPayload maps),
    (code 's' 'a' 'i' 'z', saizPayload maps),
    (code 's' 'a' 'i' 'o', saioPayload auxOffset)]

theorem length_entry_bytes (map : SubsampleMap) :
    (map.entry.bytes true).length = 2 + 6 * map.length := by
  have hflat : (map.entry.subsamples.flatMap Subsample.bytes).length =
      6 * map.length := by
    rw [List.length_flatMap, List.map_congr_left
      (g := fun _ => 6) (fun subsample _ => by simp [Subsample.bytes]),
      List.map_const', List.sum_replicate, smul_eq_mul]
    simp [SubsampleMap.entry, Nat.mul_comm]
  unfold SencEntry.bytes
  rw [if_pos rfl, List.length_append, List.length_append, hflat,
    length_encode]
  simp [SubsampleMap.entry]

theorem length_listedMap (maps : List SubsampleMap) (map : SubsampleMap) :
    (listedMap maps map).length =
      if listsMaps maps then 2 + 6 * map.length else 0 := by
  unfold listedMap
  cases listsMaps maps with
  | true => exact length_entry_bytes map
  | false => rfl

theorem map_length_listedMap (maps : List SubsampleMap) :
    (maps.map (listedMap maps)).map List.length = auxSizes maps := by
  unfold auxSizes
  rw [List.map_map]
  apply List.map_congr_left
  intro map _
  exact length_listedMap maps map

theorem sencEntry_eq_ok {map : SubsampleMap} {bytes : List UInt8}
    (h : sencEntry map = .ok bytes) :
    map.length ≤ MAX_SUBSAMPLES ∧ bytes = map.entry.bytes true := by
  unfold sencEntry at h
  split at h
  · cases h
  · rename_i hshort
    obtain rfl := Except.ok.inj h
    refine ⟨Nat.not_lt.mp hshort, ?_⟩
    unfold SencEntry.bytes SubsampleMap.entry
    rw [if_pos rfl, List.nil_append, List.length_map, List.flatMap_map]
    rfl

theorem flatten_of_mapM_sencEntry {maps : List SubsampleMap}
    {entries : List (List UInt8)} (h : maps.mapM sencEntry = .ok entries) :
    entries.flatten = maps.flatMap fun map => map.entry.bytes true := by
  have hall := mapM_forall₂ h
  clear h
  induction hall with
  | nil => rfl
  | cons hfirst _ ih =>
      rw [List.flatten_cons, List.flatMap_cons, ih, (sencEntry_eq_ok hfirst).2]

/-- What is written for the maps of a fragment. -/
theorem encryptionBoxes_layout {maps : List SubsampleMap} {auxOffset : ℕ}
    {bytes : List UInt8} (h : encryptionBoxes maps auxOffset = .ok bytes) :
    maps.length < 2 ^ 32 ∧ bytes = boxesBytes (auxBoxes maps auxOffset) ∧
      ∀ box ∈ auxBoxes maps auxOffset, box.Fits := by
  unfold encryptionBoxes at h
  dsimp only at h
  by_cases hcount : 2 ^ 32 ≤ maps.length
  · rw [if_pos hcount] at h
    cases h
  · rw [if_neg hcount] at h
    obtain ⟨entries, hentries, h⟩ := bind_eq_ok_iff.mp h
    obtain ⟨senc, hsenc, h⟩ := bind_eq_ok_iff.mp h
    obtain ⟨saiz, hsaiz, h⟩ := bind_eq_ok_iff.mp h
    obtain ⟨saio, hsaio, h⟩ := bind_eq_ok_iff.mp h
    obtain rfl := Except.ok.inj h
    have hflatten : entries.flatten = maps.flatMap (listedMap maps) := by
      unfold listedMap listsMaps
      cases hlists : maps.any fun map => !map.isEmpty with
      | true =>
          rw [hlists, if_pos rfl] at hentries
          exact flatten_of_mapM_sencEntry hentries
      | false =>
          rw [hlists] at hentries
          obtain rfl := Except.ok.inj hentries
          simp [SencEntry.bytes, SubsampleMap.entry]
    rw [hflatten, List.append_assoc] at hsenc
    rw [List.append_assoc, List.append_assoc] at hsaiz
    rw [List.append_assoc] at hsaio
    obtain ⟨hfitsSenc, rfl⟩ := writeBox_eq_ok rfl hsenc
    obtain ⟨hfitsSaiz, rfl⟩ := writeBox_eq_ok rfl hsaiz
    obtain ⟨hfitsSaio, rfl⟩ := writeBox_eq_ok rfl hsaio
    refine ⟨by omega, ?_, ?_⟩
    · rw [← boxesBytes_append, ← boxesBytes_append]
      rfl
    · simp only [auxBoxes, List.forall_mem_cons]
      exact ⟨hfitsSenc, hfitsSaiz, hfitsSaio, by simp⟩

/-- Where the entries of `senc` are among the boxes. -/
theorem auxBoxes_entries (maps : List SubsampleMap) (auxOffset : ℕ) :
    ∃ head rest, head.length = 16 ∧
      boxesBytes (auxBoxes maps auxOffset) =
        head ++ (maps.flatMap (listedMap maps) ++ rest) := by
  refine ⟨encode 4 ((sencPayload maps).length + 8) ++
    (code 's' 'e' 'n' 'c' ++ (writeFullBoxFields 0
      (if listsMaps maps then 2 else 0) ++ encode 4 maps.length)),
    boxesBytes [(code 's' 'a' 'i' 'z', saizPayload maps),
      (code 's' 'a' 'i' 'o', saioPayload auxOffset)], ?_, ?_⟩
  · simp [writeFullBoxFields, code]
  · unfold auxBoxes
    rw [boxesBytes_cons]
    simp only [boxBytes, sencPayload, List.append_assoc]

theorem length_auxBoxes (maps : List SubsampleMap) (auxOffset other : ℕ) :
    (boxesBytes (auxBoxes maps auxOffset)).length =
      (boxesBytes (auxBoxes maps other)).length := by
  simp [auxBoxes, saioPayload]

/-! ## The fragment -/

/-- The boxes of a part's `traf` that every fragment has. -/
def ExpandedPart.boxes (part : ExpandedPart) (dataOffset : ℤ) :
    List BoxSpec :=
  [(code 't' 'f' 'h' 'd', part.tfhd), (code 't' 'f' 'd' 't', part.tfdt),
    (code 't' 'r' 'u' 'n', part.trun dataOffset)]

theorem ExpandedPart.trafPayload_eq (part : ExpandedPart) (dataOffset : ℤ) :
    part.trafPayload dataOffset = boxesBytes (part.boxes dataOffset) := by
  simp [trafPayload, boxes]

/-- What is written for a part and the boxes after its own. -/
theorem buildTraf_layout {part : ExpandedPart} {dataOffset : ℤ}
    {extra bytes : List UInt8}
    (h : buildTraf part.track.id part.track.kind part.samples
      part.segment.decodeTime dataOffset extra = .ok bytes) :
    part.samples.length < 2 ^ 32 ∧
      (∀ box ∈ part.boxes dataOffset, box.Fits) ∧
      (boxesBytes (part.boxes dataOffset) ++ extra).length + 8 < 2 ^ 32 ∧
      bytes = boxBytes (code 't' 'r' 'a' 'f')
        (boxesBytes (part.boxes dataOffset) ++ extra) := by
  unfold buildTraf at h
  dsimp only at h
  split at h
  · cases h
  · rename_i hcount
    obtain ⟨tfhd, htfhd, h⟩ := bind_eq_ok_iff.mp h
    obtain ⟨tfdt, htfdt, h⟩ := bind_eq_ok_iff.mp h
    obtain ⟨trun, htrun, h⟩ := bind_eq_ok_iff.mp h
    obtain ⟨hfitsTfhd, rfl⟩ := writeBox_eq_ok rfl htfhd
    obtain ⟨hfitsTfdt, rfl⟩ := writeBox_eq_ok rfl htfdt
    obtain ⟨hfitsTrun, rfl⟩ := writeBox_eq_ok rfl htrun
    rw [← boxesBytes_append, ← boxesBytes_append] at h
    obtain ⟨hsize, rfl⟩ := writeBox_eq_ok_iff.mp h
    refine ⟨by omega, ?_, hsize, rfl⟩
    simp only [ExpandedPart.boxes, List.forall_mem_cons]
    exact ⟨hfitsTfhd, hfitsTfdt, hfitsTrun, by simp⟩

/-- A fragment of one part: the boxes beside its `traf`, and those after its
own in it. -/
structure FragmentLayout where
  part : ExpandedPart
  mfhd : List UInt8
  beside : List BoxSpec
  own : List BoxSpec
  dataOffset : ℕ

namespace FragmentLayout

def trafPayload (layout : FragmentLayout) : List UInt8 :=
  boxesBytes (layout.part.boxes layout.dataOffset ++ layout.own)

def children (layout : FragmentLayout) : List BoxSpec :=
  (code 'm' 'f' 'h' 'd', layout.mfhd) :: (layout.beside ++
    [(code 't' 'r' 'a' 'f', layout.trafPayload)])

def moof (layout : FragmentLayout) : List UInt8 :=
  boxBytes (code 'm' 'o' 'o' 'f') (boxesBytes layout.children)

/-- The fragment can be written so. -/
structure Fits (layout : FragmentLayout) : Prop where
  samples_lt : layout.part.samples.length < 2 ^ 32
  boxes : ∀ box ∈ layout.part.boxes layout.dataOffset, box.Fits
  own : ∀ box ∈ layout.own, box.Fits
  children : ∀ box ∈ layout.children, box.Fits
  size : (boxesBytes layout.children).length + 8 < 2 ^ 32
  beside : ∀ box ∈ layout.beside, box.1 = code 'p' 's' 's' 'h'

theorem length_moof (layout : FragmentLayout) :
    layout.moof.length = (boxesBytes layout.children).length + 8 :=
  length_boxBytes_code ..

theorem length_moof_eq (layout : FragmentLayout) :
    layout.moof.length = 80 + layout.mfhd.length +
      (boxesBytes layout.beside).length + layout.part.samples.length * 16 +
        (boxesBytes layout.own).length := by
  have htraf := layout.part.length_trafPayload layout.dataOffset
  rw [layout.part.trafPayload_eq] at htraf
  rw [length_moof, children, boxesBytes_cons, boxesBytes_append,
    List.length_append, List.length_append, boxesBytes_cons, boxesBytes_nil,
    List.append_nil, length_boxBytes_code, length_boxBytes_code, trafPayload,
    boxesBytes_append, List.length_append, htraf]
  dsimp only
  omega

/-- What comes before the boxes after the part's own, which end the
`moof`. -/
theorem moof_eq (layout : FragmentLayout) :
    ∃ head, layout.moof = head ++ boxesBytes layout.own := by
  refine ⟨encode 4 ((boxesBytes layout.children).length + 8) ++
    (code 'm' 'o' 'o' 'f' ++ (boxBytes (code 'm' 'f' 'h' 'd') layout.mfhd ++
      (boxesBytes layout.beside ++
        (encode 4 (layout.trafPayload.length + 8) ++
          (code 't' 'r' 'a' 'f' ++
            boxesBytes (layout.part.boxes layout.dataOffset)))))), ?_⟩
  have hchildren : boxesBytes layout.children =
      boxBytes (code 'm' 'f' 'h' 'd') layout.mfhd ++
        (boxesBytes layout.beside ++
          boxBytes (code 't' 'r' 'a' 'f') layout.trafPayload) := by
    simp [FragmentLayout.children]
  have htraf : layout.trafPayload =
      boxesBytes (layout.part.boxes layout.dataOffset) ++
        boxesBytes layout.own := boxesBytes_append ..
  have hbox : boxBytes (code 't' 'r' 'a' 'f') layout.trafPayload =
      encode 4 (layout.trafPayload.length + 8) ++ code 't' 'r' 'a' 'f' ++
        (boxesBytes (layout.part.boxes layout.dataOffset) ++
          boxesBytes layout.own) := by
    rw [boxBytes, ← htraf]
  have hmoof : layout.moof =
      encode 4 ((boxesBytes layout.children).length + 8) ++
        code 'm' 'o' 'o' 'f' ++ (boxBytes (code 'm' 'f' 'h' 'd') layout.mfhd ++
          (boxesBytes layout.beside ++
            boxBytes (code 't' 'r' 'a' 'f') layout.trafPayload)) := by
    rw [← hchildren]
    rfl
  rw [hmoof, hbox]
  simp only [List.append_assoc]

end FragmentLayout

/-- The fragment that is written for one part. -/
def ExpandedPart.layout (part : ExpandedPart) (sequenceNumber : ℕ)
    (beside own : List BoxSpec) (dataOffset : ℕ) : FragmentLayout where
  part := part
  mfhd := writeFullBoxFields 0 0 ++ encode 4 sequenceNumber
  beside := beside
  own := own
  dataOffset := dataOffset

theorem ExpandedPart.length_moof_layout (part : ExpandedPart)
    (sequenceNumber : ℕ) (beside own : List BoxSpec) (dataOffset : ℕ) :
    (part.layout sequenceNumber beside own dataOffset).moof.length =
      88 + (boxesBytes beside).length + part.samples.length * 16 +
        (boxesBytes own).length := by
  have hmfhd : (part.layout sequenceNumber beside own dataOffset).mfhd.length =
      8 := by
    simp [ExpandedPart.layout, writeFullBoxFields]
  rw [FragmentLayout.length_moof_eq, hmfhd]
  rfl

/-- What is written for a `moof` with one part. -/
theorem buildMoof_layout {part : ExpandedPart} {sequenceNumber dataOffset : ℕ}
    {own beside : List BoxSpec} {moof : List UInt8}
    (hown : ∀ box ∈ own, box.Fits)
    (hbeside : ∀ box ∈ beside, box.Fits ∧ box.1 = code 'p' 's' 's' 'h')
    (h : buildMoof part.track.id part.track.kind part.samples
      part.segment.decodeTime sequenceNumber dataOffset (boxesBytes own)
      (boxesBytes beside) = .ok moof) :
    (part.layout sequenceNumber beside own dataOffset).Fits ∧
      moof = (part.layout sequenceNumber beside own dataOffset).moof := by
  unfold buildMoof at h
  obtain ⟨traf, htraf, h⟩ := bind_eq_ok_iff.mp h
  obtain ⟨hcount, hboxes, htrafSize, rfl⟩ := buildTraf_layout htraf
  unfold moofOf at h
  obtain ⟨mfhd, hmfhd, h⟩ := bind_eq_ok_iff.mp h
  obtain ⟨hfitsMfhd, rfl⟩ := writeBox_eq_ok rfl hmfhd
  obtain ⟨hsize, rfl⟩ := writeBox_eq_ok_iff.mp h
  have hpayload :
      (part.layout sequenceNumber beside own dataOffset).trafPayload =
        boxesBytes (part.boxes dataOffset) ++ boxesBytes own :=
    boxesBytes_append ..
  have hchildren : boxesBytes
      (part.layout sequenceNumber beside own dataOffset).children =
      boxesBytes [(code 'm' 'f' 'h' 'd',
          writeFullBoxFields 0 0 ++ encode 4 sequenceNumber)] ++
        boxesBytes beside ++
        [boxBytes (code 't' 'r' 'a' 'f')
          (boxesBytes (part.boxes dataOffset) ++ boxesBytes own)].flatten := by
    rw [← hpayload]
    simp [FragmentLayout.children, ExpandedPart.layout]
  rw [← hchildren] at hsize ⊢
  refine ⟨⟨hcount, hboxes, hown, ?_, hsize, fun box hbox =>
    (hbeside box hbox).2⟩, rfl⟩
  intro box hbox
  rcases List.mem_cons.mp hbox with rfl | hbox
  · exact hfitsMfhd
  · rcases List.mem_append.mp hbox with hbox | hbox
    · exact (hbeside box hbox).1
    · obtain rfl := List.mem_singleton.mp hbox
      exact ⟨rfl, hpayload ▸ htrafSize⟩

theorem GroupBoxes.named {grouped : Bool} {boxes : List BoxSpec}
    (h : GroupBoxes grouped boxes) :
    ∀ box ∈ boxes, box.1 = code 's' 'g' 'p' 'd' ∨
      box.1 = code 's' 'b' 'g' 'p' := by
  cases h <;> simp

theorem GroupBoxes.any_seig {grouped : Bool} {boxes : List BoxSpec}
    (h : GroupBoxes grouped boxes) :
    (boxes.any fun box => box.1 == code 's' 'g' 'p' 'd' &&
      bytesAt box.2 4 8 == some (code 's' 'e' 'i' 'g')) = grouped := by
  cases h with
  | none => rfl
  | seig entry mapping =>
      have hseig := bytesAt_append (writeFullBoxFields 1 0)
        (code 's' 'e' 'i' 'g') entry
      simp only [List.any_cons, beq_self_eq_true, Bool.true_and]
      rw [show bytesAt (writeFullBoxFields 1 0 ++
        (code 's' 'e' 'i' 'g' ++ entry)) 4 8 = _ from hseig, beq_self_eq_true,
        Bool.true_or]

/-- The layout of an encrypted fragment's header: the position of the `senc`
entries is what `saio` says, and the data follows the header. -/
structure EncryptedHeader (part : ExpandedPart) (maps : List SubsampleMap)
    (rotation : Option FragmentRotation) (header : List UInt8)
    (layout : FragmentLayout) (groups : List BoxSpec) (auxOffset : ℕ) :
    Prop where
  part_eq : layout.part = part
  own_eq : layout.own = auxBoxes maps auxOffset ++ groups
  fits : layout.Fits
  maps_lt : maps.length < 2 ^ 32
  groups_named : ∀ box ∈ groups, box.1 = code 's' 'g' 'p' 'd' ∨
    box.1 = code 's' 'b' 'g' 'p'
  groups_seig : (groups.any fun box => box.1 == code 's' 'g' 'p' 'd' &&
    bytesAt box.2 4 8 == some (code 's' 'e' 'i' 'g')) =
    (rotation.bind FragmentRotation.group).isSome
  offset_eq : layout.dataOffset = header.length
  offset_lt : layout.dataOffset < 2 ^ 31
  aux_lt : auxOffset < 2 ^ 32
  aux_eq : auxOffset =
    layout.moof.length - (boxesBytes layout.own).length + 16
  header_eq : ∃ mdat, mdat.length = 8 ∧ header = layout.moof ++ mdat

theorem signedOffset_eq_ok {offset : ℕ} {message : String} {signed : ℤ}
    (h : signedOffset offset message = .ok signed) :
    offset < 2 ^ 31 ∧ signed = offset := by
  unfold signedOffset at h
  split at h
  · rename_i hlt
    exact ⟨hlt, (Except.ok.inj h).symm⟩
  · cases h

theorem appendMdat_eq_ok {moof header : List UInt8} {payloadLength : ℕ}
    {overflow : String} (h : appendMdat moof payloadLength overflow =
      .ok header) :
    payloadLength + 8 < 2 ^ 32 ∧
      ∃ mdat, mdat.length = 8 ∧ header = moof ++ mdat := by
  unfold appendMdat writeBoxHeader at h
  obtain ⟨size, hsize, h⟩ := bind_eq_ok_iff.mp h
  obtain ⟨-, rfl⟩ := checkedAdd_eq_some_iff.mp (okOr_eq_ok_iff.mp hsize)
  obtain ⟨mdat, hmdat, h⟩ := bind_eq_ok_iff.mp h
  split at hmdat
  · rename_i hlt
    obtain rfl := Except.ok.inj hmdat
    obtain rfl := Except.ok.inj h
    exact ⟨hlt, _, by simp [code], rfl⟩
  · cases hmdat

theorem encryptedFragmentHeader_layout {part : ExpandedPart}
    {sequenceNumber payloadLength : ℕ} {maps : List SubsampleMap}
    {rotation : Option FragmentRotation} {header : List UInt8}
    (hwhole : ∀ found, rotation = some found → found.WholePssh)
    (h : encryptedFragmentHeader part.track.id part.track.kind part.samples
      part.segment.decodeTime sequenceNumber maps payloadLength rotation =
        .ok header) :
    payloadLength + 8 < 2 ^ 32 ∧ ∃ layout groups auxOffset,
      EncryptedHeader part maps rotation header layout groups auxOffset := by
  unfold encryptedFragmentHeader at h
  dsimp only at h
  obtain ⟨⟨groups, moofExtra⟩, hboxes, h⟩ := bind_eq_ok_iff.mp h
  dsimp only at h
  obtain ⟨probeBoxes, hprobeBoxes, h⟩ := bind_eq_ok_iff.mp h
  obtain ⟨probe, hprobe, h⟩ := bind_eq_ok_iff.mp h
  split at h
  · cases h
  rename_i haux
  obtain ⟨boxes, hencryption, h⟩ := bind_eq_ok_iff.mp h
  obtain ⟨dataOffset, hoffset, h⟩ := bind_eq_ok_iff.mp h
  obtain ⟨moof, hmoof, hheader⟩ := bind_eq_ok_iff.mp h
  obtain ⟨rfl, groupBoxes, hgroups, rfl, hgroup⟩ := rotationBoxes_eq_ok hboxes
  obtain ⟨hcount, rfl, hprobeFits⟩ := encryptionBoxes_layout hprobeBoxes
  obtain ⟨-, rfl, hfits⟩ := encryptionBoxes_layout hencryption
  obtain ⟨hoffsetLt, rfl⟩ := signedOffset_eq_ok hoffset
  obtain ⟨beside, hbeside, hpssh⟩ : ∃ boxes : List BoxSpec,
      (∀ box ∈ boxes, box.Fits ∧ box.1 = code 'p' 's' 's' 'h') ∧
      (rotation.map FragmentRotation.pssh).getD [] = boxesBytes boxes := by
    cases rotation with
    | none => exact ⟨[], by simp, rfl⟩
    | some found => exact hwhole found rfl
  rw [hpssh] at hprobe hmoof
  rw [← boxesBytes_append] at hprobe
  simp only [← boxesBytes_append] at haux hmoof hfits
  obtain ⟨-, hprobeMoof⟩ := @buildMoof_layout part sequenceNumber 0
    (auxBoxes maps 0 ++ groupBoxes) beside probe
    (List.forall_mem_append.mpr ⟨hprobeFits, hgroups⟩) hbeside hprobe
  -- The fields that the probe lacks are of fixed width.
  have hprobeLength := part.length_moof_layout sequenceNumber beside
    (auxBoxes maps 0 ++ groupBoxes) 0
  rw [← hprobeMoof] at hprobeLength
  generalize hauxOffset : probe.length -
    (boxesBytes (auxBoxes maps 0 ++ groupBoxes)).length + 16 = auxOffset at *
  have hextra := length_auxBoxes maps auxOffset 0
  have hlength := part.length_moof_layout sequenceNumber beside
    (auxBoxes maps auxOffset ++ groupBoxes) (probe.length + 8)
  rw [boxesBytes_append, List.length_append] at hprobeLength hauxOffset hlength
  obtain ⟨hlayout, rfl⟩ := @buildMoof_layout part sequenceNumber
    (probe.length + 8) (auxBoxes maps auxOffset ++ groupBoxes) beside moof
    (List.forall_mem_append.mpr ⟨hfits, hgroups⟩) hbeside hmoof
  obtain ⟨hpayload, mdat, hmdat, hheader⟩ := appendMdat_eq_ok hheader
  refine ⟨hpayload, part.layout sequenceNumber beside
    (auxBoxes maps auxOffset ++ groupBoxes) (probe.length + 8), groupBoxes,
    auxOffset, rfl, rfl, hlayout, hcount,
    hgroup.named, hgroup.any_seig, ?_, hoffsetLt,
    by omega, ?_, mdat, hmdat, hheader⟩
  · have hsame : header.length = probe.length + 8 := by
      rw [hheader, List.length_append, hmdat, hlength]
      omega
    exact hsame.symm
  · rw [hlength]
    change auxOffset = _ -
      (boxesBytes (auxBoxes maps auxOffset ++ groupBoxes)).length + 16
    rw [boxesBytes_append, List.length_append]
    omega

end Segmentor
