import Segmentor.BoxRoundTrip
import Segmentor.Protection

/-!
# Writing encrypted fragments

The header of a fragment whose samples are encrypted, or that says it is clear
among ones that are: besides the usual boxes it has those that describe each
sample's clear and protected bytes, and, under another key than the init
segment's, a `seig` group that all its samples are in.
-/

namespace Segmentor

open General

/-- Most subsamples one sample can have: each sample's `2 + 6n` bytes are
recorded in one byte. -/
def MAX_SUBSAMPLES : ℕ := 42

/-- The clear and protected bytes of a sample in turn; empty when it is
encrypted whole. -/
abbrev SubsampleMap : Type := List (ℕ × ℕ)

/-! ## Sample groups -/

def sampleGroupEntry : SampleGroup → List UInt8
  | .clear => [0] ++ [0, 0, 0] ++ List.replicate 16 0
  | .encrypted cryptByteBlock skipByteBlock keyId constantIv =>
      [0] ++ encode 1 (cryptByteBlock * 16 + skipByteBlock % 16) ++ [1, 0] ++
        keyId ++ [16] ++ constantIv

/-- The `sgpd` and `sbgp` boxes that put every sample of a fragment in one
group. -/
def sampleGroupBoxes (group : SampleGroup) (sampleCount : ℕ) :
    Result (List UInt8) := do
  let entry := sampleGroupEntry group
  if 2 ^ 32 ≤ entry.length then
    .error (.invalidMedia "sample group entry is too large")
  else
    let description := writeFullBoxFields 1 0 ++ code 's' 'e' 'i' 'g' ++
      encode 4 entry.length ++ encode 4 1 ++ entry
    -- Index 1 of the fragment's own descriptions, which count from 0x10001.
    let mapping := writeFullBoxFields 0 0 ++ code 's' 'e' 'i' 'g' ++
      encode 4 1 ++ encode 4 sampleCount ++ encode 4 0x00010001
    let descriptions ← writeBox (code 's' 'g' 'p' 'd') description
    let groups ← writeBox (code 's' 'b' 'g' 'p') mapping
    .ok (descriptions ++ groups)

/-- The boxes a fragment's `traf` gains for `rotation`, and the ones beside
it in the `moof`. -/
def rotationBoxes (rotation : Option FragmentRotation) (sampleCount : ℕ) :
    Result (List UInt8 × List UInt8) :=
  match rotation with
  | none => .ok ([], [])
  | some rotation =>
      if 2 ^ 32 ≤ sampleCount then
        .error (.invalidMedia "too many samples")
      else do
        let groups ←
          (match rotation.group with
          | some group => sampleGroupBoxes group sampleCount
          | none => .ok [])
        .ok (groups, rotation.pssh)

/-! ## Headers -/

/-- The `mdat` header after a `moof`. -/
def appendMdat (moof : List UInt8) (payloadLength : ℕ) (overflow : String) :
    Result (List UInt8) := do
  let size ← okOr (checkedAdd (2 ^ 64) payloadLength 8)
    (.invalidMedia overflow)
  let mdat ← writeBoxHeader size (code 'm' 'd' 'a' 't')
  .ok (moof ++ mdat)

/-- The `moof` and `mdat` header of a clear fragment among encrypted ones. -/
def clearFragmentHeader (trackId : ℕ) (kind : TrackKind)
    (samples : List Sample) (decodeTime sequenceNumber : ℕ)
    (rotation : FragmentRotation) (payloadLength : ℕ) :
    Result (List UInt8) := do
  let overflow := "fragment is too large"
  let (extra, moofExtra) ← rotationBoxes (some rotation) samples.length
  let probe ← buildMoof trackId kind samples decodeTime sequenceNumber 0 extra
    moofExtra
  let dataOffset ← signedOffset (probe.length + 8) overflow
  let moof ← buildMoof trackId kind samples decodeTime sequenceNumber
    dataOffset extra moofExtra
  appendMdat moof payloadLength overflow

/-- One sample's entry in a `senc`. -/
def sencEntry (map : SubsampleMap) : Result (List UInt8) :=
  if MAX_SUBSAMPLES < map.length then
    .error (.invalidMedia
      "a sample has more than 42 subsamples, more than saiz can describe")
  else
    .ok (encode 2 map.length ++ map.flatMap fun (clear, encrypted) =>
      encode 2 clear ++ encode 4 encrypted)

/-- The size every sample has, when they agree on one that is not zero. -/
def uniformSize (sizes : List ℕ) : Option ℕ :=
  sizes.head?.filter fun first =>
    first != 0 && sizes.all fun size => size == first

def encryptionBoxes (subsamples : List SubsampleMap) (auxOffset : ℕ) :
    Result (List UInt8) := do
  let useSubsamples := subsamples.any fun map => !map.isEmpty
  if 2 ^ 32 ≤ subsamples.length then
    .error (.invalidMedia "too many samples")
  else
    let entries ← (if useSubsamples then subsamples.mapM sencEntry
      else .ok [])
    let senc := writeFullBoxFields 0 (if useSubsamples then 2 else 0) ++
      encode 4 subsamples.length ++ entries.flatten
    let sizes := subsamples.map fun map =>
      if useSubsamples then 2 + 6 * map.length else 0
    -- A default that is not zero means that every sample has this size.
    let uniform := uniformSize sizes
    let auxSizes := writeFullBoxFields 0 0 ++ encode 1 (uniform.getD 0) ++
      encode 4 subsamples.length ++
      (if uniform.isNone then sizes.flatMap (encode 1) else [])
    let auxOffsets := writeFullBoxFields 0 0 ++ encode 4 1 ++
      encode 4 auxOffset
    let sencBox ← writeBox (code 's' 'e' 'n' 'c') senc
    let saiz ← writeBox (code 's' 'a' 'i' 'z') auxSizes
    let saio ← writeBox (code 's' 'a' 'i' 'o') auxOffsets
    .ok (sencBox ++ saiz ++ saio)

/-- The `moof` and `mdat` header of an encrypted fragment. -/
def encryptedFragmentHeader (trackId : ℕ) (kind : TrackKind)
    (samples : List Sample) (decodeTime sequenceNumber : ℕ)
    (subsamples : List SubsampleMap) (payloadLength : ℕ)
    (rotation : Option FragmentRotation) : Result (List UInt8) := do
  let overflow := "encrypted fragment is too large"
  let (groups, moofExtra) ← rotationBoxes rotation samples.length
  let probeBoxes ← encryptionBoxes subsamples 0
  let probeExtra := probeBoxes ++ groups
  let probe ← buildMoof trackId kind samples decodeTime sequenceNumber 0
    probeExtra moofExtra
  -- The extra boxes end the `moof`, and `senc` entries start 16 bytes into
  -- the first of them.
  let sencEntries := probe.length - probeExtra.length + 16
  if 2 ^ 32 ≤ sencEntries then .error (.invalidMedia overflow)
  else
    let boxes ← encryptionBoxes subsamples sencEntries
    let dataOffset ← signedOffset (probe.length + 8) overflow
    let moof ← buildMoof trackId kind samples decodeTime sequenceNumber
      dataOffset (boxes ++ groups) moofExtra
    appendMdat moof payloadLength overflow

/-! ## Reading a fragment's groups -/

/-- Whether the fragment that starts with `header` puts its samples in a
`seig` group. -/
def carriesSeig (header : List UInt8) : Result Bool := do
  let moof ← boxPayload header 0
  let traf ← requiredChild moof.payload (code 't' 'r' 'a' 'f')
  let description ← optionalChild traf.payload (code 's' 'g' 'p' 'd')
  .ok (description.any fun child =>
    (child.payload.drop 4).take 4 == code 's' 'e' 'i' 'g')

/-! ## What is written -/

theorem writeBox_eq_ok {name payload bytes : List UInt8}
    (hname : name.length = 4) (h : writeBox name payload = .ok bytes) :
    BoxSpec.Fits (name, payload) ∧ bytes = boxesBytes [(name, payload)] := by
  obtain ⟨hsize, rfl⟩ := writeBox_eq_ok_iff.mp h
  exact ⟨⟨hname, hsize⟩, by simp⟩

theorem buildTraf_eq_ok {trackId : ℕ} {kind : TrackKind}
    {samples : List Sample} {decodeTime : ℕ} {dataOffset : ℤ}
    {extra bytes : List UInt8}
    (h : buildTraf trackId kind samples decodeTime dataOffset extra =
      .ok bytes) :
    ∃ boxes : List BoxSpec, (∀ box ∈ boxes, box.Fits) ∧
      boxes.map Prod.fst =
        [code 't' 'f' 'h' 'd', code 't' 'f' 'd' 't', code 't' 'r' 'u' 'n'] ∧
      BoxSpec.Fits (code 't' 'r' 'a' 'f', boxesBytes boxes ++ extra) ∧
      bytes = boxesBytes [(code 't' 'r' 'a' 'f', boxesBytes boxes ++ extra)] := by
  unfold buildTraf at h
  dsimp only at h
  split at h
  · simp at h
  · obtain ⟨tfhd, htfhd, h⟩ := bind_eq_ok_iff.mp h
    obtain ⟨tfdt, htfdt, h⟩ := bind_eq_ok_iff.mp h
    obtain ⟨trun, htrun, h⟩ := bind_eq_ok_iff.mp h
    obtain ⟨hfitsTfhd, rfl⟩ := writeBox_eq_ok rfl htfhd
    obtain ⟨hfitsTfdt, rfl⟩ := writeBox_eq_ok rfl htfdt
    obtain ⟨hfitsTrun, rfl⟩ := writeBox_eq_ok rfl htrun
    rw [← boxesBytes_append, ← boxesBytes_append] at h
    obtain ⟨hfits, rfl⟩ := writeBox_eq_ok rfl h
    refine ⟨_, ?_, ?_, hfits, rfl⟩
    · simp only [List.cons_append, List.nil_append, List.forall_mem_cons]
      exact ⟨hfitsTfhd, hfitsTfdt, hfitsTrun, by simp⟩
    · rfl

theorem encryptionBoxes_eq_ok {subsamples : List SubsampleMap}
    {auxOffset : ℕ} {bytes : List UInt8}
    (h : encryptionBoxes subsamples auxOffset = .ok bytes) :
    ∃ boxes : List BoxSpec, (∀ box ∈ boxes, box.Fits) ∧
      boxes.map Prod.fst =
        [code 's' 'e' 'n' 'c', code 's' 'a' 'i' 'z', code 's' 'a' 'i' 'o'] ∧
      bytes = boxesBytes boxes := by
  unfold encryptionBoxes at h
  dsimp only at h
  split at h
  · simp at h
  · obtain ⟨entries, -, h⟩ := bind_eq_ok_iff.mp h
    obtain ⟨senc, hsenc, h⟩ := bind_eq_ok_iff.mp h
    obtain ⟨saiz, hsaiz, h⟩ := bind_eq_ok_iff.mp h
    obtain ⟨saio, hsaio, h⟩ := bind_eq_ok_iff.mp h
    obtain ⟨hfitsSenc, rfl⟩ := writeBox_eq_ok rfl hsenc
    obtain ⟨hfitsSaiz, rfl⟩ := writeBox_eq_ok rfl hsaiz
    obtain ⟨hfitsSaio, rfl⟩ := writeBox_eq_ok rfl hsaio
    obtain rfl := Except.ok.inj h
    rw [← boxesBytes_append, ← boxesBytes_append]
    refine ⟨_, ?_, ?_, rfl⟩
    · simp only [List.cons_append, List.nil_append, List.forall_mem_cons]
      exact ⟨hfitsSenc, hfitsSaiz, hfitsSaio, by simp⟩
    · rfl

/-- The boxes of a fragment's groups: none, or a `sgpd` that describes a `seig`
entry and the `sbgp` that maps to it. -/
inductive GroupBoxes : Bool → List BoxSpec → Prop
  | none : GroupBoxes false []
  | seig (entry mapping : List UInt8) :
      GroupBoxes true
        [(code 's' 'g' 'p' 'd',
          writeFullBoxFields 1 0 ++ (code 's' 'e' 'i' 'g' ++ entry)),
         (code 's' 'b' 'g' 'p', mapping)]

theorem GroupBoxes.find?_seig {grouped : Bool} {boxes : List BoxSpec}
    (h : GroupBoxes grouped boxes) :
    ((boxes.find? fun box => box.1 == code 's' 'g' 'p' 'd').any fun box =>
      (box.2.drop 4).take 4 == code 's' 'e' 'i' 'g') = grouped := by
  cases h <;> rfl

theorem rotationBoxes_eq_ok {rotation : Option FragmentRotation}
    {sampleCount : ℕ} {groups moofExtra : List UInt8}
    (h : rotationBoxes rotation sampleCount = .ok (groups, moofExtra)) :
    moofExtra = (rotation.map FragmentRotation.pssh).getD [] ∧
      ∃ boxes : List BoxSpec, (∀ box ∈ boxes, box.Fits) ∧
        groups = boxesBytes boxes ∧
        GroupBoxes (rotation.bind FragmentRotation.group).isSome boxes := by
  unfold rotationBoxes at h
  cases rotation with
  | none =>
      obtain ⟨rfl, rfl⟩ := Prod.mk.inj (Except.ok.inj h)
      exact ⟨rfl, [], by simp, rfl, .none⟩
  | some rotation =>
      dsimp only at h
      split at h
      · simp at h
      · obtain ⟨written, hwritten, h⟩ := bind_eq_ok_iff.mp h
        obtain ⟨rfl, rfl⟩ := Prod.mk.inj (Except.ok.inj h)
        refine ⟨rfl, ?_⟩
        rw [Option.bind_some]
        cases hgroup : rotation.group with
        | none =>
            rw [hgroup] at hwritten
            obtain rfl := Except.ok.inj hwritten
            exact ⟨[], by simp, rfl, .none⟩
        | some group =>
            rw [hgroup] at hwritten
            dsimp only at hwritten
            unfold sampleGroupBoxes at hwritten
            dsimp only at hwritten
            split at hwritten
            · simp at hwritten
            · obtain ⟨sgpd, hsgpd, hwritten⟩ := bind_eq_ok_iff.mp hwritten
              obtain ⟨sbgp, hsbgp, hwritten⟩ := bind_eq_ok_iff.mp hwritten
              obtain ⟨hfitsSgpd, rfl⟩ := writeBox_eq_ok rfl hsgpd
              obtain ⟨hfitsSbgp, rfl⟩ := writeBox_eq_ok rfl hsbgp
              obtain rfl := Except.ok.inj hwritten
              rw [← boxesBytes_append]
              refine ⟨_, ?_, rfl, ?_⟩
              · simp only [List.cons_append, List.nil_append, List.forall_mem_cons]
                exact ⟨hfitsSgpd, hfitsSbgp, by simp⟩
              · simp only [List.append_assoc]
                exact .seig _ _

theorem parsePssh_eq_some {bytes : List UInt8}
    {found : List UInt8 × List UInt8} (h : parsePssh bytes = some found) :
    ∃ payload, BoxSpec.Fits (code 'p' 's' 's' 'h', payload) ∧
      bytes = boxesBytes [(code 'p' 's' 's' 'h', payload)] := by
  obtain ⟨result, hresult, rfl⟩ : ∃ result,
      (psshBox bytes.length).run bytes = .ok result ∧ result.1 = found := by
    unfold parsePssh at h
    rw [StateT.run'_eq] at h
    cases hrun : (psshBox bytes.length).run bytes with
    | error e => rw [hrun] at h; simp [Except.toOption] at h
    | ok result =>
        rw [hrun] at h
        exact ⟨result, rfl, Option.some.inj h⟩
  unfold psshBox at hresult
  obtain ⟨size, afterSize, hsize, hafter⟩ := Reader.run_bind_eq_ok hresult
  obtain ⟨name, rest, hname, hchecked⟩ := Reader.run_bind_eq_ok hafter
  obtain ⟨hlt, hbytes⟩ := Reader.u32_eq_ok hsize
  obtain ⟨hlength, hrest⟩ := Reader.take_eq_ok hname
  dsimp only at hchecked
  by_cases hwhole : size ≠ bytes.length ∨ name ≠ code 'p' 's' 's' 'h'
  · rw [if_pos hwhole] at hchecked
    obtain ⟨_, _, hfail, -⟩ := Reader.run_bind_eq_ok hchecked
    simp [Reader.fail, StateT.run] at hfail
  · obtain ⟨hsizes, hnames⟩ := not_or.mp hwhole
    rw [not_not] at hsizes hnames
    have hpayload : size = rest.length + 8 := by
      have := congrArg List.length hbytes
      rw [hrest, List.length_append, List.length_append, length_encode,
        hlength] at this
      omega
    refine ⟨rest, ⟨rfl, by dsimp only; omega⟩, ?_⟩
    rw [boxesBytes_cons, boxesBytes_nil, List.append_nil, boxBytes, hbytes,
      hrest, hpayload, hnames, List.append_assoc]

theorem flatten_systemPssh (period : PeriodKeys) :
    ∃ boxes : List BoxSpec,
      (∀ box ∈ boxes, box.Fits ∧ box.1 = code 'p' 's' 's' 'h') ∧
      (systemPssh period).flatten = boxesBytes boxes := by
  unfold systemPssh
  induction period.systems with
  | nil => exact ⟨[], by simp, rfl⟩
  | cons system systems ih =>
      obtain ⟨boxes, hboxes, hflatten⟩ := ih
      cases hpssh : system.pssh with
      | none =>
          rw [List.filterMap_cons_none hpssh]
          exact ⟨boxes, hboxes, hflatten⟩
      | some bytes =>
          have hnamed := system.pssh_named bytes hpssh
          obtain ⟨found, hfound, -⟩ := Option.map_eq_some_iff.mp hnamed
          obtain ⟨payload, hfits, rfl⟩ := parsePssh_eq_some hfound
          rw [List.filterMap_cons_some hpssh, List.flatten_cons, hflatten,
            ← boxesBytes_append]
          exact ⟨_, List.forall_mem_cons.mpr ⟨⟨hfits, rfl⟩, hboxes⟩, rfl⟩

theorem carriesSeig_eq {trackId : ℕ} {kind : TrackKind}
    {samples : List Sample} {decodeTime sequenceNumber payloadLength : ℕ}
    {dataOffset : ℤ} {own beside : List BoxSpec} {moof header : List UInt8}
    {overflow : String} (hown : ∀ box ∈ own, box.Fits)
    (hbeside : ∀ box ∈ beside, box.Fits ∧ box.1 = code 'p' 's' 's' 'h')
    (hmoof : buildMoof trackId kind samples decodeTime sequenceNumber
      dataOffset (boxesBytes own) (boxesBytes beside) = .ok moof)
    (hheader : appendMdat moof payloadLength overflow = .ok header) :
    carriesSeig header =
      .ok ((own.find? fun box => box.1 == code 's' 'g' 'p' 'd').any fun box =>
        (box.2.drop 4).take 4 == code 's' 'e' 'i' 'g') := by
  unfold buildMoof at hmoof
  obtain ⟨traf, htraf, hmoof⟩ := bind_eq_ok_iff.mp hmoof
  obtain ⟨boxes, hboxes, hnames, hfitsTraf, rfl⟩ := buildTraf_eq_ok htraf
  unfold moofOf at hmoof
  obtain ⟨mfhd, hmfhd, hmoof⟩ := bind_eq_ok_iff.mp hmoof
  obtain ⟨hfitsMfhd, rfl⟩ := writeBox_eq_ok rfl hmfhd
  rw [List.flatten_singleton, ← boxesBytes_append, ← boxesBytes_append,
    ← boxesBytes_append] at hmoof
  obtain ⟨hsize, rfl⟩ := writeBox_eq_ok_iff.mp hmoof
  unfold appendMdat at hheader
  obtain ⟨size, -, hheader⟩ := bind_eq_ok_iff.mp hheader
  obtain ⟨mdat, -, hheader⟩ := bind_eq_ok_iff.mp hheader
  obtain rfl := Except.ok.inj hheader
  have hchildren : ∀ box ∈ [(code 'm' 'f' 'h' 'd',
        writeFullBoxFields 0 0 ++ encode 4 sequenceNumber)] ++ beside ++
        [(code 't' 'r' 'a' 'f', boxesBytes (boxes ++ own))],
        BoxSpec.Fits box := by
    intro box hbox
    simp only [List.mem_append, List.mem_singleton] at hbox
    rcases hbox with (rfl | hbox) | rfl
    · exact hfitsMfhd
    · exact (hbeside box hbox).1
    · rwa [boxesBytes_append]
  have hfind : ([(code 'm' 'f' 'h' 'd',
        writeFullBoxFields 0 0 ++ encode 4 sequenceNumber)] ++ beside ++
        [(code 't' 'r' 'a' 'f', boxesBytes (boxes ++ own))]).find?
          (fun box => box.1 == code 't' 'r' 'a' 'f') =
      some (code 't' 'r' 'a' 'f', boxesBytes (boxes ++ own)) := by
    have hnone : beside.find? (fun box => box.1 == code 't' 'r' 'a' 'f') =
        none := by
      apply find?_eq_none_of_names
      intro hmem
      obtain ⟨box, hbox, hname⟩ := List.mem_map.mp hmem
      rw [(hbeside box hbox).2] at hname
      exact absurd hname (by decide)
    rw [List.find?_append, List.find?_append, hnone]
    rfl
  have hgroups : (boxes ++ own).find?
      (fun box => box.1 == code 's' 'g' 'p' 'd') =
      own.find? fun box => box.1 == code 's' 'g' 'p' 'd' := by
    have hnone : boxes.find? (fun box => box.1 == code 's' 'g' 'p' 'd') =
        none := by
      apply find?_eq_none_of_names
      rw [hnames]
      decide
    rw [List.find?_append, hnone, Option.none_or]
  unfold carriesSeig
  rw [boxPayload_append rfl hsize, ok_bind,
    requiredChild_boxesBytes hchildren hfind, ok_bind]
  have hinside : ∀ box ∈ boxes ++ own, box.Fits :=
    List.forall_mem_append.mpr ⟨hboxes, hown⟩
  change optionalChild (boxesBytes (boxes ++ own)) _ >>= _ = _
  rw [optionalChild_boxesBytes hinside, hgroups, ok_bind, Option.any_map]
  rfl

/-- The boxes beside a `traf` are whole. -/
def FragmentRotation.WholePssh (rotation : FragmentRotation) : Prop :=
  ∃ boxes : List BoxSpec,
    (∀ box ∈ boxes, box.Fits ∧ box.1 = code 'p' 's' 's' 'h') ∧
    rotation.pssh = boxesBytes boxes

theorem wholePssh_clearRotation : clearRotation.WholePssh :=
  ⟨[], by simp, rfl⟩

theorem wholePssh_trackProtection {period primary : PeriodKeys}
    {rotating : Bool} {kind : TrackKind} {rotation : FragmentRotation}
    (h : (trackProtection period primary rotating kind).rotation =
      some rotation) : rotation.WholePssh := by
  unfold trackProtection at h
  dsimp only at h
  split at h
  · obtain rfl := Option.some.inj h
    exact flatten_systemPssh period
  · simp at h

theorem carriesSeig_clearFragmentHeader {trackId : ℕ} {kind : TrackKind}
    {samples : List Sample} {decodeTime sequenceNumber payloadLength : ℕ}
    {rotation : FragmentRotation} {header : List UInt8}
    (hwhole : rotation.WholePssh)
    (h : clearFragmentHeader trackId kind samples decodeTime sequenceNumber
      rotation payloadLength = .ok header) :
    carriesSeig header = .ok rotation.group.isSome := by
  unfold clearFragmentHeader at h
  dsimp only at h
  obtain ⟨⟨extra, moofExtra⟩, hboxes, h⟩ := bind_eq_ok_iff.mp h
  dsimp only at h
  obtain ⟨probe, -, h⟩ := bind_eq_ok_iff.mp h
  obtain ⟨dataOffset, -, h⟩ := bind_eq_ok_iff.mp h
  obtain ⟨moof, hmoof, hheader⟩ := bind_eq_ok_iff.mp h
  obtain ⟨rfl, own, hown, rfl, hgroup⟩ := rotationBoxes_eq_ok hboxes
  obtain ⟨beside, hbeside, hpssh⟩ := hwhole
  rw [Option.map_some, Option.getD_some, hpssh] at hmoof
  rw [carriesSeig_eq hown hbeside hmoof hheader, hgroup.find?_seig,
    Option.bind_some]

theorem carriesSeig_encryptedFragmentHeader {trackId : ℕ} {kind : TrackKind}
    {samples : List Sample} {decodeTime sequenceNumber payloadLength : ℕ}
    {subsamples : List SubsampleMap} {rotation : Option FragmentRotation}
    {header : List UInt8}
    (hwhole : ∀ found, rotation = some found → found.WholePssh)
    (h : encryptedFragmentHeader trackId kind samples decodeTime
      sequenceNumber subsamples payloadLength rotation = .ok header) :
    carriesSeig header =
      .ok (rotation.bind FragmentRotation.group).isSome := by
  unfold encryptedFragmentHeader at h
  dsimp only at h
  obtain ⟨⟨groups, moofExtra⟩, hboxes, h⟩ := bind_eq_ok_iff.mp h
  dsimp only at h
  obtain ⟨probeBoxes, -, h⟩ := bind_eq_ok_iff.mp h
  obtain ⟨probe, -, h⟩ := bind_eq_ok_iff.mp h
  split at h
  · simp at h
  obtain ⟨boxes, hencryption, h⟩ := bind_eq_ok_iff.mp h
  obtain ⟨dataOffset, -, h⟩ := bind_eq_ok_iff.mp h
  obtain ⟨moof, hmoof, hheader⟩ := bind_eq_ok_iff.mp h
  obtain ⟨rfl, own, hown, rfl, hgroup⟩ := rotationBoxes_eq_ok hboxes
  obtain ⟨aux, haux, hnames, rfl⟩ := encryptionBoxes_eq_ok hencryption
  obtain ⟨beside, hbeside, hpssh⟩ : ∃ boxes : List BoxSpec,
      (∀ box ∈ boxes, box.Fits ∧ box.1 = code 'p' 's' 's' 'h') ∧
      (rotation.map FragmentRotation.pssh).getD [] = boxesBytes boxes := by
    cases rotation with
    | none => exact ⟨[], by simp, rfl⟩
    | some found => exact hwhole found rfl
  rw [hpssh, ← boxesBytes_append] at hmoof
  have hnone : aux.find? (fun box => box.1 == code 's' 'g' 'p' 'd') =
      none := by
    apply find?_eq_none_of_names
    rw [hnames]
    decide
  rw [carriesSeig_eq (List.forall_mem_append.mpr ⟨haux, hown⟩) hbeside hmoof
    hheader, List.find?_append, hnone, Option.none_or,
    hgroup.find?_seig]

end Segmentor
