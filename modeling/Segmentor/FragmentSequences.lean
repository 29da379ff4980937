import Segmentor.PreparedSegments

/-!
# Fragments one after another

The fragments of a stream are read in the order they are written: each run
adds the samples of its track behind those of the runs before it, as long as
no fragment starts before the track got to.  The runs of the other tracks of a
stream leave the track asked for as it is.
-/

namespace Segmentor

open General

/-! ## A fragment as two boxes -/

/-- The payload of the `moof`: all but its own header and the `mdat`'s. -/
def PreparedSegment.moofPayload (prepared : PreparedSegment) : List UInt8 :=
  (prepared.header.drop 8).take (prepared.header.length - 16)

/-- The header closes the `moof` and opens an `mdat` of `payload` bytes. -/
structure PreparedSegment.Framed (prepared : PreparedSegment)
    (payload : ℕ) : Prop where
  moof_lt : prepared.moofPayload.length + 8 < 2 ^ 32
  payload_lt : payload + 8 < 2 ^ 32
  header_eq : prepared.header =
    boxBytes (code 'm' 'o' 'o' 'f') prepared.moofPayload ++
      (encode 4 (payload + 8) ++ code 'm' 'd' 'a' 't')
  length_eq : prepared.contentLength = prepared.header.length + payload

theorem framed_of_closeHeader {content moof header : List UInt8}
    {payload contentLength : ℕ} {ranges : List ByteRange}
    (hmoof : moof = boxBytes (code 'm' 'o' 'o' 'f') content)
    (hcontent : content.length + 8 < 2 ^ 32)
    (h : closeHeader moof payload = .ok (header, contentLength)) :
    PreparedSegment.Framed ⟨header, ranges, contentLength⟩ payload := by
  unfold closeHeader writeBoxHeader at h
  split at h
  · next hpayload =>
      rw [ok_bind] at h
      dsimp only at h
      obtain ⟨length, hlength, h⟩ := bind_eq_ok_iff.mp h
      obtain ⟨-, rfl⟩ := checkedAdd_eq_some_iff.mp (okOr_eq_ok_iff.mp hlength)
      obtain ⟨rfl, rfl⟩ := Prod.mk.inj (Except.ok.inj h)
      have hread : PreparedSegment.moofPayload
          ⟨moof ++ (encode 4 (payload + 8) ++ code 'm' 'd' 'a' 't'), ranges,
            (moof ++ (encode 4 (payload + 8) ++ code 'm' 'd' 'a' 't')).length +
              payload⟩ = content := by
        unfold PreparedSegment.moofPayload
        dsimp only
        rw [hmoof, List.length_append, length_boxBytes_code,
          List.length_append, length_encode]
        unfold boxBytes
        rw [List.append_assoc (encode 4 _ ++ _), List.drop_left' (by rfl),
          List.take_left' (by simp [code])]
      exact ⟨by rw [hread]; exact hcontent, hpayload, by rw [hread, hmoof], rfl⟩
  · cases h

theorem prepareMediaSegment_framed {track : Track} {segment : TrackSegment}
    {sequenceNumber : ℕ} {limits : LimitsConfig} {prepared : PreparedSegment}
    (h : prepareMediaSegment track segment sequenceNumber limits =
      .ok prepared) : ∃ payload, prepared.Framed payload := by
  unfold prepareMediaSegment buildMoof at h
  split at h
  · cases h
  dsimp only at h
  split at h
  · cases h
  obtain ⟨provisionalMoof, -, h⟩ := bind_eq_ok_iff.mp h
  obtain ⟨dataOffset, -, h⟩ := bind_eq_ok_iff.mp h
  obtain ⟨moof, hmoof, h⟩ := bind_eq_ok_iff.mp h
  obtain ⟨traf, -, hmoof⟩ := bind_eq_ok_iff.mp hmoof
  obtain ⟨payload, -, h⟩ := bind_eq_ok_iff.mp h
  split at h
  · cases h
  obtain ⟨⟨header, contentLength⟩, hclose, h⟩ := bind_eq_ok_iff.mp h
  dsimp only at h
  obtain ⟨ranges, -, h⟩ := bind_eq_ok_iff.mp h
  obtain rfl := Except.ok.inj h
  obtain ⟨mfhd, -, hsize, hbox⟩ := moofOf_eq_ok hmoof
  exact ⟨payload, framed_of_closeHeader hbox hsize hclose⟩

theorem prepareMuxedSegment_framed {parts : List (Track × TrackSegment)}
    {sequenceNumber : ℕ} {limits : LimitsConfig} {prepared : PreparedSegment}
    (h : prepareMuxedSegment parts sequenceNumber limits = .ok prepared) :
    ∃ payload, prepared.Framed payload := by
  unfold prepareMuxedSegment at h
  obtain ⟨expanded, -, h⟩ := bind_eq_ok_iff.mp h
  obtain ⟨payload, -, h⟩ := bind_eq_ok_iff.mp h
  split at h
  · cases h
  split at h
  · cases h
  obtain ⟨provisionalTrafs, -, h⟩ := bind_eq_ok_iff.mp h
  obtain ⟨provisionalMoof, -, h⟩ := bind_eq_ok_iff.mp h
  obtain ⟨offsets, -, h⟩ := bind_eq_ok_iff.mp h
  obtain ⟨finalTrafs, -, h⟩ := bind_eq_ok_iff.mp h
  obtain ⟨moof, hmoof, h⟩ := bind_eq_ok_iff.mp h
  obtain ⟨⟨header, contentLength⟩, hclose, h⟩ := bind_eq_ok_iff.mp h
  dsimp only at h
  obtain ⟨ranges, -, h⟩ := bind_eq_ok_iff.mp h
  obtain rfl := Except.ok.inj h
  obtain ⟨mfhd, -, hsize, hbox⟩ := moofOf_eq_ok hmoof
  exact ⟨payload, framed_of_closeHeader hbox hsize hclose⟩

/-- What was written is closed where the header closes it. -/
theorem PreparedSegment.Written.framed {prepared : PreparedSegment}
    {parts : List ExpandedPart} {payload : ℕ} (h : prepared.Written parts)
    (hframed : prepared.Framed payload) :
    (∃ mfhd, mfhd.length = 8 ∧ prepared.moofPayload =
      boxBytes (code 'm' 'f' 'h' 'd') mfhd ++
        (placedParts prepared.header.length parts).flatMap placedTrafBytes) ∧
      payload = (parts.map ExpandedPart.payload).sum := by
  obtain ⟨mfhd, rest, hmfhd, hsize, hheader⟩ := h.header_eq
  have hread := @boxPayload_append (code 'm' 'o' 'o' 'f') _ rfl hsize rest
  have hsame := @boxPayload_append (code 'm' 'o' 'o' 'f') _ rfl hframed.moof_lt
    (encode 4 (payload + 8) ++ code 'm' 'd' 'a' 't')
  rw [← hheader] at hread
  rw [← hframed.header_eq, hread] at hsame
  have hbox := (Except.ok.inj hsame).symm
  have hlength := h.length_eq
  rw [hframed.length_eq] at hlength
  exact ⟨⟨mfhd, hmfhd, congrArg RawBox.payload hbox⟩, by omega⟩

theorem placedParts_stop {offset : ℕ} {parts : List ExpandedPart} :
    ∀ item ∈ placedParts offset parts, item.2 + item.1.payload ≤
      offset + (parts.map ExpandedPart.payload).sum := by
  induction parts generalizing offset with
  | nil => exact List.forall_mem_nil _
  | cons part parts ih =>
      rw [placedParts, List.map_cons, List.sum_cons, List.forall_mem_cons]
      refine ⟨by dsimp only; omega, fun item hitem => ?_⟩
      have := ih item hitem
      omega

/-! ## The state while reading -/

namespace TrackQuery

variable {query : TrackQuery} {moofOffset : ℕ} {state : TrackState}

/-- What the `traf` of a part adds, its data at an offset from the `moof`. -/
def readPart (query : TrackQuery) (moofOffset : ℕ) (state : TrackState)
    (item : ExpandedPart × ℕ) : TrackState :=
  if item.1.track.id = query.trackId then
    { samples := state.samples ++
        readBack item.1.track.kind (moofOffset + item.2)
          (item.1.segment.decodeTime % 2 ^ 64) item.1.samples
      nextDecodeTime := item.1.stopTime
      previousEnd := moofOffset + item.2 + totalSize item.1.samples }
  else
    { state with
      previousEnd := moofOffset + item.2 + totalSize item.1.samples }

/-- The parts can be read one after another from where reading got to: those
of the track asked for follow each other in time, and no other track's
durations reach past a word when they are added to where that track got to. -/
structure Ahead (query : TrackQuery) (state : TrackState)
    (parts : List ExpandedPart) : Prop where
  count : state.samples.length +
    ((parts.filter fun part => part.track.id == query.trackId).map
      fun part => part.samples.length).sum ≤ query.limits.maxSamplesPerTrack
  starts : ∀ part ∈ parts, part.track.id = query.trackId →
    state.nextDecodeTime ≤ part.segment.decodeTime % 2 ^ 64
  stops : ∀ part ∈ parts, part.track.id = query.trackId →
    part.stopTime < 2 ^ 64
  chained : parts.Pairwise fun part later =>
    part.track.id = query.trackId → later.track.id = query.trackId →
      part.stopTime ≤ later.segment.decodeTime % 2 ^ 64
  beside : ∀ other ∈ parts, other.track.id ≠ query.trackId →
    state.nextDecodeTime + totalDuration other.samples < 2 ^ 64
  mixed : ∀ part ∈ parts, part.track.id = query.trackId →
    ∀ other ∈ parts, other.track.id ≠ query.trackId →
      part.stopTime + totalDuration other.samples < 2 ^ 64

theorem length_readBack (kind : TrackKind) (offset time : ℕ)
    (samples : List Sample) :
    (readBack kind offset time samples).length = samples.length := by
  induction samples generalizing offset time with
  | nil => rfl
  | cons sample samples ih => rw [readBack, List.length_cons, ih,
      List.length_cons]

/-- Where the data of fragments was read before does not matter. -/
theorem Ahead.from {parts : List ExpandedPart} {previousEnd : ℕ}
    (h : query.Ahead state parts) :
    query.Ahead { state with previousEnd := previousEnd } parts :=
  ⟨h.count, h.starts, h.stops, h.chained, h.beside, h.mixed⟩

theorem Ahead.readPart {item : ExpandedPart × ℕ} {parts : List ExpandedPart}
    (h : query.Ahead state (item.1 :: parts)) :
    query.Ahead (query.readPart moofOffset state item) parts := by
  have hmem : ∀ part ∈ parts, part ∈ item.1 :: parts :=
    fun part hpart => List.mem_cons_of_mem _ hpart
  have hcount := h.count
  have hchained := List.pairwise_cons.mp h.chained
  unfold TrackQuery.readPart
  split
  · next hwanted =>
      rw [List.filter_cons_of_pos (by simp [hwanted]), List.map_cons,
        List.sum_cons] at hcount
      refine ⟨?_, fun part hpart => hchained.1 part hpart hwanted,
        fun part hpart => h.stops part (hmem part hpart), hchained.2,
        fun other hother => h.mixed item.1 (by simp) hwanted other
          (hmem other hother),
        fun part hpart hid other hother => h.mixed part (hmem part hpart) hid
          other (hmem other hother)⟩
      dsimp only
      rw [List.length_append, length_readBack]
      omega
  · next hother =>
      rw [List.filter_cons_of_neg (by simp [hother])] at hcount
      exact ⟨hcount, fun part hpart => h.starts part (hmem part hpart),
        fun part hpart => h.stops part (hmem part hpart), hchained.2,
        fun other hother => h.beside other (hmem other hother),
        fun part hpart hid other hother => h.mixed part (hmem part hpart) hid
          other (hmem other hother)⟩

/-- The `traf` of a part that can be read next, its data inside the source. -/
theorem readTraf_ahead {item : ExpandedPart × ℕ} {parts : List ExpandedPart}
    (h : query.Ahead state (item.1 :: parts)) (hplaced : item.1.Placed item.2)
    (hsource : moofOffset + item.2 + totalSize item.1.samples ≤
      query.sourceLen) (hword : query.sourceLen < 2 ^ 64)
    (hnext : state.nextDecodeTime < 2 ^ 64) :
    query.readTraf moofOffset state (placedTraf item) =
      .ok (query.readPart moofOffset state item) := by
  obtain ⟨part, offset⟩ := item
  have hinside : part ∈ part :: parts := List.mem_cons_self ..
  unfold readPart placedTraf
  dsimp only at hplaced hsource ⊢
  split
  · next hwanted =>
      have hcount := h.count
      rw [List.filter_cons_of_pos (by simp [hwanted]), List.map_cons,
        List.sum_cons] at hcount
      exact (readTraf_next_eq_ok_iff hplaced hwanted (by omega) hsource
        (by dsimp only at hcount; omega) (h.starts part hinside hwanted)).mpr
          ⟨h.stops part hinside hwanted, rfl⟩
  · next hother =>
      have hkeep : (query.run part.header moofOffset).keep = false := by
        simp [run, ExpandedPart.header, hother]
      have hplace := (@Run.foldlM_placeSample_eq_ok_iff
        (query.run part.header moofOffset) part.track.kind part.samples
        ⟨moofOffset + offset, state.nextDecodeTime, state.samples⟩ _
        (by dsimp only; omega) (by simp [hkeep]) hnext).mpr
          ⟨h.beside part hinside hother, rfl⟩
      rw [readTraf_placed hplaced (by omega) (by simp [hother])]
      unfold startTime
      simp only [beq_eq_false_iff_ne.mpr hother, Bool.false_eq_true, if_false,
        ok_bind, hplace, hkeep, List.append_nil]

theorem foldlM_readTraf_ahead {placed : List (ExpandedPart × ℕ)}
    {parts : List ExpandedPart}
    (h : query.Ahead state (placed.map Prod.fst ++ parts))
    (hplaced : ∀ item ∈ placed, item.1.Placed item.2)
    (hsource : ∀ item ∈ placed,
      moofOffset + item.2 + totalSize item.1.samples ≤ query.sourceLen)
    (hword : query.sourceLen < 2 ^ 64) (hnext : state.nextDecodeTime < 2 ^ 64) :
    (placed.map placedTraf).foldlM (query.readTraf moofOffset) state =
        .ok (placed.foldl (query.readPart moofOffset) state) ∧
      query.Ahead (placed.foldl (query.readPart moofOffset) state) parts ∧
      (placed.foldl (query.readPart moofOffset) state).nextDecodeTime <
        2 ^ 64 := by
  induction placed generalizing state with
  | nil => exact ⟨rfl, h, hnext⟩
  | cons item placed ih =>
      have hfirst := readTraf_ahead h (hplaced item (by simp))
        (hsource item (by simp)) hword hnext
      have htime : (query.readPart moofOffset state item).nextDecodeTime <
          2 ^ 64 := by
        unfold readPart
        split
        · next hwanted => exact h.stops item.1 (by simp) hwanted
        · exact hnext
      have hrest := ih h.readPart
        (fun other hother => hplaced other (List.mem_cons_of_mem _ hother))
        (fun other hother => hsource other (List.mem_cons_of_mem _ hother))
        htime
      rw [List.map_cons, List.foldlM_cons, hfirst, ok_bind]
      exact hrest

end TrackQuery

/-! ## The fragments of a stream -/

/-- A prepared fragment and the parts it holds. -/
structure StreamFragment where
  prepared : PreparedSegment
  parts : List ExpandedPart
  payload : ℕ
  written : prepared.Written parts
  framed : prepared.Framed payload
  ranges_eq : ∀ source, prepared.ranges.flatMap (readRange source) =
    parts.flatMap fun part => part.samples.flatMap (sampleBytes source)

namespace StreamFragment

/-- The bytes the fragment takes in a file. -/
def length (fragment : StreamFragment) : ℕ :=
  fragment.prepared.contentLength

/-- The `moof` of the fragment, at its place in a file. -/
def moofAt (offset : ℕ) (fragment : StreamFragment) : Fragment where
  offset := offset
  bytes := boxBytes (code 'm' 'o' 'o' 'f') fragment.prepared.moofPayload

/-- The parts, each with where its data is behind the start of the `moof`. -/
def placed (fragment : StreamFragment) : List (ExpandedPart × ℕ) :=
  placedParts fragment.prepared.header.length fragment.parts

end StreamFragment

/-- The fragments, each with where it starts, the first at `offset`. -/
def placedFragments : ℕ → List StreamFragment → List (ℕ × StreamFragment)
  | _, [] => []
  | offset, fragment :: rest =>
      (offset, fragment) :: placedFragments (offset + fragment.length) rest

/-- The bytes that the fragments take. -/
def streamLength (fragments : List StreamFragment) : ℕ :=
  (fragments.map StreamFragment.length).sum

namespace TrackQuery

variable {query : TrackQuery} {state : TrackState}

theorem readFragment_placed (offset : ℕ) (fragment : StreamFragment) :
    query.readFragment state (fragment.moofAt offset) =
      (fragment.placed.map placedTraf).foldlM (query.readTraf offset)
        { state with previousEnd := offset } := by
  obtain ⟨⟨mfhd, hmfhd, hpayload⟩, -⟩ :=
    fragment.written.framed fragment.framed
  have htrafs : (fragment.placed.map placedTraf).filter
      (fun child => child.name == code 't' 'r' 'a' 'f') =
        fragment.placed.map placedTraf := by
    rw [List.filter_eq_self]
    intro child hchild
    obtain ⟨item, -, rfl⟩ := List.mem_map.mp hchild
    rfl
  have hsize := fragment.framed.moof_lt
  have hbox := @boxPayload_append (code 'm' 'o' 'o' 'f') _ rfl hsize []
  rw [List.append_nil] at hbox
  unfold readFragment StreamFragment.moofAt
  dsimp only
  rw [hbox, ok_bind]
  dsimp only
  rw [if_neg (by simp), hpayload, childBoxes_append (by rfl) (by omega),
    childBoxes_placed fragment.written.placed, ok_bind, ok_bind]
  change List.foldlM _ _ (List.filter _ (fragment.placed.map placedTraf)) = _
  rw [htrafs]

/-- What the fragments add, one after another. -/
def readStream (query : TrackQuery) (state : TrackState)
    (placed : List (ℕ × StreamFragment)) : TrackState :=
  placed.foldl (fun state item => item.2.placed.foldl (query.readPart item.1)
    { state with previousEnd := item.1 }) state

theorem foldlM_readFragment_ahead {fragments : List StreamFragment}
    {offset : ℕ}
    (h : query.Ahead state (fragments.flatMap StreamFragment.parts))
    (hend : offset + streamLength fragments ≤ query.sourceLen)
    (hword : query.sourceLen < 2 ^ 64)
    (hnext : state.nextDecodeTime < 2 ^ 64) :
    ((placedFragments offset fragments).map fun item =>
        item.2.moofAt item.1).foldlM query.readFragment state =
      .ok (query.readStream state (placedFragments offset fragments)) := by
  induction fragments generalizing offset state with
  | nil => rfl
  | cons fragment fragments ih =>
      rw [streamLength, List.map_cons, List.sum_cons] at hend
      have hlength := fragment.written.length_eq
      have hstops : ∀ item ∈ fragment.placed,
          offset + item.2 + totalSize item.1.samples ≤ query.sourceLen := by
        intro item hitem
        have hstop := placedParts_stop item hitem
        rw [(fragment.written.placed item hitem).valid.payload_eq] at hstop
        unfold StreamFragment.length at hend
        omega
      have hparts : fragment.placed.map Prod.fst = fragment.parts :=
        map_fst_placedParts _ _
      obtain ⟨hfirst, hahead, htime⟩ := @foldlM_readTraf_ahead query offset
        { state with previousEnd := offset } fragment.placed
        (fragments.flatMap StreamFragment.parts)
        (by rw [hparts]; exact h.from) fragment.written.placed hstops hword
        hnext
      rw [placedFragments, List.map_cons, List.foldlM_cons,
        readFragment_placed, hfirst, ok_bind]
      exact ih hahead (by unfold streamLength; omega) htime

end TrackQuery

theorem length_flatMap_parts {source : List UInt8} {parts : List ExpandedPart}
    (hvalid : ∀ part ∈ parts, part.Valid)
    (hinside : ∀ part ∈ parts, ∀ sample ∈ part.samples,
      sample.offset + sample.size ≤ source.length) :
    (parts.flatMap fun part =>
      part.samples.flatMap (sampleBytes source)).length =
        (parts.map ExpandedPart.payload).sum := by
  induction parts with
  | nil => rfl
  | cons part parts ih =>
      obtain ⟨hpart, hparts⟩ := List.forall_mem_cons.mp hvalid
      obtain ⟨hsamples, hothers⟩ := List.forall_mem_cons.mp hinside
      rw [List.flatMap_cons, List.length_append,
        length_flatMap_sampleBytes hsamples, ih hparts hothers, List.map_cons,
        List.sum_cons, hpart.payload_eq]

theorem StreamFragment.parts_valid (fragment : StreamFragment) :
    ∀ part ∈ fragment.parts, part.Valid :=
  forall_mem_placedParts.mp fun item hitem =>
    (fragment.written.placed item hitem).valid

theorem StreamFragment.length_served {source : List UInt8}
    (fragment : StreamFragment)
    (hinside : ∀ part ∈ fragment.parts, ∀ sample ∈ part.samples,
      sample.offset + sample.size ≤ source.length) :
    (fragment.prepared.served source).length = fragment.length := by
  unfold PreparedSegment.served StreamFragment.length
  rw [fragment.ranges_eq, List.length_append,
    length_flatMap_parts fragment.parts_valid hinside,
    fragment.written.length_eq]

/-! ## The samples that are found -/

/-- When samples that follow each other from `time` on decode. -/
def decodeTimes : ℕ → List Sample → List ℕ
  | _, [] => []
  | time, sample :: rest => time :: decodeTimes (time + sample.duration) rest

theorem map_decodeTime_readBack (kind : TrackKind) (offset time : ℕ)
    (samples : List Sample) :
    (readBack kind offset time samples).map Sample.decodeTime =
      decodeTimes time samples := by
  induction samples generalizing offset time with
  | nil => rfl
  | cons sample samples ih =>
      rw [readBack, List.map_cons, ih, decodeTimes]

/-- When the samples of a part decode, as its fragment lists them. -/
def ExpandedPart.times (part : ExpandedPart) : List ℕ :=
  decodeTimes (part.segment.decodeTime % 2 ^ 64) part.samples

/-- `found` are the samples of `parts`, read from `file`: they have their
bytes and fields, and decode when the fragments say. -/
structure FoundIn (source file : List UInt8) (kind : TrackKind)
    (parts : List ExpandedPart) (found : List Sample) : Prop where
  same : List.Forall₂ (SameSample source file kind)
    (parts.flatMap ExpandedPart.samples) found
  times : found.map Sample.decodeTime = parts.flatMap ExpandedPart.times

section

variable {source file : List UInt8} {kind : TrackKind}
  {parts others : List ExpandedPart} {found more : List Sample}

theorem FoundIn.nil : FoundIn source file kind [] [] :=
  ⟨.nil, rfl⟩

theorem FoundIn.append (h : FoundIn source file kind parts found)
    (hmore : FoundIn source file kind others more) :
    FoundIn source file kind (parts ++ others) (found ++ more) := by
  constructor
  · rw [List.flatMap_append]
    exact List.rel_append h.same hmore.same
  · rw [List.map_append, List.flatMap_append, h.times, hmore.times]

namespace TrackQuery

variable {query : TrackQuery} {state : TrackState} {moofOffset : ℕ}

/-- The parts of the track asked for. -/
def wantedOf (query : TrackQuery) (parts : List ExpandedPart) :
    List ExpandedPart :=
  parts.filter fun part => part.track.id == query.trackId

/-- The samples of one part, whose bytes stand at its offset. -/
theorem readPart_found {part : ExpandedPart} {offset : ℕ}
    {before after : List UInt8}
    (hkind : part.track.id = query.trackId → part.track.kind = kind)
    (hinside : ∀ sample ∈ part.samples,
      sample.offset + sample.size ≤ source.length)
    (hfile : file =
      before ++ (part.samples.flatMap (sampleBytes source) ++ after))
    (hbefore : before.length = moofOffset + offset) :
    ∃ found, (query.readPart moofOffset state (part, offset)).samples =
        state.samples ++ found ∧
      FoundIn source file kind (query.wantedOf [part]) found := by
  unfold readPart wantedOf
  split
  · next hwanted =>
      obtain rfl := hkind hwanted
      refine ⟨_, rfl, ?_⟩
      rw [List.filter_cons_of_pos (by simpa using hwanted), List.filter_nil,
        ← hbefore]
      constructor
      · rw [List.flatMap_singleton]
        exact readBack_same hinside hfile
      · rw [List.flatMap_singleton]
        exact map_decodeTime_readBack ..
  · next hother =>
      refine ⟨[], (List.append_nil _).symm, ?_⟩
      rw [List.filter_cons_of_neg (by simpa using hother), List.filter_nil]
      exact .nil

theorem foldl_readPart_found {offset : ℕ} {before after : List UInt8}
    (hkind : ∀ part ∈ parts, part.track.id = query.trackId →
      part.track.kind = kind)
    (hvalid : ∀ part ∈ parts, part.Valid)
    (hinside : ∀ part ∈ parts, ∀ sample ∈ part.samples,
      sample.offset + sample.size ≤ source.length)
    (hfile : file = before ++ ((parts.flatMap fun part =>
      part.samples.flatMap (sampleBytes source)) ++ after))
    (hbefore : before.length = moofOffset + offset) :
    ∃ found, ((placedParts offset parts).foldl (query.readPart moofOffset)
        state).samples = state.samples ++ found ∧
      FoundIn source file kind (query.wantedOf parts) found := by
  induction parts generalizing offset before state with
  | nil => exact ⟨[], (List.append_nil _).symm, .nil⟩
  | cons part parts ih =>
      rw [List.flatMap_cons, List.append_assoc] at hfile
      obtain ⟨first, hfirst, hfound⟩ := @readPart_found source file kind query
        state moofOffset part offset before _ (hkind part (by simp))
        (hinside part (by simp)) hfile hbefore
      have hlength := length_flatMap_sampleBytes (hinside part (by simp))
      obtain ⟨rest, hrest, hothers⟩ := @ih
        (query.readPart moofOffset state (part, offset)) (offset + part.payload)
        (before ++ part.samples.flatMap (sampleBytes source))
        (fun other hother => hkind other (List.mem_cons_of_mem _ hother))
        (fun other hother => hvalid other (List.mem_cons_of_mem _ hother))
        (fun other hother => hinside other (List.mem_cons_of_mem _ hother))
        (by rw [hfile, List.append_assoc])
        (by
          rw [List.length_append, hbefore, hlength,
            (hvalid part (by simp)).payload_eq]
          omega)
      refine ⟨first ++ rest, ?_, ?_⟩
      · rw [placedParts, List.foldl_cons, hrest, hfirst, List.append_assoc]
      · have happend : query.wantedOf (part :: parts) =
            query.wantedOf [part] ++ query.wantedOf parts :=
          List.filter_append [part] parts
        rw [happend]
        exact hfound.append hothers

end TrackQuery

/-- What the fragments hold is read from a file that holds what is served of
them, one after another. -/
theorem TrackQuery.readStream_found {query : TrackQuery} {state : TrackState}
    {fragments : List StreamFragment} {offset : ℕ}
    {before after : List UInt8}
    (hkind : ∀ part ∈ fragments.flatMap StreamFragment.parts,
      part.track.id = query.trackId → part.track.kind = kind)
    (hinside : ∀ part ∈ fragments.flatMap StreamFragment.parts,
      ∀ sample ∈ part.samples, sample.offset + sample.size ≤ source.length)
    (hfile : file = before ++ ((fragments.flatMap fun fragment =>
      fragment.prepared.served source) ++ after))
    (hbefore : before.length = offset) :
    ∃ found, (query.readStream state
        (placedFragments offset fragments)).samples = state.samples ++ found ∧
      FoundIn source file kind
        (query.wantedOf (fragments.flatMap StreamFragment.parts)) found := by
  induction fragments generalizing offset before state with
  | nil => exact ⟨[], (List.append_nil _).symm, .nil⟩
  | cons fragment fragments ih =>
      have hvalid := fragment.parts_valid
      have hmem : ∀ part ∈ fragment.parts,
          part ∈ (fragment :: fragments).flatMap StreamFragment.parts := by
        intro part hpart
        exact List.mem_append_left _ hpart
      have hrest : ∀ part ∈ fragments.flatMap StreamFragment.parts,
          part ∈ (fragment :: fragments).flatMap StreamFragment.parts := by
        intro part hpart
        exact List.mem_append_right _ hpart
      have hbytes := fragment.ranges_eq source
      have hlength := fragment.length_served
        fun part hpart => hinside part (hmem part hpart)
      rw [List.flatMap_cons, List.append_assoc] at hfile
      obtain ⟨first, hfirst, hfound⟩ := @TrackQuery.foldl_readPart_found source
        file kind fragment.parts query
        { state with previousEnd := offset } offset
        fragment.prepared.header.length
        (before ++ fragment.prepared.header) _
        (fun part hpart => hkind part (hmem part hpart)) hvalid
        (fun part hpart => hinside part (hmem part hpart))
        (by
          rw [hfile]
          unfold PreparedSegment.served
          rw [hbytes, List.append_assoc, List.append_assoc])
        (by rw [List.length_append, hbefore])
      obtain ⟨others, hothers, hmore⟩ := @ih
        (fragment.placed.foldl (query.readPart offset)
          { state with previousEnd := offset })
        (offset + fragment.length) (before ++ fragment.prepared.served source)
        (fun part hpart => hkind part (hrest part hpart))
        (fun part hpart => hinside part (hrest part hpart))
        (by rw [hfile, List.append_assoc])
        (by rw [List.length_append, hbefore, hlength])
      refine ⟨first ++ others, ?_, ?_⟩
      · change (query.readStream _ (placedFragments _ fragments)).samples = _
        rw [hothers, ← List.append_assoc]
        exact congrArg (· ++ others) hfirst
      · rw [List.flatMap_cons]
        have happend : query.wantedOf
            (fragment.parts ++ fragments.flatMap StreamFragment.parts) =
              query.wantedOf fragment.parts ++
                query.wantedOf (fragments.flatMap StreamFragment.parts) :=
          List.filter_append ..
        rw [happend]
        exact hfound.append hmore

end

end Segmentor
