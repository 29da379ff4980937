import Segmentor.BoxRoundTrip
import Segmentor.FragmentReader

/-!
# Fragments read back

What `prepareMediaSegment` and `prepareMuxedSegment` write is read with
`trackSamples`: the fields of every sample come back, its offset points at
its own bytes in the fragment, and the announced length is the fragment's.
The decode times of a muxed fragment are the exception: the reader adds the
durations of the tracks that follow the one asked for to that track's own
decode time, and stops where the sum does not fit a word.
-/

namespace Segmentor

open General

/-! ## Samples that fit the fields they are written in -/

structure Sample.Fits (sample : Sample) : Prop where
  size_lt : sample.size < 2 ^ 32
  duration_lt : sample.duration < 2 ^ 32
  composition_low : -2 ^ 31 ≤ sample.compositionOffset
  composition_high : sample.compositionOffset < 2 ^ 31

theorem SampleIndex.Valid.get_fits {x : SampleIndex} (h : x.Valid) {i : ℕ}
    (hi : i < x.len) : (x.get i).Fits := by
  have hstop := h.stop_le
  unfold SampleIndex.len at hi
  have hcomposition : ∀ index,
      -2 ^ 31 ≤ x.tables.compositionOffset index ∧
        x.tables.compositionOffset index < 2 ^ 31 := by
    intro index
    unfold Tables.compositionOffset compositionAt
    split
    · norm_num
    · cases hrow : x.tables.composition[runOf CompositionRow.first
          x.tables.composition index]? with
      | none => exact ⟨by decide, by decide⟩
      | some row =>
          exact h.tables.composition_range row (List.mem_of_getElem? hrow)
  refine ⟨?_, h.tables.duration_lt (by omega), (hcomposition _).1,
    (hcomposition _).2⟩
  change x.tables.sizes[x.start + i]?.getD 0 < 2 ^ 32
  cases hsize : x.tables.sizes[x.start + i]? with
  | none => decide
  | some size => exact h.tables.sizes_lt size (List.mem_of_getElem? hsize)

theorem SampleIndex.Valid.toVec_fits {x : SampleIndex} (h : x.Valid)
    {first stop : ℕ} (hfirst : first ≤ stop) (hstop : stop ≤ x.len) :
    ∀ sample ∈ x.toVec first stop, sample.Fits := by
  intro sample hsample
  rw [h.toVec_eq hfirst hstop] at hsample
  have hall := List.mem_of_mem_take (List.mem_of_mem_drop hsample)
  obtain ⟨i, hi, rfl⟩ := List.mem_map.mp hall
  exact h.get_fits (List.mem_range.mp hi)

theorem SampleIndex.Valid.length_toVec {x : SampleIndex} (h : x.Valid)
    {first stop : ℕ} (hfirst : first ≤ stop) (hstop : stop ≤ x.len) :
    (x.toVec first stop).length = stop - first := by
  rw [h.toVec_eq hfirst hstop, List.length_drop, List.length_take,
    SampleIndex.length_all, Nat.min_eq_left hstop]

/-! ## The entries of a run -/

def totalSize (samples : List Sample) : ℕ :=
  (samples.map Sample.size).sum

def totalDuration (samples : List Sample) : ℕ :=
  (samples.map Sample.duration).sum

@[simp] theorem totalSize_nil : totalSize [] = 0 := rfl

@[simp] theorem totalSize_cons (sample : Sample) (rest : List Sample) :
    totalSize (sample :: rest) = sample.size + totalSize rest := rfl

@[simp] theorem totalDuration_nil : totalDuration [] = 0 := rfl

@[simp] theorem totalDuration_cons (sample : Sample) (rest : List Sample) :
    totalDuration (sample :: rest) =
      sample.duration + totalDuration rest := rfl

/-- Whether a sample is listed as a random-access point: every audio sample
is one. -/
def listedSync (kind : TrackKind) (sample : Sample) : Bool :=
  kind == .audio || sample.isSync

theorem hasFlag_sampleFlags (kind : TrackKind) (sample : Sample) :
    hasFlag (sampleFlags kind sample) NON_SYNC_SAMPLE =
      !listedSync kind sample := by
  unfold sampleFlags listedSync
  cases kind <;> cases sample.isSync <;> rfl

theorem sampleFlags_lt (kind : TrackKind) (sample : Sample) :
    sampleFlags kind sample < 2 ^ 32 := by
  unfold sampleFlags
  split <;> decide

theorem SampleIndex.Valid.totalDuration_toVec_lt {x : SampleIndex}
    (h : x.Valid) {first stop : ℕ} (hfirst : first < stop)
    (hstop : stop ≤ x.len) :
    x.decodeTime first + totalDuration (x.toVec first stop) < 2 ^ 64 := by
  have hrange : ∀ count, first + count < x.len →
      x.decodeTime first +
          totalDuration ((x.all.take (first + count + 1)).drop first) ≤
        x.decodeTime (first + count) + (x.get (first + count)).duration := by
    intro count
    induction count with
    | zero =>
        intro hindex
        rw [Nat.add_zero] at hindex ⊢
        rw [List.take_add_one, x.getElem?_all hindex,
          List.drop_append_of_le_length (by simp; omega),
          List.drop_eq_nil_of_le (by simp)]
        simp
    | succ count ih =>
        intro hindex
        have hbefore := ih (by omega)
        have hchain := @SampleIndex.Valid.decodeTime_add_duration_le _ h
          (first + count) hindex
        rw [← Nat.add_assoc] at hindex ⊢
        rw [List.take_add_one, x.getElem?_all hindex,
          List.drop_append_of_le_length (by simp; omega)]
        simp only [totalDuration, Option.toList_some, List.map_append,
          List.sum_append, List.map_cons, List.map_nil, List.sum_cons,
          List.sum_nil] at hbefore ⊢
        omega
  have hlast := @SampleIndex.Valid.sample_end_lt _ h (stop - 1) (by omega)
  have htotal := hrange (stop - 1 - first) (by omega)
  rw [h.toVec_eq hfirst.le hstop]
  rw [show first + (stop - 1 - first) = stop - 1 by omega,
    show stop - 1 + 1 = stop by omega] at htotal
  omega

/-- What reading gives of samples whose bytes follow each other from `offset`
on and which decode one after the other from `time` on. -/
def readBack (kind : TrackKind) : ℕ → ℕ → List Sample → List Sample
  | _, _, [] => []
  | offset, time, sample :: rest =>
      { offset := offset
        size := sample.size
        decodeTime := time
        duration := sample.duration
        compositionOffset := sample.compositionOffset
        isSync := listedSync kind sample } ::
        readBack kind (offset + sample.size) (time + sample.duration) rest

namespace Run

/-- An entry of `sample`, once it is read. -/
def placeSample (run : Run) (kind : TrackKind) (state : RunState)
    (sample : Sample) : Result RunState :=
  run.place state sample.duration sample.size (sampleFlags kind sample)
    sample.compositionOffset

theorem readEntry_written (run : Run) {kind : TrackKind} {sample : Sample}
    (hfits : sample.Fits) (index : ℕ) (state : RunState)
    (rest : List UInt8) :
    (run.readEntry 1 TRUN_FLAGS none index state).run
        (trunEntry kind sample ++ rest) =
      (run.placeSample kind state sample).map fun state => (state, rest) := by
  unfold readEntry trunEntry
  have hduration : field (hasFlag TRUN_FLAGS SAMPLE_DURATION)
      run.defaultDuration = Reader.u32 := rfl
  have hsize : field (hasFlag TRUN_FLAGS SAMPLE_SIZE) run.defaultSize =
      Reader.u32 := rfl
  have hflags : run.entryFlags TRUN_FLAGS none index = Reader.u32 := rfl
  have hcomposition : entryCompositionOffset 1 TRUN_FLAGS = Reader.i32 := rfl
  rw [hduration, hsize, hflags, hcomposition]
  simp only [List.append_assoc]
  rw [StateT.run_bind, Reader.u32_append hfits.duration_lt, ok_bind]
  dsimp only
  rw [StateT.run_bind, Reader.u32_append hfits.size_lt, ok_bind]
  dsimp only
  rw [StateT.run_bind, Reader.u32_append (sampleFlags_lt kind sample), ok_bind]
  dsimp only
  rw [StateT.run_bind, Reader.i32_append hfits.composition_low
    hfits.composition_high, ok_bind]
  dsimp only [placeSample]
  cases run.place state sample.duration sample.size (sampleFlags kind sample)
    sample.compositionOffset <;> rfl

theorem readEntries_written (run : Run) {kind : TrackKind}
    {samples : List Sample} (hfits : ∀ sample ∈ samples, sample.Fits)
    (index : ℕ) (state : RunState) (rest : List UInt8) :
    (run.readEntries 1 TRUN_FLAGS none samples.length index state).run
        (samples.flatMap (trunEntry kind) ++ rest) =
      (samples.foldlM (run.placeSample kind) state).map
        fun state => (state, rest) := by
  induction samples generalizing index state with
  | nil => rfl
  | cons sample samples ih =>
      rw [List.length_cons, readEntries, List.flatMap_cons, List.append_assoc,
        StateT.run_bind, run.readEntry_written (hfits sample (by simp)),
        List.foldlM_cons]
      cases hplace : run.placeSample kind state sample with
      | error e => rfl
      | ok next =>
          exact ih (fun s hs => hfits s (List.mem_cons_of_mem _ hs)) _ next

/-- Where its bytes are inside the source, a sample is placed exactly where
it ends decoding inside a word. -/
theorem placeSample_eq_ok_iff (run : Run) {kind : TrackKind} {sample : Sample}
    {state next : RunState}
    (hoffset : state.offset + sample.size < 2 ^ 64)
    (hsource : run.keep = true →
      state.offset + sample.size ≤ run.sourceLen) :
    run.placeSample kind state sample = .ok next ↔
      state.decodeTime + sample.duration < 2 ^ 64 ∧
        next =
          { offset := state.offset + sample.size
            decodeTime := state.decodeTime + sample.duration
            samples := state.samples ++
              (if run.keep then
                readBack kind state.offset state.decodeTime [sample]
              else []) } := by
  have hstop : checkedAdd (2 ^ 64) state.offset sample.size =
      some (state.offset + sample.size) :=
    checkedAdd_eq_some_iff.mpr ⟨hoffset, rfl⟩
  have hsync : (!hasFlag (sampleFlags kind sample) NON_SYNC_SAMPLE) =
      listedSync kind sample := by
    rw [hasFlag_sampleFlags, Bool.not_not]
  unfold placeSample place
  rw [hstop, hsync, okOr_some, ok_bind]
  cases hkeep : run.keep with
  | true =>
      have hinside := hsource hkeep
      rw [if_pos rfl, if_neg (by omega), ok_bind, bind_eq_ok_iff]
      simp only [okOr_eq_ok_iff, checkedAdd_eq_some_iff, Except.ok.injEq,
        readBack, if_true]
      constructor
      · rintro ⟨time, ⟨htime, rfl⟩, rfl⟩
        exact ⟨htime, rfl⟩
      · rintro ⟨htime, rfl⟩
        exact ⟨_, ⟨htime, rfl⟩, rfl⟩
  | false =>
      rw [if_neg (by simp), ok_bind, bind_eq_ok_iff]
      simp only [okOr_eq_ok_iff, checkedAdd_eq_some_iff, Except.ok.injEq,
        Bool.false_eq_true, if_false, List.append_nil]
      constructor
      · rintro ⟨time, ⟨htime, rfl⟩, rfl⟩
        exact ⟨htime, rfl⟩
      · rintro ⟨htime, rfl⟩
        exact ⟨_, ⟨htime, rfl⟩, rfl⟩

theorem foldlM_placeSample_eq_ok_iff (run : Run) {kind : TrackKind}
    {samples : List Sample} {state final : RunState}
    (hoffset : state.offset + totalSize samples < 2 ^ 64)
    (hsource : run.keep = true →
      state.offset + totalSize samples ≤ run.sourceLen)
    (htime : state.decodeTime < 2 ^ 64) :
    samples.foldlM (run.placeSample kind) state = .ok final ↔
      state.decodeTime + totalDuration samples < 2 ^ 64 ∧
        final =
          { offset := state.offset + totalSize samples
            decodeTime := state.decodeTime + totalDuration samples
            samples := state.samples ++
              (if run.keep then
                readBack kind state.offset state.decodeTime samples
              else []) } := by
  induction samples generalizing state with
  | nil =>
      have hnil : ∀ b : Bool, (if b then readBack kind state.offset
          state.decodeTime [] else []) = [] := by
        intro b
        cases b <;> rfl
      simp only [List.foldlM_nil, totalDuration_nil, totalSize_nil, hnil,
        List.append_nil, Nat.add_zero, htime, true_and]
      exact ⟨fun h => (Except.ok.inj h).symm, fun h => h ▸ rfl⟩
  | cons sample samples ih =>
      rw [totalSize_cons] at hoffset hsource
      have hplace := fun next => @Run.placeSample_eq_ok_iff run kind _ _ next
        (show state.offset + sample.size < 2 ^ 64 by omega)
        (fun hkeep => by have := hsource hkeep; omega)
      have hsamples : state.samples ++
            (if run.keep then
              readBack kind state.offset state.decodeTime [sample]
            else []) ++
            (if run.keep then
              readBack kind (state.offset + sample.size)
                (state.decodeTime + sample.duration) samples
            else []) =
          state.samples ++
            (if run.keep then
              readBack kind state.offset state.decodeTime (sample :: samples)
            else []) := by
        cases run.keep <;> simp [readBack]
      rw [List.foldlM_cons, bind_eq_ok_iff]
      simp only [hplace, totalDuration_cons, totalSize_cons, ← hsamples]
      constructor
      · rintro ⟨next, ⟨hnext, rfl⟩, hrest⟩
        have hrest := (ih (by dsimp only; omega)
          (fun hkeep => by have := hsource hkeep; dsimp only; omega)
          hnext).mp hrest
        simpa only [Nat.add_assoc] using hrest
      · rintro ⟨htotal, rfl⟩
        refine ⟨_, ⟨by omega, rfl⟩, ?_⟩
        rw [ih (by dsimp only; omega)
          (fun hkeep => by have := hsource hkeep; dsimp only; omega)
          (by dsimp only; omega)]
        simp only [Nat.add_assoc, and_true]
        exact htotal

theorem length_flatMap_trunEntry (kind : TrackKind) (samples : List Sample) :
    (samples.flatMap (trunEntry kind)).length = samples.length * 16 := by
  induction samples with
  | nil => rfl
  | cons sample samples ih =>
      rw [List.flatMap_cons, List.length_append, ih]
      simp [trunEntry]
      omega

/-- The payload of a written `trun`. -/
def written (kind : TrackKind) (samples : List Sample) (dataOffset : ℤ) :
    List UInt8 :=
  writeFullBoxFields 1 TRUN_FLAGS ++ encode 4 samples.length ++
    encode 4 (toWord 32 dataOffset) ++ samples.flatMap (trunEntry kind)

theorem readBody_written (run : Run) {kind : TrackKind}
    {samples : List Sample} (hfits : ∀ sample ∈ samples, sample.Fits)
    {state : RunState} {maxSamples : ℕ}
    (hmax : run.keep = true →
      state.samples.length + samples.length ≤ maxSamples) :
    (run.readBody 1 TRUN_FLAGS samples.length none state maxSamples).run
        (samples.flatMap (trunEntry kind)) =
      (samples.foldlM (run.placeSample kind) state).map
        fun state => (state, []) := by
  have hsize : hasFlag TRUN_FLAGS SAMPLE_SIZE = true := rfl
  have hentry : entrySize TRUN_FLAGS = 16 := rfl
  have hentries := @Run.readEntries_written run kind _ hfits 0 state []
  rw [List.append_nil] at hentries
  unfold readBody
  rw [StateT.run_bind]
  change StateT.run (if (samples.flatMap (trunEntry kind)).length <
    samples.length * entrySize TRUN_FLAGS then _ else _) _ = _
  rw [hentry, length_flatMap_trunEntry, if_neg (by omega),
    if_neg (fun h => by have := hmax h.1; omega),
    if_neg (fun h => h.2 hsize), hentries]

/-- A run that was written is read by placing its samples from its data
offset on. -/
theorem read_written (run : Run) {kind : TrackKind} {samples : List Sample}
    (hfits : ∀ sample ∈ samples, sample.Fits)
    (hcount : samples.length < 2 ^ 32) {dataOffset : ℕ}
    (hdataOffset : dataOffset < 2 ^ 31)
    (hbase : run.base + dataOffset < 2 ^ 64)
    {state : RunState} {maxSamples : ℕ}
    (hmax : run.keep = true →
      state.samples.length + samples.length ≤ maxSamples) :
    run.read (written kind samples dataOffset) state maxSamples =
      samples.foldlM (run.placeSample kind)
        { state with offset := run.base + dataOffset } := by
  have hstart : run.start state.offset (some (dataOffset : ℤ)) =
      .ok (run.base + dataOffset) := by
    unfold start
    dsimp only
    rw [if_pos ⟨by omega, by omega⟩]
    norm_cast
  have hoffset : hasFlag TRUN_FLAGS DATA_OFFSET = true := rfl
  have hfirst : hasFlag TRUN_FLAGS FIRST_SAMPLE_FLAGS = false := rfl
  have hbody := @Run.readBody_written run kind _ hfits
    ({ state with offset := run.base + dataOffset }) _ hmax
  unfold read written
  rw [StateT.run'_eq, StateT.run_bind]
  simp only [List.append_assoc]
  rw [Reader.fullBoxFlags_append (by decide) (by decide), ok_bind]
  dsimp only
  rw [StateT.run_bind, Reader.u32_append hcount, ok_bind]
  dsimp only
  rw [StateT.run_bind, hoffset, Reader.run_optional_true,
    Reader.i32_append (by omega) (by omega)]
  dsimp only [Except.map]
  rw [ok_bind, StateT.run_bind]
  dsimp only
  rw [hstart, Reader.run_lift_ok, ok_bind]
  dsimp only
  rw [StateT.run_bind, hfirst, Reader.run_optional_false, ok_bind]
  dsimp only
  rw [hbody]
  cases samples.foldlM (run.placeSample kind)
    { state with offset := run.base + dataOffset } <;> rfl

end Run

/-! ## One track's `traf` -/

/-- What expanding a part leaves of it. -/
structure ExpandedPart.Valid (part : ExpandedPart) : Prop where
  fits : ∀ sample ∈ part.samples, sample.Fits
  nonempty : part.samples ≠ []
  payload_eq : part.payload = totalSize part.samples
  duration_lt : totalDuration part.samples < 2 ^ 64

namespace ExpandedPart

def tfhd (part : ExpandedPart) : List UInt8 :=
  writeFullBoxFields 0 TFHD_DEFAULT_BASE_IS_MOOF ++ encode 4 part.track.id

def tfdt (part : ExpandedPart) : List UInt8 :=
  writeFullBoxFields 1 0 ++ encode 8 part.segment.decodeTime

def trun (part : ExpandedPart) (dataOffset : ℤ) : List UInt8 :=
  Run.written part.track.kind part.samples dataOffset

/-- The payload of the part's `traf`. -/
def trafPayload (part : ExpandedPart) (dataOffset : ℤ) : List UInt8 :=
  boxBytes (code 't' 'f' 'h' 'd') part.tfhd ++
    (boxBytes (code 't' 'f' 'd' 't') part.tfdt ++
      boxBytes (code 't' 'r' 'u' 'n') (part.trun dataOffset))

@[simp] theorem length_tfhd (part : ExpandedPart) : part.tfhd.length = 8 := by
  simp [tfhd, writeFullBoxFields]

@[simp] theorem length_tfdt (part : ExpandedPart) :
    part.tfdt.length = 12 := by
  simp [tfdt, writeFullBoxFields]

@[simp] theorem length_trun (part : ExpandedPart) (dataOffset : ℤ) :
    (part.trun dataOffset).length = 12 + part.samples.length * 16 := by
  simp only [trun, Run.written, List.length_append, length_encode,
    Run.length_flatMap_trunEntry]
  rfl

@[simp] theorem length_trafPayload (part : ExpandedPart) (dataOffset : ℤ) :
    (part.trafPayload dataOffset).length = 56 + part.samples.length * 16 := by
  simp only [trafPayload, List.length_append, length_boxBytes_code,
    length_tfhd, length_tfdt, length_trun]
  omega

end ExpandedPart

theorem partTraf_eq_ok {part : ExpandedPart} {dataOffset : ℤ}
    {bytes : List UInt8} (h : partTraf part dataOffset = .ok bytes) :
    part.samples.length < 2 ^ 32 ∧
      (part.trafPayload dataOffset).length + 8 < 2 ^ 32 ∧
      boxBytes (code 't' 'r' 'a' 'f') (part.trafPayload dataOffset) =
        bytes := by
  unfold partTraf buildTraf at h
  dsimp only at h
  split at h
  · simp at h
  · rename_i hcount
    obtain ⟨tfhd, htfhd, h⟩ := bind_eq_ok_iff.mp h
    obtain ⟨tfdt, htfdt, h⟩ := bind_eq_ok_iff.mp h
    obtain ⟨trun, htrun, h⟩ := bind_eq_ok_iff.mp h
    obtain ⟨-, rfl⟩ := writeBox_eq_ok_iff.mp htfhd
    obtain ⟨-, rfl⟩ := writeBox_eq_ok_iff.mp htfdt
    obtain ⟨-, rfl⟩ := writeBox_eq_ok_iff.mp htrun
    rw [List.append_nil, List.append_assoc] at h
    obtain ⟨hsize, rfl⟩ := writeBox_eq_ok_iff.mp h
    exact ⟨by omega, hsize, rfl⟩

theorem childBoxes_trafPayload {part : ExpandedPart} {dataOffset : ℤ}
    (hsize : (part.trafPayload dataOffset).length + 8 < 2 ^ 32) :
    childBoxes (part.trafPayload dataOffset) =
      .ok [⟨code 't' 'f' 'h' 'd', part.tfhd, 16⟩,
        ⟨code 't' 'f' 'd' 't', part.tfdt, 20⟩,
        ⟨code 't' 'r' 'u' 'n', part.trun dataOffset,
          20 + part.samples.length * 16⟩] := by
  rw [ExpandedPart.length_trafPayload] at hsize
  unfold ExpandedPart.trafPayload
  rw [childBoxes_append (by rfl) (by rw [part.length_tfhd]; omega),
    childBoxes_append (by rfl) (by rw [part.length_tfdt]; omega),
    ← List.append_nil (boxBytes (code 't' 'r' 'u' 'n') _),
    childBoxes_append (by rfl) (by rw [part.length_trun]; omega),
    childBoxes_nil]
  simp only [ok_bind, part.length_tfhd, part.length_tfdt, part.length_trun,
    Except.ok.injEq, List.cons.injEq, RawBox.mk.injEq, true_and, and_true]
  omega

theorem parseTrackFragmentHeader_tfhd (part : ExpandedPart) :
    parseTrackFragmentHeader.run' part.tfhd =
      .ok
        { trackId := part.track.id
          baseDataOffset := none
          defaultBaseIsMoof := true
          defaultDuration := none
          defaultSize := none
          defaultFlags := none } := by
  have htrack := Reader.u32_append part.track.id_lt []
  rw [List.append_nil] at htrack
  unfold parseTrackFragmentHeader ExpandedPart.tfhd
  rw [StateT.run'_eq, StateT.run_bind,
    Reader.fullBoxFlags_append (by decide) (by decide), ok_bind]
  dsimp only
  rw [StateT.run_bind, htrack]
  rfl

theorem parseDecodeTime_tfdt (part : ExpandedPart) :
    parseDecodeTime.run' part.tfdt =
      .ok (part.segment.decodeTime % 2 ^ 64) := by
  have htime : Reader.u64.run (encode 8 part.segment.decodeTime) =
      .ok (part.segment.decodeTime % 2 ^ 64, []) := by
    have hread := Reader.take_append
      (length_encode 8 part.segment.decodeTime) []
    rw [List.append_nil] at hread
    unfold Reader.u64
    rw [StateT.run_bind, hread, ok_bind, decode_encode]
    rfl
  unfold parseDecodeTime ExpandedPart.tfdt
  rw [StateT.run'_eq, StateT.run_bind, Reader.fullBox_append (by decide),
    ok_bind]
  dsimp only
  rw [if_pos rfl, htime]
  rfl

/-- A part written with its data `dataOffset` bytes past the start of the
fragment. -/
structure ExpandedPart.Placed (part : ExpandedPart) (dataOffset : ℕ) :
    Prop where
  valid : part.Valid
  count_lt : part.samples.length < 2 ^ 32
  size_lt : (part.trafPayload dataOffset).length + 8 < 2 ^ 32
  offset_lt : dataOffset < 2 ^ 31
  stop_lt : dataOffset + totalSize part.samples < 2 ^ 64

/-- The part's `traf`, as a walk over the fragment finds it. -/
def ExpandedPart.traf (part : ExpandedPart) (dataOffset : ℤ) : RawBox where
  name := code 't' 'r' 'a' 'f'
  payload := part.trafPayload dataOffset
  size := (part.trafPayload dataOffset).length + 8

/-- What the part's `tfhd` says. -/
def ExpandedPart.header (part : ExpandedPart) : TrackFragmentHeader where
  trackId := part.track.id
  baseDataOffset := none
  defaultBaseIsMoof := true
  defaultDuration := none
  defaultSize := none
  defaultFlags := none

namespace TrackQuery

variable {query : TrackQuery} {part : ExpandedPart}
  {moofOffset dataOffset : ℕ} {state final : TrackState}

/-- Reading a part's `traf` is placing its samples from its data offset
on. -/
theorem readTraf_placed (h : part.Placed dataOffset)
    (hbase : moofOffset + dataOffset < 2 ^ 64)
    (hmax : part.track.id = query.trackId →
      state.samples.length + part.samples.length ≤
        query.limits.maxSamplesPerTrack) :
    query.readTraf moofOffset state (part.traf dataOffset) = (do
      let wanted := part.track.id == query.trackId
      let decodeTime ← query.startTime wanted
        (some ⟨code 't' 'f' 'd' 't', part.tfdt, 20⟩) state.nextDecodeTime
      let placed ← part.samples.foldlM
        ((query.run part.header moofOffset).placeSample part.track.kind)
        ⟨moofOffset + dataOffset, decodeTime, state.samples⟩
      .ok
        { samples := placed.samples
          nextDecodeTime :=
            if wanted then placed.decodeTime else state.nextDecodeTime
          previousEnd := placed.offset }) := by
  have hchildren := childBoxes_trafPayload h.size_lt
  have htfhd : requiredChild (part.trafPayload dataOffset)
      (code 't' 'f' 'h' 'd') =
        .ok ⟨code 't' 'f' 'h' 'd', part.tfhd, 16⟩ := by
    unfold requiredChild optionalChild
    rw [hchildren]
    rfl
  have htfdt : optionalChild (part.trafPayload dataOffset)
      (code 't' 'f' 'd' 't') =
        .ok (some ⟨code 't' 'f' 'd' 't', part.tfdt, 20⟩) := by
    unfold optionalChild
    rw [hchildren]
    rfl
  have hread : ∀ state : RunState,
      (part.track.id = query.trackId →
        state.samples.length + part.samples.length ≤
          query.limits.maxSamplesPerTrack) →
      (query.run part.header moofOffset).read (part.trun dataOffset) state
          query.limits.maxSamplesPerTrack =
        part.samples.foldlM
          ((query.run part.header moofOffset).placeSample part.track.kind)
          { state with offset := moofOffset + dataOffset } := by
    intro state hroom
    exact Run.read_written _ h.valid.fits h.count_lt h.offset_lt hbase
      fun hkeep => hroom (by simpa [run, ExpandedPart.header] using hkeep)
  unfold readTraf ExpandedPart.traf
  dsimp only
  rw [htfhd, ok_bind, parseTrackFragmentHeader_tfhd, ok_bind]
  dsimp only
  rw [htfdt, ok_bind]
  cases query.startTime (part.track.id == query.trackId)
    (some ⟨code 't' 'f' 'd' 't', part.tfdt, 20⟩) state.nextDecodeTime with
  | error e => rfl
  | ok decodeTime =>
      rw [ok_bind, ok_bind, hchildren, ok_bind]
      change (do
        let final ← [(⟨code 't' 'r' 'u' 'n', part.trun dataOffset,
          20 + part.samples.length * 16⟩ : RawBox)].foldlM
          (fun state (trun : RawBox) => (query.run part.header moofOffset).read
            trun.payload state query.limits.maxSamplesPerTrack)
          ⟨moofOffset, decodeTime, state.samples⟩
        _) = _
      rw [List.foldlM_cons, hread _ hmax]
      cases part.samples.foldlM
        ((query.run part.header moofOffset).placeSample part.track.kind)
        ⟨moofOffset + dataOffset, decodeTime, state.samples⟩ <;> rfl

theorem readTraf_next_eq_ok_iff (h : part.Placed dataOffset)
    (hwanted : part.track.id = query.trackId)
    (hword : moofOffset + dataOffset + totalSize part.samples < 2 ^ 64)
    (hsource : moofOffset + dataOffset + totalSize part.samples ≤
      query.sourceLen)
    (hmax : state.samples.length + part.samples.length ≤
      query.limits.maxSamplesPerTrack)
    (hnext : state.nextDecodeTime ≤ part.segment.decodeTime % 2 ^ 64) :
    query.readTraf moofOffset state (part.traf dataOffset) = .ok final ↔
      part.segment.decodeTime % 2 ^ 64 + totalDuration part.samples <
          2 ^ 64 ∧
        final =
          { samples := state.samples ++
              readBack part.track.kind (moofOffset + dataOffset)
                (part.segment.decodeTime % 2 ^ 64) part.samples
            nextDecodeTime := part.segment.decodeTime % 2 ^ 64 +
              totalDuration part.samples
            previousEnd :=
              moofOffset + dataOffset + totalSize part.samples } := by
  have hkeep : (query.run part.header moofOffset).keep = true := by
    simp [run, ExpandedPart.header, hwanted]
  have hplace := fun placed => @Run.foldlM_placeSample_eq_ok_iff
    (query.run part.header moofOffset) part.track.kind part.samples
    ⟨moofOffset + dataOffset, part.segment.decodeTime % 2 ^ 64, state.samples⟩
    placed hword (fun _ => hsource) (Nat.mod_lt _ (by positivity))
  rw [readTraf_placed h (by omega) (fun _ => hmax), hwanted]
  unfold startTime
  simp only [beq_self_eq_true, if_true, parseDecodeTime_tfdt, ok_bind,
    Nat.not_lt.mpr hnext, if_false]
  rw [bind_eq_ok_iff]
  simp only [hplace, hkeep, if_true, Except.ok.injEq]
  constructor
  · rintro ⟨placed, ⟨htime, rfl⟩, rfl⟩
    exact ⟨htime, rfl⟩
  · rintro ⟨htime, rfl⟩
    exact ⟨_, ⟨htime, rfl⟩, rfl⟩

theorem readTraf_wanted_eq_ok_iff (h : part.Placed dataOffset)
    (hwanted : part.track.id = query.trackId)
    (hsource : dataOffset + totalSize part.samples ≤ query.sourceLen)
    (hmax : part.samples.length ≤ query.limits.maxSamplesPerTrack)
    (hsamples : state.samples = []) (hnext : state.nextDecodeTime = 0) :
    query.readTraf 0 state (part.traf dataOffset) = .ok final ↔
      part.segment.decodeTime % 2 ^ 64 + totalDuration part.samples <
          2 ^ 64 ∧
        final =
          { samples := readBack part.track.kind dataOffset
              (part.segment.decodeTime % 2 ^ 64) part.samples
            nextDecodeTime := part.segment.decodeTime % 2 ^ 64 +
              totalDuration part.samples
            previousEnd := dataOffset + totalSize part.samples } := by
  have hstop := h.stop_lt
  have hread := @readTraf_next_eq_ok_iff query part 0 dataOffset state final h
    hwanted (by omega) (by omega) (by rw [hsamples]; simpa using hmax)
    (by omega)
  rw [hsamples, List.nil_append, Nat.zero_add] at hread
  exact hread

theorem readTraf_other_eq_ok_iff (h : part.Placed dataOffset)
    (hother : part.track.id ≠ query.trackId)
    (hnext : state.nextDecodeTime < 2 ^ 64) :
    query.readTraf 0 state (part.traf dataOffset) = .ok final ↔
      state.nextDecodeTime + totalDuration part.samples < 2 ^ 64 ∧
        final =
          { state with
            previousEnd := dataOffset + totalSize part.samples } := by
  have hkeep : (query.run part.header 0).keep = false := by
    simp [run, ExpandedPart.header, hother]
  have hplace := fun placed => @Run.foldlM_placeSample_eq_ok_iff
    (query.run part.header 0) part.track.kind part.samples
    ⟨dataOffset, state.nextDecodeTime, state.samples⟩ placed h.stop_lt
    (by simp [hkeep]) hnext
  have hstop := h.stop_lt
  rw [readTraf_placed h (by omega) (by simp [hother]), Nat.zero_add]
  unfold startTime
  simp only [beq_eq_false_iff_ne.mpr hother, Bool.false_eq_true, if_false,
    ok_bind]
  rw [bind_eq_ok_iff]
  simp only [hplace, hkeep, Bool.false_eq_true, if_false, List.append_nil,
    Except.ok.injEq]
  constructor
  · rintro ⟨placed, ⟨htime, rfl⟩, rfl⟩
    exact ⟨htime, rfl⟩
  · rintro ⟨htime, rfl⟩
    exact ⟨_, ⟨htime, rfl⟩, rfl⟩

end TrackQuery

/-! ## A whole fragment -/

/-- The parts of a fragment, each with where its bytes start, the first at
`offset`. -/
def placedParts : ℕ → List ExpandedPart → List (ExpandedPart × ℕ)
  | _, [] => []
  | offset, part :: rest =>
      (part, offset) :: placedParts (offset + part.payload) rest

theorem placedParts_append (offset : ℕ) (parts others : List ExpandedPart) :
    placedParts offset (parts ++ others) =
      placedParts offset parts ++
        placedParts (offset + (parts.map ExpandedPart.payload).sum) others := by
  induction parts generalizing offset with
  | nil => simp [placedParts]
  | cons part parts ih => simp [placedParts, ih, Nat.add_assoc]

@[simp] theorem map_fst_placedParts (offset : ℕ) (parts : List ExpandedPart) :
    (placedParts offset parts).map Prod.fst = parts := by
  induction parts generalizing offset with
  | nil => rfl
  | cons part parts ih => simp [placedParts, ih]

theorem forall_mem_placedParts {offset : ℕ} {parts : List ExpandedPart}
    {P : ExpandedPart → Prop} :
    (∀ item ∈ placedParts offset parts, P item.1) ↔ ∀ part ∈ parts, P part := by
  have hmap := map_fst_placedParts offset parts
  constructor
  · intro h part hpart
    rw [← hmap] at hpart
    obtain ⟨item, hitem, rfl⟩ := List.mem_map.mp hpart
    exact h item hitem
  · intro h item hitem
    exact h item.1 (hmap ▸ List.mem_map_of_mem hitem)

def placedTraf (placed : ExpandedPart × ℕ) : RawBox :=
  placed.1.traf placed.2

def placedTrafBytes (placed : ExpandedPart × ℕ) : List UInt8 :=
  boxBytes (code 't' 'r' 'a' 'f') (placed.1.trafPayload placed.2)

theorem childBoxes_placed {placed : List (ExpandedPart × ℕ)}
    (h : ∀ item ∈ placed, item.1.Placed item.2) :
    childBoxes (placed.flatMap placedTrafBytes) =
      .ok (placed.map placedTraf) := by
  induction placed with
  | nil => rfl
  | cons item placed ih =>
      have hsize := (h item (by simp)).size_lt
      rw [List.flatMap_cons, placedTrafBytes,
        childBoxes_append (by rfl) hsize,
        ih fun other hother => h other (List.mem_cons_of_mem _ hother)]
      rfl

/-- What preparing a fragment of `parts` gives. -/
structure PreparedSegment.Written (prepared : PreparedSegment)
    (parts : List ExpandedPart) : Prop where
  placed : ∀ item ∈ placedParts prepared.header.length parts,
    item.1.Placed item.2
  header_eq : ∃ mfhd rest, mfhd.length = 8 ∧
    (boxBytes (code 'm' 'f' 'h' 'd') mfhd ++
      (placedParts prepared.header.length parts).flatMap
        placedTrafBytes).length + 8 < 2 ^ 32 ∧
    prepared.header =
      boxBytes (code 'm' 'o' 'o' 'f')
        (boxBytes (code 'm' 'f' 'h' 'd') mfhd ++
          (placedParts prepared.header.length parts).flatMap
            placedTrafBytes) ++ rest
  length_eq : prepared.contentLength =
    prepared.header.length + (parts.map ExpandedPart.payload).sum

/-- When a part stops decoding, as its `tfdt` lists its start. -/
def ExpandedPart.stopTime (part : ExpandedPart) : ℕ :=
  part.segment.decodeTime % 2 ^ 64 + totalDuration part.samples

namespace TrackQuery

variable {query : TrackQuery}

theorem readFragment_written {prepared : PreparedSegment}
    {parts : List ExpandedPart} (h : prepared.Written parts) :
    query.readFragment ⟨[], 0, 0⟩ ⟨0, prepared.header⟩ =
      ((placedParts prepared.header.length parts).map placedTraf).foldlM
        (query.readTraf 0) ⟨[], 0, 0⟩ := by
  obtain ⟨mfhd, rest, hmfhd, hsize, hheader⟩ := h.header_eq
  have htrafs : ((placedParts prepared.header.length parts).map
      placedTraf).filter (fun child => child.name == code 't' 'r' 'a' 'f') =
        (placedParts prepared.header.length parts).map placedTraf := by
    rw [List.filter_eq_self]
    intro child hchild
    obtain ⟨item, -, rfl⟩ := List.mem_map.mp hchild
    rfl
  unfold readFragment
  dsimp only
  rw [hheader, boxPayload_append (by rfl) hsize, ← hheader, ok_bind]
  dsimp only
  rw [if_neg (by simp), childBoxes_append (by rfl) (by omega),
    childBoxes_placed h.placed, ok_bind, ok_bind]
  change List.foldlM _ _ (List.filter _ (placedParts _ parts |>.map _)) = _
  rw [htrafs]

/-- The `traf`s of other tracks leave everything but the last one's end as it
was, if they end decoding inside a word when they start where the track asked
for got to. -/
theorem foldlM_others_eq_ok_iff {placed : List (ExpandedPart × ℕ)}
    {state final : TrackState}
    (h : ∀ item ∈ placed, item.1.Placed item.2)
    (hother : ∀ item ∈ placed, item.1.track.id ≠ query.trackId)
    (hnext : state.nextDecodeTime < 2 ^ 64) :
    (placed.map placedTraf).foldlM (query.readTraf 0) state = .ok final ↔
      (∀ item ∈ placed,
        state.nextDecodeTime + totalDuration item.1.samples < 2 ^ 64) ∧
      final =
        { state with
          previousEnd := placed.foldl
            (fun _ item => item.2 + totalSize item.1.samples)
            state.previousEnd } := by
  induction placed generalizing state with
  | nil =>
      simp only [List.map_nil, List.foldlM_nil, List.not_mem_nil,
        IsEmpty.forall_iff, implies_true, true_and, List.foldl_nil]
      exact ⟨fun h => (Except.ok.inj h).symm, fun h => h ▸ rfl⟩
  | cons item placed ih =>
      have hfirst := fun next => @TrackQuery.readTraf_other_eq_ok_iff query _ _
        _ next (h item (by simp)) (hother item (by simp)) hnext
      have hrest := @ih
        { state with previousEnd := item.2 + totalSize item.1.samples }
        (fun other hmem => h other (List.mem_cons_of_mem _ hmem))
        (fun other hmem => hother other (List.mem_cons_of_mem _ hmem)) hnext
      rw [List.map_cons, List.foldlM_cons, bind_eq_ok_iff]
      simp only [List.forall_mem_cons, List.foldl_cons]
      constructor
      · rintro ⟨next, hread, hothers⟩
        obtain ⟨htime, rfl⟩ := (hfirst next).mp hread
        obtain ⟨htimes, rfl⟩ := hrest.mp hothers
        exact ⟨⟨htime, htimes⟩, rfl⟩
      · rintro ⟨⟨htime, htimes⟩, rfl⟩
        exact ⟨_, (hfirst _).mpr ⟨htime, rfl⟩, hrest.mpr ⟨htimes, rfl⟩⟩

theorem foldlM_around_eq_ok_iff {before after : List (ExpandedPart × ℕ)}
    {part : ExpandedPart} {offset : ℕ} {found : List Sample}
    (h : ∀ item ∈ before ++ (part, offset) :: after, item.1.Placed item.2)
    (hother : ∀ item ∈ before ++ after, item.1.track.id ≠ query.trackId)
    (hwanted : part.track.id = query.trackId)
    (hsource : offset + totalSize part.samples ≤ query.sourceLen)
    (hmax : part.samples.length ≤ query.limits.maxSamplesPerTrack) :
    (∃ final, ((before ++ (part, offset) :: after).map placedTraf).foldlM
        (query.readTraf 0) ⟨[], 0, 0⟩ = .ok final ∧ final.samples = found) ↔
      (part.stopTime < 2 ^ 64 ∧
        ∀ item ∈ after,
          part.stopTime + totalDuration item.1.samples < 2 ^ 64) ∧
      found = readBack part.track.kind offset
        (part.segment.decodeTime % 2 ^ 64) part.samples := by
  simp only [List.mem_append, List.mem_cons] at h hother
  have hfits : ∀ item ∈ before,
      0 + totalDuration item.1.samples < 2 ^ 64 := by
    intro item hitem
    rw [Nat.zero_add]
    exact (h item (.inl hitem)).valid.duration_lt
  have hbefore := fun state => @TrackQuery.foldlM_others_eq_ok_iff query _
    ⟨[], 0, 0⟩ state (fun item hitem =>
      h item (.inl hitem)) (fun item hitem => hother item (.inl hitem)) (by decide)
  have hown := fun state next hsamples hnext =>
    @TrackQuery.readTraf_wanted_eq_ok_iff _ _ _ state next
    (h (part, offset) (.inr (.inl rfl))) hwanted hsource hmax hsamples hnext
  have hafter := fun state final => @TrackQuery.foldlM_others_eq_ok_iff query _
    state final (fun item hitem => h item (.inr (.inr hitem)))
    (fun item hitem => hother item (.inr hitem))
  rw [List.map_append, List.map_cons, List.foldlM_append]
  simp only [List.foldlM_cons, bind_eq_ok_iff]
  constructor
  · rintro ⟨final, ⟨first, hfirst, own, hread, hrest⟩, rfl⟩
    obtain ⟨-, rfl⟩ := (hbefore first).mp hfirst
    obtain ⟨hstop, rfl⟩ := (hown _ _ rfl rfl).mp hread
    obtain ⟨hstops, rfl⟩ := (hafter _ _ hstop).mp hrest
    exact ⟨⟨hstop, hstops⟩, rfl⟩
  · rintro ⟨⟨hstop, hstops⟩, rfl⟩
    exact ⟨_, ⟨_, (hbefore _).mpr ⟨hfits, rfl⟩,
      _, (hown _ _ rfl rfl).mpr ⟨hstop, rfl⟩,
      (hafter _ _ hstop).mpr ⟨hstops, rfl⟩⟩, rfl⟩

end TrackQuery

theorem trackSamples_singleton_eq_ok_iff {query : TrackQuery}
    {fragment : Fragment} {found : List Sample} :
    trackSamples [fragment] query = .ok found ↔
      ∃ final, query.readFragment ⟨[], 0, 0⟩ fragment = .ok final ∧
        final.samples = found := by
  unfold trackSamples
  rw [List.foldlM_cons]
  cases query.readFragment ⟨[], 0, 0⟩ fragment with
  | error e => simp
  | ok final => simp [pure, Except.pure]

/-- The samples of a part are read back exactly where it stops decoding
inside a word, also when the durations of any later part are added. -/
theorem trackSamples_written_eq_ok_iff {query : TrackQuery}
    {prepared : PreparedSegment} {before after : List ExpandedPart}
    {part : ExpandedPart} {found : List Sample}
    (h : prepared.Written (before ++ part :: after))
    (hids : ((before ++ part :: after).map fun part => part.track.id).Nodup)
    (hwanted : part.track.id = query.trackId)
    (hsource : prepared.contentLength ≤ query.sourceLen)
    (hmax : part.samples.length ≤ query.limits.maxSamplesPerTrack) :
    trackSamples [⟨0, prepared.header⟩] query = .ok found ↔
      (part.stopTime < 2 ^ 64 ∧
        ∀ other ∈ after,
          part.stopTime + totalDuration other.samples < 2 ^ 64) ∧
      found = readBack part.track.kind
        (prepared.header.length + (before.map ExpandedPart.payload).sum)
        (part.segment.decodeTime % 2 ^ 64) part.samples := by
  have hplaced := h.placed
  have hread := query.readFragment_written h
  have hlength := h.length_eq
  simp only [placedParts_append, placedParts] at hplaced hread
  rw [List.map_append, List.map_cons, List.sum_append, List.sum_cons] at hlength
  have hother : ∀ other ∈ before ++ after, other.track.id ≠ query.trackId := by
    rw [List.map_append, List.map_cons, List.nodup_append,
      List.nodup_cons] at hids
    obtain ⟨-, ⟨hafter, -⟩, hbefore⟩ := hids
    intro other hmem heq
    rw [← hwanted] at heq
    rcases List.mem_append.mp hmem with hmem | hmem
    · exact hbefore _ (List.mem_map_of_mem hmem) _ (by simp) heq
    · exact hafter (heq ▸ List.mem_map_of_mem hmem)
  have hpayload := (hplaced _ (List.mem_append_right _
    (List.mem_cons_self ..))).valid.payload_eq
  dsimp only at hpayload
  rw [trackSamples_singleton_eq_ok_iff, hread,
    TrackQuery.foldlM_around_eq_ok_iff hplaced ?_ hwanted (by omega) hmax,
    forall_mem_placedParts
      (P := fun other => part.stopTime + totalDuration other.samples < 2 ^ 64)]
  intro item hitem
  rcases List.mem_append.mp hitem with hitem | hitem
  · exact forall_mem_placedParts.mpr
      (fun other hmem => hother other (List.mem_append_left _ hmem)) item hitem
  · exact forall_mem_placedParts.mpr
      (fun other hmem => hother other (List.mem_append_right _ hmem)) item hitem

end Segmentor
