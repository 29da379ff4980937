import Segmentor.FragmentOffsets

/-!
# What the runs of a track add up to

The samples a fragmented track is given are in decode order, inside the file
and no more than the limit allows.  However many samples a run claims to have,
the entries looked at are bounded by the bytes of its box, or by the limit.
-/

namespace Segmentor

open General

/-- Samples in decode order that end by `time`, whose bytes are inside the
source. -/
structure InOrder (sourceLen maxSamples time : ℕ) (samples : List Sample) :
    Prop where
  sorted : samples.Pairwise fun a b => a.decodeTime + a.duration ≤ b.decodeTime
  ended : ∀ sample ∈ samples, sample.decodeTime + sample.duration ≤ time
  inside : ∀ sample ∈ samples, sample.offset + sample.size ≤ sourceLen
  count : samples.length ≤ maxSamples
  time_lt : time < 2 ^ 64

theorem InOrder.later {sourceLen maxSamples time later : ℕ}
    {samples : List Sample} (h : InOrder sourceLen maxSamples time samples)
    (hle : time ≤ later) (hlt : later < 2 ^ 64) :
    InOrder sourceLen maxSamples later samples :=
  { h with
    ended := fun sample hmem => (h.ended sample hmem).trans hle
    time_lt := hlt }

theorem InOrder.push {sourceLen maxSamples time later : ℕ}
    {samples : List Sample} {sample : Sample}
    (h : InOrder sourceLen maxSamples time samples)
    (hdecode : sample.decodeTime = time)
    (hinside : sample.offset + sample.size ≤ sourceLen)
    (hcount : samples.length < maxSamples)
    (hlater : time + sample.duration = later) (hlt : later < 2 ^ 64) :
    InOrder sourceLen maxSamples later (samples ++ [sample]) where
  sorted := by
    refine List.pairwise_append.mpr ⟨h.sorted, List.pairwise_singleton _ _, ?_⟩
    intro a ha b hb
    obtain rfl := List.mem_singleton.mp hb
    rw [hdecode]
    exact h.ended a ha
  ended := by
    intro a ha
    rcases List.mem_append.mp ha with hmem | hmem
    · exact (h.ended a hmem).trans (hlater ▸ Nat.le_add_right _ _)
    · obtain rfl := List.mem_singleton.mp hmem
      rw [hdecode, hlater]
  inside := by
    intro a ha
    rcases List.mem_append.mp ha with hmem | hmem
    · exact h.inside a hmem
    · obtain rfl := List.mem_singleton.mp hmem
      exact hinside
  count := by
    rw [List.length_append, List.length_singleton]
    exact hcount
  time_lt := hlt

/-! ## Readers only move on -/

namespace Reader

/-- What is left unread is never more than there was. -/
def Shrinks {α : Type} (reader : Reader α) : Prop :=
  ∀ unread a rest, reader.run unread = .ok (a, rest) →
    rest.length ≤ unread.length

theorem Shrinks.bind {α β : Type} {first : Reader α} {next : α → Reader β}
    (hfirst : first.Shrinks) (hnext : ∀ a, (next a).Shrinks) :
    (first >>= next).Shrinks := by
  intro unread b rest h
  obtain ⟨a, middle, hread, hrest⟩ := run_bind_eq_ok h
  exact (hnext a _ _ _ hrest).trans (hfirst _ _ _ hread)

theorem pure_shrinks {α : Type} (a : α) : (pure a : Reader α).Shrinks := by
  intro unread b rest h
  obtain ⟨-, rfl⟩ := Prod.mk.inj (Except.ok.inj h)
  exact Nat.le_refl _

theorem lift_shrinks {α : Type} (x : Except Error α) :
    Shrinks (StateT.lift x : Reader α) := by
  intro unread a rest h
  exact (run_lift_eq_ok h).2 ▸ Nat.le_refl _

theorem take_shrinks (count : ℕ) : (take count).Shrinks := by
  intro unread bytes rest h
  rw [(take_eq_ok h).2, List.length_append]
  exact Nat.le_add_left _ _

theorem u32_shrinks : u32.Shrinks :=
  (take_shrinks 4).bind fun _ => pure_shrinks _

theorem i32_shrinks : i32.Shrinks :=
  (take_shrinks 4).bind fun _ => pure_shrinks _

theorem fullBoxFlags_shrinks : fullBoxFlags.Shrinks :=
  ((take_shrinks 1).bind fun _ => pure_shrinks _).bind fun _ =>
    (take_shrinks 3).bind fun _ => pure_shrinks _

theorem Shrinks.optional {α : Type} {field : Reader α} (h : field.Shrinks)
    (present : Bool) : (Reader.optional present field).Shrinks := by
  unfold Reader.optional
  split
  · rw [map_eq_pure_bind]
    exact h.bind fun a => pure_shrinks _
  · exact pure_shrinks _

end Reader

namespace Run

variable {run : Run} {version flags : ℕ} {firstFlags : Option ℕ}
  {unread rest : List UInt8} {state next : RunState} {maxSamples : ℕ}

/-! ## What a run does to the samples -/

/-- A run that is not kept leaves the samples as they are, and one that is
leaves them in order. -/
structure Advances (run : Run) (maxSamples : ℕ) (state next : RunState) :
    Prop where
  unkept : ¬run.keep → next.samples = state.samples
  kept : run.keep →
    InOrder run.sourceLen maxSamples state.decodeTime state.samples →
    InOrder run.sourceLen maxSamples next.decodeTime next.samples

theorem Advances.refl (run : Run) (maxSamples : ℕ) (state : RunState) :
    run.Advances maxSamples state state where
  unkept _ := rfl
  kept _ h := h

theorem Advances.trans {middle : RunState}
    (h : run.Advances maxSamples state middle)
    (hnext : run.Advances maxSamples middle next) :
    run.Advances maxSamples state next where
  unkept hkeep := (hnext.unkept hkeep).trans (h.unkept hkeep)
  kept hkeep horder := hnext.kept hkeep (h.kept hkeep horder)

theorem place_advances {duration size sampleFlags : ℕ}
    {compositionOffset : ℤ}
    (h : run.place state duration size sampleFlags compositionOffset =
      .ok next) :
    ((run.keep → state.samples.length < maxSamples) →
        run.Advances maxSamples state next) ∧
      next.samples.length =
        state.samples.length + if run.keep then 1 else 0 := by
  unfold place at h
  obtain ⟨stop, hstop, h⟩ := bind_eq_ok_iff.mp h
  obtain ⟨samples, hsamples, h⟩ := bind_eq_ok_iff.mp h
  obtain ⟨decodeTime, hdecode, h⟩ := bind_eq_ok_iff.mp h
  obtain rfl := Except.ok.inj h
  obtain ⟨-, hend⟩ := checkedAdd_eq_some_iff.mp (okOr_eq_ok_iff.mp hstop)
  obtain ⟨hlt, rfl⟩ := checkedAdd_eq_some_iff.mp (okOr_eq_ok_iff.mp hdecode)
  by_cases hkeep : run.keep = true
  · rw [if_pos hkeep] at hsamples
    split_ifs at hsamples with hinside
    obtain rfl := Except.ok.inj hsamples
    refine ⟨fun hcount => ⟨fun hunkept => absurd hkeep hunkept, ?_⟩, ?_⟩
    · intro _ horder
      dsimp only
      refine horder.push rfl ?_ (hcount hkeep) rfl hlt
      change state.offset + size ≤ run.sourceLen
      omega
    · rw [if_pos hkeep, List.length_append, List.length_singleton]
  · rw [if_neg hkeep] at hsamples
    obtain rfl := Except.ok.inj hsamples
    rw [if_neg hkeep]
    exact ⟨fun _ => ⟨fun _ => rfl, fun hkept => absurd hkept hkeep⟩, rfl⟩

theorem readEntry_advances {index : ℕ}
    (h : (run.readEntry version flags firstFlags index state).run unread =
      .ok (next, rest)) :
    ((run.keep → state.samples.length < maxSamples) →
        run.Advances maxSamples state next) ∧
      next.samples.length =
        state.samples.length + if run.keep then 1 else 0 := by
  unfold readEntry at h
  obtain ⟨duration, afterDuration, -, h⟩ := Reader.run_bind_eq_ok h
  obtain ⟨size, afterSize, -, h⟩ := Reader.run_bind_eq_ok h
  obtain ⟨sampleFlags, afterFlags, -, h⟩ := Reader.run_bind_eq_ok h
  obtain ⟨composition, after, -, h⟩ := Reader.run_bind_eq_ok h
  exact place_advances (Reader.run_lift_eq_ok h).1

theorem readEntries_advances {count index : ℕ}
    (h : (run.readEntries version flags firstFlags count index state).run
      unread = .ok (next, rest))
    (hcount : run.keep → state.samples.length + count ≤ maxSamples) :
    run.Advances maxSamples state next := by
  induction count generalizing index state unread with
  | zero =>
      obtain ⟨rfl, -⟩ := Prod.mk.inj (Except.ok.inj h)
      exact .refl run maxSamples state
  | succ count ih =>
      unfold readEntries at h
      obtain ⟨middle, afterFirst, hfirst, h⟩ := Reader.run_bind_eq_ok h
      obtain ⟨hadvances, hlength⟩ := readEntry_advances hfirst
      refine (hadvances fun hkeep => ?_).trans (ih h fun hkeep => ?_)
      · have := hcount hkeep
        omega
      · have := hcount hkeep
        rw [if_pos hkeep] at hlength
        omega

theorem readBody_advances {count : ℕ}
    (h : (run.readBody version flags count firstFlags state maxSamples).run
      unread = .ok (next, rest)) :
    run.Advances maxSamples state next := by
  unfold readBody at h
  obtain ⟨remaining, unread, hremaining, hbody⟩ := Reader.run_bind_eq_ok h
  split at hbody
  · cases hbody
  split at hbody
  · cases hbody
  next hlimit =>
    split at hbody
    · next hskipped =>
        obtain ⟨hmeasured, -⟩ := Reader.run_lift_eq_ok hbody
        obtain ⟨total, -, hstate⟩ := bind_eq_ok_iff.mp hmeasured
        obtain rfl := Except.ok.inj hstate
        exact ⟨fun _ => rfl, fun hkeep => absurd hkeep hskipped.1⟩
    · apply readEntries_advances hbody
      intro hkeep
      by_contra hover
      exact hlimit ⟨hkeep, by omega⟩

theorem read_advances {payload : List UInt8}
    (h : run.read payload state maxSamples = .ok next) :
    run.Advances maxSamples state next := by
  unfold read at h
  obtain ⟨rest, hread⟩ := Reader.run'_eq_ok_iff.mp h
  obtain ⟨⟨version, flags⟩, afterFlags, -, hread⟩ :=
    Reader.run_bind_eq_ok hread
  obtain ⟨count, afterCount, -, hread⟩ := Reader.run_bind_eq_ok hread
  obtain ⟨dataOffset, afterOffset, -, hread⟩ := Reader.run_bind_eq_ok hread
  obtain ⟨offset, afterStart, -, hread⟩ := Reader.run_bind_eq_ok hread
  obtain ⟨firstFlags, afterFirst, -, hbody⟩ := Reader.run_bind_eq_ok hread
  obtain ⟨hunkept, hkept⟩ := readBody_advances hbody
  exact ⟨hunkept, hkept⟩

theorem foldlM_read_advances {truns : List RawBox} {final : RunState}
    (h : truns.foldlM
      (fun state (trun : RawBox) => run.read trun.payload state maxSamples)
      state = .ok final) :
    run.Advances maxSamples state final := by
  induction truns generalizing state with
  | nil =>
      obtain rfl := Except.ok.inj h
      exact .refl run maxSamples state
  | cons trun truns ih =>
      rw [List.foldlM_cons] at h
      obtain ⟨middle, hread, hrest⟩ := bind_eq_ok_iff.mp h
      exact (read_advances hread).trans (ih hrest)

/-! ## The entries a run makes it look at -/

/-- How many of the next `count` entries are looked at: reading stops at the
first that fails. -/
def entriesRead (run : Run) (version flags : ℕ) (firstFlags : Option ℕ) :
    ℕ → ℕ → RunState → List UInt8 → ℕ
  | 0, _, _, _ => 0
  | count + 1, index, state, unread =>
      match (run.readEntry version flags firstFlags index state).run unread with
      | .ok (state, unread) =>
          run.entriesRead version flags firstFlags count (index + 1) state
            unread + 1
      | .error _ => 1

/-- The entries looked at once the header of the run is read. -/
def bodyEntries (run : Run) (version flags count : ℕ)
    (firstFlags : Option ℕ) (state : RunState) (maxSamples : ℕ)
    (unread : List UInt8) : ℕ :=
  if unread.length < count * entrySize flags then 0
  else if run.keep ∧ maxSamples < state.samples.length + count then 0
  else if ¬ run.keep ∧ ¬ hasFlag flags SAMPLE_SIZE then 0
  else run.entriesRead version flags firstFlags count 0 state unread

/-- The version and the flags of the run, its sample count, where its data
starts and the flags of its first sample. -/
def readHeader (run : Run) (cursor : ℕ) :
    Reader ((ℕ × ℕ) × ℕ × ℕ × Option ℕ) := do
  let (version, flags) ← Reader.fullBoxFlags
  let count ← Reader.u32
  let dataOffset ← Reader.optional (hasFlag flags DATA_OFFSET) Reader.i32
  let offset ← StateT.lift (run.start cursor dataOffset)
  let firstFlags ←
    Reader.optional (hasFlag flags FIRST_SAMPLE_FLAGS) Reader.u32
  return ((version, flags), count, offset, firstFlags)

/-- The entries that reading the run looks at. -/
def entries (run : Run) (payload : List UInt8) (state : RunState)
    (maxSamples : ℕ) : ℕ :=
  match (run.readHeader state.offset).run payload with
  | .ok (((version, flags), count, offset, firstFlags), unread) =>
      run.bodyEntries version flags count firstFlags
        { state with offset := offset } maxSamples unread
  | .error _ => 0

theorem entriesRead_le (run : Run) (version flags : ℕ)
    (firstFlags : Option ℕ) (count index : ℕ) (state : RunState)
    (unread : List UInt8) :
    run.entriesRead version flags firstFlags count index state unread ≤
      count := by
  induction count generalizing index state unread with
  | zero => exact Nat.le_refl _
  | succ count ih =>
      unfold entriesRead
      split
      · exact Nat.succ_le_succ (ih _ _ _)
      · exact Nat.succ_le_succ (Nat.zero_le _)

theorem four_le_entrySize (h : hasFlag flags SAMPLE_SIZE) :
    4 ≤ entrySize flags := by
  have hmem : SAMPLE_SIZE ∈ [SAMPLE_DURATION, SAMPLE_SIZE, SAMPLE_FLAGS,
      SAMPLE_COMPOSITION_OFFSET].filter fun field => hasFlag flags field := by
    simp [h]
  have := List.length_pos_of_mem hmem
  unfold entrySize
  omega

theorem bodyEntries_le (run : Run) (version flags count : ℕ)
    (firstFlags : Option ℕ) (state : RunState) (maxSamples : ℕ)
    (unread : List UInt8) :
    (¬run.keep → 4 * run.bodyEntries version flags count firstFlags state
        maxSamples unread ≤ unread.length) ∧
      (run.keep → run.bodyEntries version flags count firstFlags state
        maxSamples unread ≤ maxSamples - state.samples.length) := by
  have hle := run.entriesRead_le version flags firstFlags count 0 state unread
  unfold bodyEntries
  split
  · exact ⟨fun _ => Nat.zero_le _, fun _ => Nat.zero_le _⟩
  next hfits =>
    split
    · exact ⟨fun _ => Nat.zero_le _, fun _ => Nat.zero_le _⟩
    next hlimit =>
      split
      · exact ⟨fun _ => Nat.zero_le _, fun _ => Nat.zero_le _⟩
      next hlisted =>
        refine ⟨fun hunkept => ?_, fun hkeep => ?_⟩
        · have hsize : hasFlag flags SAMPLE_SIZE := by
            by_contra hmissing
            exact hlisted ⟨hunkept, hmissing⟩
          have hentry := Nat.mul_le_mul_left count (four_le_entrySize hsize)
          omega
        · have hroom : ¬maxSamples < state.samples.length + count :=
            fun hover => hlimit ⟨hkeep, hover⟩
          omega

theorem readHeader_length {cursor : ℕ}
    {header : (ℕ × ℕ) × ℕ × ℕ × Option ℕ}
    (h : (run.readHeader cursor).run unread = .ok (header, rest)) :
    rest.length ≤ unread.length := by
  suffices hshrinks : (run.readHeader cursor).Shrinks from hshrinks _ _ _ h
  unfold readHeader
  apply Reader.Shrinks.bind Reader.fullBoxFlags_shrinks
  rintro ⟨version, flags⟩
  apply Reader.Shrinks.bind Reader.u32_shrinks
  intro count
  apply Reader.Shrinks.bind (Reader.i32_shrinks.optional _)
  intro dataOffset
  apply Reader.Shrinks.bind (Reader.lift_shrinks _)
  intro offset
  apply Reader.Shrinks.bind (Reader.u32_shrinks.optional _)
  intro firstFlags
  exact Reader.pure_shrinks _

/-- Another track's run makes it look at no more entries than its box has
room for, and a run that is kept at no more than the limit allows. -/
theorem entries_le (run : Run) (payload : List UInt8) (state : RunState)
    (maxSamples : ℕ) :
    (¬run.keep → 4 * run.entries payload state maxSamples ≤ payload.length) ∧
      (run.keep → run.entries payload state maxSamples ≤
        maxSamples - state.samples.length) := by
  unfold entries
  split
  next version flags count offset firstFlags unread hheader =>
    obtain ⟨hunkept, hkept⟩ := run.bodyEntries_le version flags count
      firstFlags { state with offset := offset } maxSamples unread
    exact ⟨fun h => (hunkept h).trans (readHeader_length hheader), hkept⟩
  · exact ⟨fun _ => Nat.zero_le _, fun _ => Nat.zero_le _⟩

end Run

/-! ## What a track is given -/

namespace TrackQuery

variable {query : TrackQuery} {state next : TrackState}

/-- The samples so far are in order, and all end where the track has got
to. -/
def Ordered (query : TrackQuery) (state : TrackState) : Prop :=
  InOrder query.sourceLen query.limits.maxSamplesPerTrack
    state.nextDecodeTime state.samples

theorem startTime_le {wanted : Bool} {tfdt : Option RawBox}
    {nextDecodeTime start : ℕ}
    (h : query.startTime wanted tfdt nextDecodeTime = .ok start) :
    nextDecodeTime ≤ start := by
  unfold startTime at h
  split at h
  · split at h
    · obtain ⟨time, -, h⟩ := bind_eq_ok_iff.mp h
      split_ifs at h with hearly
      obtain rfl := Except.ok.inj h
      exact Nat.not_lt.mp hearly
    · obtain rfl := Except.ok.inj h
      exact Nat.le_refl _
  · obtain rfl := Except.ok.inj h
    exact Nat.le_refl _

theorem parseDecodeTime_lt {payload : List UInt8} {time : ℕ}
    (h : parseDecodeTime.run' payload = .ok time) : time < 2 ^ 64 := by
  obtain ⟨rest, hread⟩ := Reader.run'_eq_ok_iff.mp h
  unfold parseDecodeTime at hread
  obtain ⟨version, unread, -, hread⟩ := Reader.run_bind_eq_ok hread
  split_ifs at hread
  · exact Reader.u64_lt hread
  · have := (Reader.u32_eq_ok hread).1
    omega

theorem startTime_lt {wanted : Bool} {tfdt : Option RawBox}
    {nextDecodeTime start : ℕ}
    (h : query.startTime wanted tfdt nextDecodeTime = .ok start)
    (hlt : nextDecodeTime < 2 ^ 64) : start < 2 ^ 64 := by
  unfold startTime at h
  split at h
  · split at h
    · obtain ⟨time, htime, h⟩ := bind_eq_ok_iff.mp h
      split_ifs at h
      obtain rfl := Except.ok.inj h
      exact parseDecodeTime_lt htime
    · obtain rfl := Except.ok.inj h
      exact hlt
  · obtain rfl := Except.ok.inj h
    exact hlt

theorem readTraf_ordered {moofOffset : ℕ} {traf : RawBox}
    (h : query.readTraf moofOffset state traf = .ok next)
    (hordered : query.Ordered state) : query.Ordered next := by
  unfold readTraf at h
  obtain ⟨tfhd, -, h⟩ := bind_eq_ok_iff.mp h
  obtain ⟨header, -, h⟩ := bind_eq_ok_iff.mp h
  dsimp only at h
  obtain ⟨tfdt, -, h⟩ := bind_eq_ok_iff.mp h
  obtain ⟨decodeTime, hstart, h⟩ := bind_eq_ok_iff.mp h
  obtain ⟨children, -, h⟩ := bind_eq_ok_iff.mp h
  obtain ⟨final, hfinal, h⟩ := bind_eq_ok_iff.mp h
  obtain rfl := Except.ok.inj h
  have hadvances := Run.foldlM_read_advances hfinal
  unfold Ordered
  dsimp only
  by_cases hwanted : (header.trackId == query.trackId) = true
  · rw [if_pos hwanted]
    apply hadvances.kept hwanted
    exact hordered.later (startTime_le hstart)
      (startTime_lt hstart hordered.time_lt)
  · rw [if_neg hwanted, hadvances.unkept hwanted]
    exact hordered

theorem foldlM_readTraf_ordered {moofOffset : ℕ} {trafs : List RawBox}
    (h : trafs.foldlM (query.readTraf moofOffset) state = .ok next)
    (hordered : query.Ordered state) : query.Ordered next := by
  induction trafs generalizing state with
  | nil =>
      obtain rfl := Except.ok.inj h
      exact hordered
  | cons traf trafs ih =>
      rw [List.foldlM_cons] at h
      obtain ⟨middle, hread, hrest⟩ := bind_eq_ok_iff.mp h
      exact ih hrest (readTraf_ordered hread hordered)

theorem readFragment_ordered {fragment : Fragment}
    (h : query.readFragment state fragment = .ok next)
    (hordered : query.Ordered state) : query.Ordered next := by
  unfold readFragment at h
  obtain ⟨moof, -, h⟩ := bind_eq_ok_iff.mp h
  split_ifs at h
  obtain ⟨children, -, h⟩ := bind_eq_ok_iff.mp h
  apply foldlM_readTraf_ordered h
  exact hordered

theorem foldlM_readFragment_ordered {fragments : List Fragment}
    (h : fragments.foldlM query.readFragment state = .ok next)
    (hordered : query.Ordered state) : query.Ordered next := by
  induction fragments generalizing state with
  | nil =>
      obtain rfl := Except.ok.inj h
      exact hordered
  | cons fragment fragments ih =>
      rw [List.foldlM_cons] at h
      obtain ⟨middle, hread, hrest⟩ := bind_eq_ok_iff.mp h
      exact ih hrest (readFragment_ordered hread hordered)

theorem ordered_start (query : TrackQuery) : query.Ordered ⟨[], 0, 0⟩ where
  sorted := List.Pairwise.nil
  ended := by simp
  inside := by simp
  count := Nat.zero_le _
  time_lt := by norm_num

end TrackQuery

theorem trackSamples_inOrder {fragments : List Fragment} {query : TrackQuery}
    {samples : List Sample} (h : trackSamples fragments query = .ok samples) :
    ∃ time, InOrder query.sourceLen query.limits.maxSamplesPerTrack time
      samples := by
  unfold trackSamples at h
  obtain ⟨final, hfinal, h⟩ := bind_eq_ok_iff.mp h
  obtain rfl := Except.ok.inj h
  exact ⟨final.nextDecodeTime,
    TrackQuery.foldlM_readFragment_ordered hfinal query.ordered_start⟩

/-- The samples are in decode order, inside the source, within the limit and
without overflow.  What a run says it has costs no more entries than the box
has bytes for, or than the limit leaves room for, whether or not it can be
read. -/
theorem track_samples_well_formed (fragments : List Fragment)
    (query : TrackQuery) :
    (∀ samples, trackSamples fragments query = .ok samples →
      (samples.Pairwise fun a b => a.decodeTime ≤ b.decodeTime) ∧
        (∀ sample ∈ samples, sample.offset + sample.size ≤ query.sourceLen ∧
          sample.decodeTime + sample.duration < 2 ^ 64) ∧
        samples.length ≤ query.limits.maxSamplesPerTrack) ∧
      ∀ header base payload state,
        let run := query.run header base
        let entries :=
          run.entries payload state query.limits.maxSamplesPerTrack
        if header.trackId = query.trackId then
          state.samples.length ≤ query.limits.maxSamplesPerTrack →
            state.samples.length + entries ≤ query.limits.maxSamplesPerTrack
        else 4 * entries ≤ payload.length := by
  refine ⟨fun samples hsamples => ?_, ?_⟩
  · obtain ⟨time, horder⟩ := trackSamples_inOrder hsamples
    refine ⟨horder.sorted.imp fun hle => ?_, ?_, horder.count⟩
    · exact (Nat.le_add_right _ _).trans hle
    · intro sample hmem
      exact ⟨horder.inside sample hmem,
        (horder.ended sample hmem).trans_lt horder.time_lt⟩
  · intro header base payload state
    dsimp only
    obtain ⟨hunkept, hkept⟩ := (query.run header base).entries_le payload
      state query.limits.maxSamplesPerTrack
    split
    next hwanted =>
      intro hroom
      have := hkept (beq_iff_eq.mpr hwanted)
      omega
    next hother => exact hunkept fun hkeep => hother (beq_iff_eq.mp hkeep)

/-- Track 2 has two samples in the file, whose sizes only its `trex` gives. -/
theorem legacy_samples_well_formed :
    ∃ samples, trackSamples [legacyFragment]
        (trackQuery legacyDefaults 2 1000 {}) = .ok samples ∧
      (samples.Pairwise fun a b => a.decodeTime ≤ b.decodeTime) ∧
      (∀ sample ∈ samples, sample.offset + sample.size ≤ 1000 ∧
        sample.decodeTime + sample.duration < 2 ^ 64) := by
  obtain ⟨samples, hsamples⟩ :=
    exists_ok_of_isOk (x := trackSamples [legacyFragment]
      (trackQuery legacyDefaults 2 1000 {})) (by decide)
  obtain ⟨hsorted, hinside, -⟩ :=
    (track_samples_well_formed [legacyFragment]
      (trackQuery legacyDefaults 2 1000 {})).1 samples hsamples
  exact ⟨samples, hsamples, hsorted, hinside⟩

end Segmentor
