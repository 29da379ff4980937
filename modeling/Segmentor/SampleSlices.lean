import Segmentor.SampleIndexLookups
import Mathlib.Data.List.Induction

/-!
# A sample index is a slice of its samples

An index built of samples given one by one, cut to windows and moved any
number of times, agrees with the plain list of the samples cut and moved the
same way.
-/

namespace Segmentor

open General

/-! ## Building the tables -/

/-- The tables of the samples so far, and the sample before the next one. -/
structure TableBuilder where
  sizes : List ℕ
  chunks : List ChunkRow
  times : List TimeRow
  composition : List CompositionRow
  sync : List ℕ
  previous : Option Sample

namespace TableBuilder

def new : TableBuilder where
  sizes := []
  chunks := []
  times := []
  composition := []
  sync := []
  previous := none

/-- Adds one sample; its number is how many came before it. -/
def add (builder : TableBuilder) (sample : Sample) : TableBuilder :=
  let number := builder.sizes.length
  let sameChunk := builder.previous.any fun previous =>
    previous.offset + previous.size == sample.offset
  let sameRun := builder.previous.any fun previous =>
    previous.duration == sample.duration &&
      previous.decodeTime + previous.duration == sample.decodeTime
  let sameOffset :=
    builder.composition.getLast?.map CompositionRow.offset ==
      some sample.compositionOffset
  { sizes := builder.sizes ++ [sample.size]
    chunks :=
      if sameChunk then builder.chunks
      else builder.chunks ++ [⟨number, sample.offset⟩]
    times :=
      if sameRun then builder.times
      else builder.times ++ [⟨number, sample.decodeTime, sample.duration⟩]
    composition :=
      if sameOffset then builder.composition
      else builder.composition ++ [⟨number, sample.compositionOffset⟩]
    sync := if sample.isSync then builder.sync ++ [number] else builder.sync
    previous := some sample }

/-- The tables of `count` samples: offsets that are all zero need no table,
and neither do samples that are all sync samples. -/
def finish (builder : TableBuilder) (count : ℕ) : Tables where
  sizes := builder.sizes
  chunks := builder.chunks
  times := builder.times
  composition :=
    if builder.composition.map CompositionRow.offset = [0] then []
    else builder.composition
  sync := if builder.sync.length = count then none else some builder.sync

end TableBuilder

/-- The index of samples given one by one.  There are at most `2 ^ 32`. -/
def SampleIndex.fromSamples (samples : List Sample) : SampleIndex :=
  .new ((samples.foldl TableBuilder.add .new).finish samples.length)

/-! ## Cutting and moving -/

/-- What a consumer does to an index. -/
inductive Move
  | window (first stop : ℕ)
  | shifted (delta : ℤ) (message : String)
  deriving DecidableEq, Repr

/-- The size of sample `index`. -/
def SampleIndex.size (x : SampleIndex) (index : ℕ) : ℕ :=
  x.tables.sizes[x.start + index]?.getD 0

/-- One call; a window outside the track ends the program. -/
def SampleIndex.move (x : SampleIndex) : Move → Result SampleIndex
  | .window first stop =>
      if first ≤ stop ∧ stop ≤ x.len then .ok (x.window first stop)
      else .error (invalidMedia "range outside the track")
  | .shifted delta message => x.shifted delta message

/-- The sample with its decode time moved. -/
def Sample.moved (delta : ℤ) (sample : Sample) : Sample :=
  { sample with decodeTime := ((sample.decodeTime : ℤ) + delta).toNat }

/-- Every decode time and the end of the last sample fit a word once they are
moved. -/
def FitsMoved (delta : ℤ) (samples : List Sample) : Prop :=
  (∀ sample ∈ samples, 0 ≤ (sample.decodeTime : ℤ) + delta ∧
    (sample.decodeTime : ℤ) + delta < 2 ^ 64) ∧
  ∀ last ∈ samples.getLast?,
    (last.decodeTime : ℤ) + last.duration + delta < 2 ^ 64

instance (delta : ℤ) (samples : List Sample) :
    Decidable (FitsMoved delta samples) :=
  inferInstanceAs (Decidable (_ ∧ _))

/-- The same call on a plain list. -/
def moveSamples (samples : List Sample) : Move → Option (List Sample)
  | .window first stop =>
      if first ≤ stop ∧ stop ≤ samples.length then
        some ((samples.take stop).drop first)
      else none
  | .shifted delta _ =>
      if FitsMoved delta samples then some (samples.map (Sample.moved delta))
      else none

/-- The positions of the sync samples. -/
def syncPositions (samples : List Sample) : List ℕ :=
  (List.range samples.length).filter fun i => samples[i]?.any Sample.isSync

/-- The index answers every question as the list does. -/
structure SampleIndex.Agrees (x : SampleIndex) (samples : List Sample) :
    Prop where
  len_eq : x.len = samples.length
  get_eq : ∀ i sample, samples[i]? = some sample → x.get i = sample
  iter_eq : x.iter.collect = samples
  range_eq : ∀ first stop, first ≤ stop → stop ≤ samples.length →
    (x.range first stop).collect = (samples.take stop).drop first
  /-- No moved decode time is below zero. -/
  moved_eq : ∀ i sample, samples[i]? = some sample →
    (x.tables.decodeTime (x.start + i) : ℤ) + x.shift = sample.decodeTime
  decodeTime_eq : ∀ i sample, samples[i]? = some sample →
    x.decodeTime i = sample.decodeTime
  size_eq : ∀ i sample, samples[i]? = some sample → x.size i = sample.size
  payloadBytes_eq : ∀ first stop, first ≤ stop → stop ≤ samples.length →
    x.payloadBytes first stop =
      (((samples.take stop).drop first).map Sample.size).sum
  partition_eq : ∀ time, x.partitionByDecodeTime time =
    partitionPoint (fun sample => decide (sample.decodeTime < time)) samples
  syncIndices_eq : x.syncIndices = syncPositions samples
  nthSync_eq : ∀ nth, x.nthSync nth = (syncPositions samples)[nth]?
  shifted_iff : ∀ delta message,
    (∃ y, x.shifted delta message = .ok y) ↔ FitsMoved delta samples

/-! ## The tables that are built -/

theorem sum_drop_take_succ {sizes : List ℕ} {first i size : ℕ}
    (hfirst : first ≤ i) (hsize : sizes[i]? = some size) :
    ((sizes.take (i + 1)).drop first).sum =
      ((sizes.take i).drop first).sum + size := by
  have hlength : i < sizes.length := (List.getElem?_eq_some_iff.mp hsize).1
  rw [List.take_add_one, hsize,
    List.drop_append_of_le_length (by simp; omega), List.sum_append]
  simp

@[simp] theorem syncPositions_nil : syncPositions [] = [] := rfl

theorem syncPositions_append_singleton (samples : List Sample)
    (sample : Sample) :
    syncPositions (samples ++ [sample]) =
      syncPositions samples ++
        if sample.isSync then [samples.length] else [] := by
  unfold syncPositions
  rw [List.length_append, List.length_singleton, List.range_succ,
    List.filter_append]
  congr 1
  · apply List.filter_congr
    intro i hi
    rw [List.getElem?_append_left (List.mem_range.mp hi)]
  · cases hsync : sample.isSync <;> simp [hsync]

namespace TableBuilder

/-- The chunk row gives the sample's offset, where `sizes` are the sizes of
all samples. -/
def FitsChunk (sizes : List ℕ) (row : ChunkRow) (i : ℕ) (sample : Sample) :
    Prop :=
  row.first ≤ i ∧
    sample.offset = row.offset + ((sizes.take i).drop row.first).sum

/-- The timing row gives the sample's decode time and duration. -/
def FitsTime (row : TimeRow) (i : ℕ) (sample : Sample) : Prop :=
  row.first ≤ i ∧
    sample.decodeTime = row.start + (i - row.first) * row.duration ∧
    sample.duration = row.duration

def FitsComposition (row : CompositionRow) (_ : ℕ) (sample : Sample) : Prop :=
  sample.compositionOffset = row.offset

/-- The builder holds the samples added so far; `sizes` are the sizes of all
samples there are. -/
structure Built (sizes : List ℕ) (builder : TableBuilder)
    (done : List Sample) : Prop where
  sizes_eq : builder.sizes = done.map Sample.size
  chunks : Describes ChunkRow.first (FitsChunk sizes) builder.chunks done
  times : Describes TimeRow.first FitsTime builder.times done
  composition : Describes CompositionRow.first FitsComposition
    builder.composition done
  sync_eq : builder.sync = syncPositions done
  previous_eq : builder.previous = done.getLast?

theorem Built.new (sizes : List ℕ) : Built sizes .new [] where
  sizes_eq := rfl
  chunks := Describes.nil
  times := Describes.nil
  composition := Describes.nil
  sync_eq := rfl
  previous_eq := rfl

variable {sizes : List ℕ} {builder : TableBuilder} {done : List Sample}
  {sample previous : Sample}

theorem exists_last_row {α : Type} {start : α → ℕ}
    {fits : α → ℕ → Sample → Prop} {rows : List α}
    (h : Describes start fits rows done)
    (hprevious : done.getLast? = some previous) :
    ∃ row, rows.getLast? = some row ∧ fits row (done.length - 1) previous := by
  have hlength : 0 < done.length := by
    cases done with
    | nil => cases hprevious
    | cons => simp
  rw [List.getLast?_eq_getElem?] at hprevious
  obtain ⟨row, hrow, hfits⟩ := h.fits_at _ _ hprevious
  refine ⟨row, ?_, hfits⟩
  rw [← h.covers.rowAt_eq_getLast? hlength (Nat.le_refl _)]
  exact hrow

theorem Built.exists_previous (h : Built sizes builder done)
    {p : Sample → Bool} (hp : builder.previous.any p = true) :
    ∃ previous, done.getLast? = some previous ∧ p previous = true := by
  rw [h.previous_eq, Option.any_eq_true] at hp
  exact hp

theorem Built.chunks_add (h : Built sizes builder done) (sample : Sample)
    (hsizes : ∃ rest, sizes = done.map Sample.size ++ rest) :
    Describes ChunkRow.first (FitsChunk sizes) (builder.add sample).chunks
      (done ++ [sample]) := by
  have hnumber : builder.sizes.length = done.length := by
    rw [h.sizes_eq, List.length_map]
  unfold add
  dsimp only
  split
  · next hsame =>
      obtain ⟨previous, hprevious, hoffset⟩ := h.exists_previous hsame
      obtain ⟨row, hrow, hfirst, hstart⟩ :=
        exists_last_row h.chunks hprevious
      apply h.chunks.keep hrow
      have hlength : 0 < done.length := by
        have := h.chunks.covers.inside row (List.mem_of_getLast? hrow)
        omega
      rw [List.getLast?_eq_getElem?] at hprevious
      have hsize : sizes[done.length - 1]? = some previous.size := by
        obtain ⟨rest, rfl⟩ := hsizes
        rw [List.getElem?_append_left (by simp; omega), List.getElem?_map,
          hprevious]
        rfl
      have hsum := sum_drop_take_succ hfirst hsize
      rw [Nat.sub_add_cancel hlength] at hsum
      rw [beq_iff_eq] at hoffset
      constructor
      · omega
      · omega
  · apply h.chunks.push hnumber
    constructor
    · exact hnumber.le
    · dsimp only
      rw [hnumber, List.drop_eq_nil_of_le (by simp)]
      rfl

theorem Built.times_add (h : Built sizes builder done) (sample : Sample) :
    Describes TimeRow.first FitsTime (builder.add sample).times
      (done ++ [sample]) := by
  have hnumber : builder.sizes.length = done.length := by
    rw [h.sizes_eq, List.length_map]
  unfold add
  dsimp only
  split
  · next hsame =>
      obtain ⟨previous, hprevious, hfollows⟩ := h.exists_previous hsame
      obtain ⟨row, hrow, hfirst, htime, hduration⟩ :=
        exists_last_row h.times hprevious
      have hinside := h.times.covers.inside row (List.mem_of_getLast? hrow)
      rw [Bool.and_eq_true, beq_iff_eq, beq_iff_eq] at hfollows
      obtain ⟨hsame, hnext⟩ := hfollows
      apply h.times.keep hrow
      refine ⟨by omega, ?_, by omega⟩
      have hspan : done.length - row.first =
          done.length - 1 - row.first + 1 := by omega
      rw [hspan, Nat.succ_mul]
      omega
  · apply h.times.push hnumber
    refine ⟨hnumber.le, ?_, rfl⟩
    rw [hnumber]
    simp

theorem Built.composition_add (h : Built sizes builder done)
    (sample : Sample) :
    Describes CompositionRow.first FitsComposition
      (builder.add sample).composition (done ++ [sample]) := by
  have hnumber : builder.sizes.length = done.length := by
    rw [h.sizes_eq, List.length_map]
  unfold add
  dsimp only
  split
  · next hsame =>
      rw [beq_iff_eq] at hsame
      obtain ⟨row, hrow, hoffset⟩ := Option.map_eq_some_iff.mp hsame
      exact h.composition.keep hrow hoffset.symm
  · exact h.composition.push hnumber rfl

theorem Built.add (h : Built sizes builder done) (sample : Sample)
    (hsizes : ∃ rest, sizes = done.map Sample.size ++ rest) :
    Built sizes (builder.add sample) (done ++ [sample]) where
  sizes_eq := by
    simp [TableBuilder.add, h.sizes_eq]
  chunks := h.chunks_add sample hsizes
  times := h.times_add sample
  composition := h.composition_add sample
  sync_eq := by
    rw [syncPositions_append_singleton, ← h.sync_eq]
    have hnumber : builder.sizes.length = done.length := by
      rw [h.sizes_eq, List.length_map]
    unfold TableBuilder.add
    dsimp only
    rw [hnumber]
    split <;> simp
  previous_eq := by
    simp [TableBuilder.add]

/-- Adding every sample of a list builds its tables. -/
theorem built_foldl (samples : List Sample) :
    Built (samples.map Sample.size) (samples.foldl TableBuilder.add .new)
      samples := by
  suffices hprefix : ∀ (before after : List Sample) (builder : TableBuilder),
      Built ((before ++ after).map Sample.size) builder before →
      Built ((before ++ after).map Sample.size)
        (after.foldl TableBuilder.add builder) (before ++ after) by
    exact hprefix [] samples .new (Built.new _)
  intro before after
  induction after generalizing before with
  | nil =>
      intro builder h
      simpa using h
  | cons sample after ih =>
      intro builder h
      have hnext := h.add sample
        ⟨(sample :: after).map Sample.size, List.map_append⟩
      rw [List.append_cons] at hnext ⊢
      exact ih (before ++ [sample]) (builder.add sample) hnext

theorem syncPositions_pairwise (samples : List Sample) :
    (syncPositions samples).Pairwise (· < ·) :=
  List.pairwise_lt_range.sublist List.filter_sublist

theorem mem_syncPositions {samples : List Sample} {i : ℕ} {sample : Sample}
    (hsample : samples[i]? = some sample) :
    i ∈ syncPositions samples ↔ sample.isSync = true := by
  have hlength := (List.getElem?_eq_some_iff.mp hsample).1
  unfold syncPositions
  rw [List.mem_filter, List.mem_range, hsample]
  simp [hlength]

theorem isSync_of_length_eq {samples : List Sample} {sample : Sample}
    (hlength : (syncPositions samples).length = samples.length)
    (hmem : sample ∈ samples) : sample.isSync = true := by
  have hall : syncPositions samples = List.range samples.length :=
    List.filter_sublist.eq_of_length (by rw [List.length_range]; exact hlength)
  obtain ⟨i, hi⟩ := List.mem_iff_getElem?.mp hmem
  rw [← mem_syncPositions hi, hall, List.mem_range]
  exact (List.getElem?_eq_some_iff.mp hi).1

variable {samples : List Sample}

/-- Decode times that never go backwards give timing runs in order. -/
theorem Built.times_ordered (h : Built sizes builder samples)
    (hsorted : samples.Pairwise fun a b => a.decodeTime ≤ b.decodeTime)
    {i : ℕ} {a b : TimeRow} (ha : builder.times[i]? = some a)
    (hb : builder.times[i + 1]? = some b) :
    a.start + (b.first - 1 - a.first) * a.duration ≤ b.start := by
  have hfirst := h.times.covers.ascending.start_lt (Nat.lt_succ_self i) ha hb
  have hinside := h.times.covers.inside b (List.mem_of_getElem? hb)
  obtain ⟨before, hbefore⟩ : ∃ sample, samples[b.first - 1]? = some sample :=
    ⟨_, List.getElem?_eq_getElem (by omega)⟩
  obtain ⟨opening, hopening⟩ : ∃ sample, samples[b.first]? = some sample :=
    ⟨_, List.getElem?_eq_getElem hinside⟩
  have hend : before.decodeTime =
      a.start + (b.first - 1 - a.first) * a.duration := by
    apply (h.times.fits_of_row ha (by omega) _ hbefore).2.1
    intro next hnext
    obtain rfl : b = next := by rw [hb] at hnext; exact Option.some.inj hnext
    omega
  have hstart : opening.decodeTime = b.start := by
    have hfits := h.times.fits_of_row hb (Nat.le_refl _) (by
      intro next hnext
      exact h.times.covers.ascending.start_lt (by omega) hb hnext) hopening
    rw [hfits.2.1, Nat.sub_self, Nat.zero_mul, Nat.add_zero]
  have hmono : before.decodeTime ≤ opening.decodeTime := by
    obtain ⟨hi, rfl⟩ := List.getElem?_eq_some_iff.mp hbefore
    obtain ⟨hj, rfl⟩ := List.getElem?_eq_some_iff.mp hopening
    exact List.pairwise_iff_getElem.mp hsorted _ _ hi hj (by omega)
  omega

theorem Built.ordered (h : Built sizes builder samples)
    (hcount : samples.length ≤ 2 ^ 32)
    (hsorted : samples.Pairwise fun a b => a.decodeTime ≤ b.decodeTime) :
    (builder.finish samples.length).Ordered := by
  have hlen : (builder.finish samples.length).len = samples.length := by
    simp [Tables.len, finish, h.sizes_eq]
  refine ⟨?_, ?_, ?_, ?_, ?_, ?_⟩
  · rwa [hlen]
  · rw [hlen]
    exact h.chunks.covers
  · rw [hlen]
    exact h.times.covers
  · intro i a b ha hb
    exact h.times_ordered hsorted ha hb
  · rw [hlen]
    unfold finish
    dsimp only
    split
    · exact .inl rfl
    · exact .inr h.composition.covers
  · intro sync hsync
    simp only [finish] at hsync
    split at hsync
    · cases hsync
    · obtain rfl := Option.some.inj hsync
      rw [h.sync_eq]
      exact syncPositions_pairwise samples

variable {i : ℕ}

theorem Built.offset_eq (h : Built (samples.map Sample.size) builder samples)
    (hsample : samples[i]? = some sample) :
    (builder.finish samples.length).offset i = sample.offset := by
  obtain ⟨row, hrow, -, hoffset⟩ := h.chunks.fits_at i sample hsample
  have hfound : (builder.finish samples.length).chunkRow i = row := by
    unfold rowAt at hrow
    simp [Tables.chunkRow, finish, runOf, hrow]
  rw [Tables.offset, hfound, hoffset, Tables.sizesBetween]
  simp only [finish, h.sizes_eq]

theorem Built.timeRow_fits (h : Built sizes builder samples)
    (hsample : samples[i]? = some sample) :
    FitsTime ((builder.finish samples.length).timeRow i) i sample := by
  obtain ⟨row, hrow, hfits⟩ := h.times.fits_at i sample hsample
  have hfound : (builder.finish samples.length).timeRow i = row := by
    unfold rowAt at hrow
    simp [Tables.timeRow, finish, runOf, hrow]
  rwa [hfound]

theorem Built.compositionOffset_eq (h : Built sizes builder samples)
    (hsample : samples[i]? = some sample) :
    (builder.finish samples.length).compositionOffset i =
      sample.compositionOffset := by
  obtain ⟨row, hrow, hoffset⟩ := h.composition.fits_at i sample hsample
  unfold rowAt at hrow
  have hmem := List.mem_of_getElem? hrow
  unfold Tables.compositionOffset finish compositionAt
  dsimp only
  rw [hoffset]
  split
  · next hcleared =>
      -- a table that only says zero was left out
      have hzero : row.offset ∈ builder.composition.map
          CompositionRow.offset := List.mem_map_of_mem hmem
      rw [hcleared, List.mem_singleton] at hzero
      simp [hzero]
  · rw [if_neg (by simpa using List.ne_nil_of_mem hmem), runOf, hrow]
    rfl

theorem Built.isSync_eq (h : Built sizes builder samples)
    (hsample : samples[i]? = some sample) :
    (builder.finish samples.length).isSync i = sample.isSync := by
  unfold Tables.isSync finish
  dsimp only
  rw [h.sync_eq]
  split
  · next hall =>
      rw [isSync_of_length_eq hall (List.mem_of_getElem? hsample)]
      rfl
  · rw [Bool.eq_iff_iff, ← mem_syncPositions hsample]
    simp

end TableBuilder

/-! ## Indexes that hold a list -/

namespace SampleIndex

variable {x y : SampleIndex} {samples : List Sample} {sample : Sample}

/-- The index is in order and its samples are those of the list. -/
structure Holds (x : SampleIndex) (samples : List Sample) : Prop where
  readable : x.Readable
  all_eq : x.all = samples

theorem fromSamples_readable (hcount : samples.length ≤ 2 ^ 32)
    (hsorted : samples.Pairwise fun a b => a.decodeTime ≤ b.decodeTime) :
    (fromSamples samples).Readable where
  tables := (TableBuilder.built_foldl samples).ordered hcount hsorted
  start_le := Nat.zero_le _
  stop_le := Nat.le_refl _
  first_nonneg _ := by
    simp only [fromSamples, new, add_zero]
    exact Int.natCast_nonneg _

theorem fromSamples_get {i : ℕ} (hsample : samples[i]? = some sample) :
    (fromSamples samples).get i = sample := by
  have hbuilt := TableBuilder.built_foldl samples
  obtain ⟨-, htime, hduration⟩ := hbuilt.timeRow_fits hsample
  have hsize : ((samples.foldl TableBuilder.add .new).finish
      samples.length).sizes[i]? = some sample.size := by
    simp only [TableBuilder.finish, hbuilt.sizes_eq]
    rw [List.getElem?_map, hsample]
    rfl
  have hmoved : ∀ time, (fromSamples samples).moved time = time := by
    simp [moved, fromSamples, new]
  cases sample
  simp only [get, Sample.mk.injEq]
  have hstart : (fromSamples samples).start + i = i := Nat.zero_add i
  rw [hstart]
  refine ⟨hbuilt.offset_eq hsample, ?_, ?_, hduration.symm,
    hbuilt.compositionOffset_eq hsample, hbuilt.isSync_eq hsample⟩
  · simp only [fromSamples, new, hsize, Option.getD_some]
  · rw [hmoved]
    exact htime.symm

theorem fromSamples_holds (hcount : samples.length ≤ 2 ^ 32)
    (hsorted : samples.Pairwise fun a b => a.decodeTime ≤ b.decodeTime) :
    (fromSamples samples).Holds samples where
  readable := fromSamples_readable hcount hsorted
  all_eq := by
    have hlen : (fromSamples samples).len = samples.length := by
      simp [fromSamples, new, len, Tables.len, TableBuilder.finish,
        (TableBuilder.built_foldl samples).sizes_eq]
    apply List.ext_getElem?
    intro i
    rcases Nat.lt_or_ge i samples.length with hlt | hge
    · rw [getElem?_all (by omega), List.getElem?_eq_getElem hlt]
      rw [fromSamples_get (List.getElem?_eq_getElem hlt)]
    · rw [List.getElem?_eq_none hge,
        List.getElem?_eq_none (by rw [length_all]; omega)]

theorem Holds.len_eq (h : x.Holds samples) : x.len = samples.length := by
  rw [← h.all_eq, length_all]

theorem Holds.lt_len (h : x.Holds samples) {i : ℕ}
    (hsample : samples[i]? = some sample) : i < x.len := by
  rw [h.len_eq]
  exact (List.getElem?_eq_some_iff.mp hsample).1

theorem Holds.get_eq (h : x.Holds samples) {i : ℕ}
    (hsample : samples[i]? = some sample) : x.get i = sample := by
  have hget := getElem?_all (h.lt_len hsample)
  rw [h.all_eq, hsample] at hget
  exact (Option.some.inj hget).symm

theorem Holds.decodeTime_eq (h : x.Holds samples) {i : ℕ}
    (hsample : samples[i]? = some sample) :
    x.decodeTime i = sample.decodeTime := by
  rw [← get_decodeTime, h.get_eq hsample]

theorem Holds.size_eq (h : x.Holds samples) {i : ℕ}
    (hsample : samples[i]? = some sample) : x.size i = sample.size := by
  rw [← h.get_eq hsample]
  rfl

theorem map_size_all (h : x.Readable) :
    x.all.map Sample.size = (x.tables.sizes.take x.stop).drop x.start := by
  have hstop := h.stop_le
  unfold Tables.len at hstop
  apply List.ext_getElem?
  intro i
  rw [List.getElem?_map, List.getElem?_drop, List.getElem?_take]
  rcases Nat.lt_or_ge i x.len with hlt | hge
  · have hlt' := hlt
    unfold len at hlt
    rw [getElem?_all hlt', if_pos (by omega), Option.map_some,
      List.getElem?_eq_getElem (by omega)]
    simp [get, List.getElem?_eq_getElem
      (show x.start + i < x.tables.sizes.length by omega)]
  · have hge' := hge
    unfold len at hge
    rw [List.getElem?_eq_none (by rw [length_all]; exact hge'),
      if_neg (by omega)]
    rfl

theorem Holds.payloadBytes_eq (h : x.Holds samples) {first stop : ℕ}
    (hstop : stop ≤ samples.length) :
    x.payloadBytes first stop =
      (((samples.take stop).drop first).map Sample.size).sum := by
  have hle := h.readable.start_le
  have hlen := h.len_eq
  unfold len at hlen
  rw [List.map_drop, List.map_take, ← h.all_eq, map_size_all h.readable,
    List.take_drop, List.drop_drop, List.take_take,
    Nat.min_eq_left (by omega)]
  rfl

theorem Holds.partition_eq (h : x.Holds samples) (time : ℕ) :
    x.partitionByDecodeTime time =
      partitionPoint (fun sample => decide (sample.decodeTime < time))
        samples := by
  have hlen := h.len_eq
  symm
  apply partitionPoint_eq_of
  · rw [← hlen]
    exact partitionByDecodeTime_le h.readable time
  · intro k sample hk hsample
    rw [decide_eq_true_eq, ← h.decodeTime_eq hsample,
      ← h.readable.lt_partitionByDecodeTime_iff (h.lt_len hsample)]
    exact hk
  · intro sample hsample
    rw [decide_eq_false_iff_not, ← h.decodeTime_eq hsample,
      ← h.readable.lt_partitionByDecodeTime_iff (h.lt_len hsample)]
    exact Nat.lt_irrefl _

theorem Holds.syncIndices_eq (h : x.Holds samples) :
    x.syncIndices = syncPositions samples := by
  apply List.Pairwise.eq_of_mem_iff (syncIndices_pairwise h.readable)
    (TableBuilder.syncPositions_pairwise samples)
  intro i
  rw [mem_syncIndices h.readable, h.len_eq]
  rcases Nat.lt_or_ge i samples.length with hlt | hge
  · have hsample := List.getElem?_eq_getElem hlt
    rw [TableBuilder.mem_syncPositions hsample, ← h.get_eq hsample]
    simp [hlt, get]
  · constructor
    · rintro ⟨hlt, -⟩
      omega
    · intro hmem
      have := List.mem_range.mp (List.mem_of_mem_filter hmem)
      omega

theorem nthSync_eq_getElem? (nth : ℕ) :
    x.nthSync nth = x.syncIndices[nth]? := by
  unfold nthSync syncIndices
  cases x.tables.sync with
  | none =>
      dsimp only
      split
      · next hlt => rw [List.getElem?_range hlt]
      · next hge => rw [List.getElem?_eq_none (by simpa using hge)]
  | some sync =>
      dsimp only
      rw [List.getElem?_map, List.getElem?_drop, List.getElem?_take]
      split <;> rfl

/-! ## Cutting and moving what an index holds -/

theorem Readable.window (h : x.Readable) {first stop : ℕ}
    (hfirst : first ≤ stop) (hstop : stop ≤ x.len) :
    (x.window first stop).Readable := by
  have hle := h.start_le
  have hlen := h.stop_le
  have hxlen : x.len = x.stop - x.start := rfl
  refine ⟨h.tables, ?_, ?_, ?_⟩
  · simp only [SampleIndex.window]
    omega
  · simp only [SampleIndex.window]
    omega
  · intro hlt
    simp only [SampleIndex.window] at hlt ⊢
    have hmono := h.tables.decodeTime_mono
      (Nat.le_add_right x.start first) (by omega)
    have := h.first_nonneg (by omega)
    omega

theorem all_window {first stop : ℕ} (hstop : stop ≤ x.len) :
    (x.window first stop).all = (x.all.take stop).drop first := by
  have hlen : (x.window first stop).len = stop - first := by
    unfold len window
    dsimp only
    omega
  have hget : (x.window first stop).get = fun i => x.get (first + i) := by
    funext i
    simp [get, window, moved, Nat.add_assoc]
  have hrange : List.range' first (stop - first) =
      (List.range (stop - first)).map (first + ·) := by
    rw [List.range_eq_range', List.map_add_range', Nat.add_zero]
  have hdrop : (List.range stop).drop first =
      List.range' first (stop - first) := by
    rw [List.range_eq_range', List.drop_range', Nat.zero_add, Nat.mul_one]
  unfold all
  rw [hlen, hget, ← List.map_take, ← List.map_drop, List.take_range,
    Nat.min_eq_left hstop, hdrop, hrange, List.map_map]
  rfl

theorem Holds.window (h : x.Holds samples) {first stop : ℕ}
    (hfirst : first ≤ stop) (hstop : stop ≤ samples.length) :
    (x.window first stop).Holds ((samples.take stop).drop first) where
  readable := h.readable.window hfirst (by rwa [h.len_eq])
  all_eq := by
    rw [all_window (by rwa [h.len_eq]), h.all_eq]

/-- Only the first decode time and the end of the last sample have to be
looked at. -/
theorem Holds.fitsMoved_iff (h : x.Holds samples) (hpos : 0 < x.len)
    (delta : ℤ) :
    FitsMoved delta samples ↔
      0 ≤ (x.decodeTime 0 : ℤ) + delta ∧
        (x.decodeTime (x.len - 1) : ℤ) + (x.get (x.len - 1)).duration +
          delta < 2 ^ 64 := by
  have hfirst := @getElem?_all x 0 hpos
  have hlast := @getElem?_all x (x.len - 1) (by omega)
  have hgetLast : samples.getLast? = some (x.get (x.len - 1)) := by
    rw [List.getLast?_eq_getElem?, ← h.len_eq, ← h.all_eq, hlast]
  rw [h.all_eq] at hfirst
  unfold FitsMoved
  rw [hgetLast]
  constructor
  · rintro ⟨hall, hend⟩
    exact ⟨(hall _ (List.mem_of_getElem? hfirst)).1, hend _ rfl⟩
  · rintro ⟨hlow, hhigh⟩
    constructor
    · intro sample hmem
      obtain ⟨i, hi⟩ := List.mem_iff_getElem?.mp hmem
      have hlt := h.lt_len hi
      have hafter := h.readable.decodeTime_mono (Nat.zero_le i) hlt
      have hbefore := h.readable.decodeTime_mono
        (show i ≤ x.len - 1 by omega) (by omega)
      rw [h.decodeTime_eq hi] at hafter hbefore
      omega
    · intro last hmem
      obtain rfl : x.get (x.len - 1) = last := Option.some.inj hmem
      exact hhigh

theorem Holds.shifted_eq (h : x.Holds samples) (delta : ℤ)
    (message : String) :
    x.shifted delta message =
      if FitsMoved delta samples then
        .ok { x with shift := x.shift + delta }
      else .error (invalidMedia message) := by
  unfold shifted
  rcases Nat.eq_zero_or_pos x.len with hzero | hpos
  · have hnil : samples = [] := by
      rw [h.len_eq] at hzero
      exact List.length_eq_zero_iff.mp hzero
    have hfirst : x.first = none := by
      unfold first
      rw [if_pos ((isEmpty_iff h.readable).mpr hzero)]
    rw [hfirst, if_pos (by simp [hnil, FitsMoved])]
  · have hfirst : x.first = some (x.get 0) := by
      unfold first
      rw [if_neg]
      rw [isEmpty_iff h.readable]
      omega
    have hlast : x.last = some (x.get (x.len - 1)) := by
      simp [last, checkedSub, show 1 ≤ x.len by omega]
    rw [hfirst, hlast]
    dsimp only
    have hiff := h.fitsMoved_iff hpos delta
    rw [← get_decodeTime, ← get_decodeTime] at hiff
    by_cases hfits : FitsMoved delta samples
    · rw [if_pos hfits, if_neg]
      have := hiff.mp hfits
      omega
    · rw [if_neg hfits, if_pos]
      have := hiff.not.mp hfits
      omega

theorem Holds.moved (h : x.Holds samples) {delta : ℤ}
    (hfits : FitsMoved delta samples) :
    ({ x with shift := x.shift + delta } : SampleIndex).Holds
      (samples.map (Sample.moved delta)) where
  readable := by
    refine ⟨h.readable.tables, h.readable.start_le, h.readable.stop_le, ?_⟩
    intro hlt
    change x.start < x.stop at hlt
    have hpos : 0 < x.len := by
      unfold len
      omega
    have hlow := ((h.fitsMoved_iff hpos delta).mp hfits).1
    rw [h.readable.decodeTime_eq hpos, Nat.add_zero] at hlow
    dsimp only
    omega
  all_eq := by
    apply List.ext_getElem?
    intro i
    rw [List.getElem?_map, ← h.all_eq]
    rcases Nat.lt_or_ge i x.len with hlt | hge
    · have hdecode := h.readable.decodeTime_eq hlt
      have hsame : ({ x with shift := x.shift + delta } : SampleIndex).get i =
          (x.get i).moved delta := by
        simp only [Sample.moved, get_decodeTime, hdecode]
        simp only [get, SampleIndex.moved, Int.add_assoc]
      rw [getElem?_all hlt, Option.map_some, ← hsame]
      exact getElem?_all hlt
    · rw [List.getElem?_eq_none (by rwa [length_all]),
        List.getElem?_eq_none (by rw [length_all]; exact hge)]
      rfl

/-- What moving an index leaves, where it succeeds. -/
theorem Holds.of_shifted (h : x.Holds samples) {delta : ℤ} {message : String}
    (hrun : x.shifted delta message = .ok y) :
    FitsMoved delta samples ∧ y.Holds (samples.map (Sample.moved delta)) := by
  rw [h.shifted_eq] at hrun
  split at hrun
  · next hfits =>
      obtain rfl := Except.ok.inj hrun
      exact ⟨hfits, h.moved hfits⟩
  · cases hrun

/-- An index that holds a list answers as the list does. -/
theorem Holds.agrees (h : x.Holds samples) : x.Agrees samples where
  len_eq := h.len_eq
  get_eq _ _ hsample := h.get_eq hsample
  iter_eq := h.readable.iter_collect.trans h.all_eq
  range_eq first stop hfirst hstop := by
    have hread := h.readable.toVec_eq hfirst (by rwa [h.len_eq])
    rwa [h.all_eq] at hread
  moved_eq i sample hsample := by
    rw [← h.readable.decodeTime_eq (h.lt_len hsample),
      h.decodeTime_eq hsample]
  decodeTime_eq _ _ hsample := h.decodeTime_eq hsample
  size_eq _ _ hsample := h.size_eq hsample
  payloadBytes_eq _ _ _ hstop := h.payloadBytes_eq hstop
  partition_eq := h.partition_eq
  syncIndices_eq := h.syncIndices_eq
  nthSync_eq nth := by
    rw [nthSync_eq_getElem?, h.syncIndices_eq]
  shifted_iff delta message := by
    rw [h.shifted_eq delta message]
    split
    · next hfits => exact ⟨fun _ => hfits, fun _ => ⟨_, rfl⟩⟩
    · next hfails =>
        constructor
        · rintro ⟨y, hy⟩
          cases hy
        · exact fun hfits => absurd hfits hfails

/-- One call succeeds on the index where it does on the list. -/
theorem Holds.move (h : x.Holds samples) {move : Move}
    (hrun : x.move move = .ok y) :
    ∃ slice, moveSamples samples move = some slice ∧ y.Holds slice := by
  cases move with
  | window first stop =>
      simp only [SampleIndex.move, h.len_eq] at hrun
      split at hrun
      · next hinside =>
          obtain rfl := Except.ok.inj hrun
          exact ⟨_, if_pos hinside, h.window hinside.1 hinside.2⟩
      · cases hrun
  | shifted delta message =>
      obtain ⟨hfits, hmoved⟩ := h.of_shifted hrun
      exact ⟨_, if_pos hfits, hmoved⟩

theorem Holds.moves {moves : List Move} (h : x.Holds samples)
    (hrun : moves.foldlM SampleIndex.move x = .ok y) :
    ∃ slice, moves.foldlM moveSamples samples = some slice ∧
      y.Holds slice := by
  induction moves generalizing x samples with
  | nil =>
      obtain rfl := Except.ok.inj hrun
      exact ⟨samples, rfl, h⟩
  | cons move moves ih =>
      rw [List.foldlM_cons] at hrun
      obtain ⟨next, hmove, hrest⟩ := bind_eq_ok_iff.mp hrun
      obtain ⟨slice, hslice, hholds⟩ := h.move hmove
      obtain ⟨final, hfinal, hend⟩ := ih hholds hrest
      refine ⟨final, ?_, hend⟩
      rw [List.foldlM_cons, hslice]
      exact hfinal

end SampleIndex

/-- An index built of samples and cut and moved any number of times agrees
with the samples cut and moved the same way. -/
theorem sampleIndex_agrees_with_slice {samples : List Sample}
    (hcount : samples.length ≤ 2 ^ 32)
    (hsorted : samples.Pairwise fun a b => a.decodeTime ≤ b.decodeTime)
    {moves : List Move} {x : SampleIndex}
    (hrun : moves.foldlM SampleIndex.move (.fromSamples samples) = .ok x) :
    ∃ slice, moves.foldlM moveSamples samples = some slice ∧
      x.Agrees slice := by
  obtain ⟨slice, hslice, hholds⟩ :=
    (SampleIndex.fromSamples_holds hcount hsorted).moves hrun
  exact ⟨slice, hslice, hholds.agrees⟩

/-- Three frames in two chunks, with a gap in time before the last. -/
def gappedSamples : List Sample :=
  [⟨100, 10, 0, 512, 1024, true⟩, ⟨110, 20, 512, 512, 0, false⟩,
    ⟨500, 30, 5000, 1024, 0, true⟩]

/-- The last two of the frames, moved to the start. -/
theorem gappedSamples_agree :
    ∃ x : SampleIndex, x.Agrees
      [⟨110, 20, 0, 512, 0, false⟩, ⟨500, 30, 4488, 1024, 0, true⟩] := by
  have hrun : ([.window 1 3, .shifted (-512) "overflow"] : List Move).foldlM
      SampleIndex.move (.fromSamples gappedSamples) =
      .ok ⟨(SampleIndex.fromSamples gappedSamples).tables, 1, 3, -512⟩ := by
    decide
  obtain ⟨slice, hslice, hagrees⟩ := sampleIndex_agrees_with_slice
    (by decide) (by decide) hrun
  obtain rfl : _ = slice := Option.some.inj hslice
  exact ⟨_, hagrees⟩

end Segmentor
