import Segmentor.SampleIndex

/-!
# Lookups and reading in a valid sample index

A valid index is the list of its samples: reading it in order with cursors
gives each sample exactly as a lookup finds it, decode times never go
backwards, and the partition by decode time counts the samples before it.
-/

namespace Segmentor

open General

/-- What the builders of the tables check: each run table describes every
sample, every field fits its word, and no run starts before the one ahead of
it has ended. -/
structure Tables.Valid (t : Tables) : Prop where
  len_lt : t.len < 2 ^ 32
  sizes_lt : ∀ size ∈ t.sizes, size < 2 ^ 32
  chunks : Covers ChunkRow.first t.chunks t.len
  times : Covers TimeRow.first t.times t.len
  durations_lt : ∀ row ∈ t.times, row.duration < 2 ^ 32
  chained : ∀ i a b, t.times[i]? = some a → t.times[i + 1]? = some b →
    a.start + (b.first - a.first) * a.duration ≤ b.start
  composition : t.composition = [] ∨
    Covers CompositionRow.first t.composition t.len
  composition_range : ∀ row ∈ t.composition,
    -2 ^ 31 ≤ row.offset ∧ row.offset < 2 ^ 31
  sync : ∀ sync, t.sync = some sync → sync.Pairwise (· < ·)

/-- The validity of tables, as a test. -/
def Tables.check (t : Tables) : Bool :=
  decide (t.len < 2 ^ 32) &&
    (t.sizes.all fun size => decide (size < 2 ^ 32)) &&
    covers ChunkRow.first t.chunks t.len &&
    covers TimeRow.first t.times t.len &&
    (t.times.all fun row => decide (row.duration < 2 ^ 32)) &&
    ((t.times.zip t.times.tail).all fun (a, b) =>
      decide (a.start + (b.first - a.first) * a.duration ≤ b.start)) &&
    (t.composition.isEmpty ||
      covers CompositionRow.first t.composition t.len) &&
    (t.composition.all fun row =>
      decide (-2 ^ 31 ≤ row.offset ∧ row.offset < 2 ^ 31)) &&
    t.sync.all fun sync => decide (sync.Pairwise (· < ·))

theorem Tables.valid_of_check {t : Tables} (h : t.check = true) : t.Valid := by
  unfold check at h
  simp only [Bool.and_eq_true, Bool.or_eq_true, List.all_eq_true,
    decide_eq_true_eq] at h
  obtain ⟨⟨⟨⟨⟨⟨⟨⟨hlen, hsizes⟩, hchunks⟩, htimes⟩, hdurations⟩, hchained⟩,
    hcomposition⟩, hrange⟩, hsync⟩ := h
  refine ⟨hlen, hsizes, covers_sound hchunks, covers_sound htimes, hdurations,
    ?_, ?_, hrange, ?_⟩
  · intro i a b ha hb
    refine hchained (a, b) (List.mem_iff_getElem?.mpr ⟨i, ?_⟩)
    rw [List.getElem?_zip_eq_some]
    exact ⟨ha, by rwa [List.getElem?_tail]⟩
  · exact hcomposition.imp (by simp) covers_sound
  · intro sync hsome
    simpa [hsome] using hsync

/-- What reading the tables rests on: every sample is described, and decode
times never go backwards, though a sample may end after the next one
starts. -/
structure Tables.Ordered (t : Tables) : Prop where
  len_le : t.len ≤ 2 ^ 32
  chunks : Covers ChunkRow.first t.chunks t.len
  times : Covers TimeRow.first t.times t.len
  ordered : ∀ i a b, t.times[i]? = some a → t.times[i + 1]? = some b →
    a.start + (b.first - 1 - a.first) * a.duration ≤ b.start
  composition : t.composition = [] ∨
    Covers CompositionRow.first t.composition t.len
  sync : ∀ sync, t.sync = some sync → sync.Pairwise (· < ·)

namespace Tables

variable {t : Tables}

theorem Valid.ordered (h : t.Valid) : t.Ordered where
  len_le := h.len_lt.le
  chunks := h.chunks
  times := h.times
  ordered i a b ha hb := by
    apply le_trans _ (h.chained i a b ha hb)
    apply Nat.add_le_add_left
    exact Nat.mul_le_mul_right _ (by omega)
  composition := h.composition
  sync := h.sync

theorem isSync_iff {index : ℕ} {sync : List ℕ} (hsync : t.sync = some sync) :
    t.isSync index = true ↔ index ∈ sync := by
  simp [isSync, hsync]

theorem Ordered.timeRow_spec (h : t.Ordered) {index : ℕ} (hindex : index < t.len) :
    t.times[runOf TimeRow.first t.times index]? = some (t.timeRow index) ∧
      (t.timeRow index).first ≤ index := by
  obtain ⟨⟨row, hrow, hle⟩, -⟩ := h.times.lookup hindex
  simp [timeRow, hrow, hle]

theorem Ordered.chunkRow_spec (h : t.Ordered) {index : ℕ} (hindex : index < t.len) :
    t.chunks[runOf ChunkRow.first t.chunks index]? = some (t.chunkRow index) ∧
      (t.chunkRow index).first ≤ index := by
  obtain ⟨⟨row, hrow, hle⟩, -⟩ := h.chunks.lookup hindex
  simp [chunkRow, hrow, hle]

theorem Valid.duration_lt (h : t.Valid) {index : ℕ} (hindex : index < t.len) :
    t.duration index < 2 ^ 32 :=
  h.durations_lt _ (List.mem_of_getElem? (h.ordered.timeRow_spec hindex).1)

theorem sizesBetween_succ {first index : ℕ} (hfirst : first ≤ index) :
    t.sizesBetween first (index + 1) =
      t.sizesBetween first index + t.sizes[index]?.getD 0 := by
  unfold sizesBetween
  rw [List.take_add_one]
  cases hsize : t.sizes[index]? with
  | none => simp
  | some size =>
      have hlength : index < t.sizes.length :=
        (List.getElem?_eq_some_iff.mp hsize).1
      rw [List.drop_append_of_le_length (by simp; omega)]
      simp

@[simp] theorem sizesBetween_self (index : ℕ) :
    t.sizesBetween index index = 0 := by
  unfold sizesBetween
  rw [List.drop_eq_nil_of_le (by simp)]
  rfl

/-! ## Decode times -/

theorem Valid.decodeTime_add_duration_le (h : t.Valid) {index : ℕ}
    (hindex : index + 1 < t.len) :
    t.decodeTime index + t.duration index ≤ t.decodeTime (index + 1) := by
  obtain ⟨hrow, hle⟩ :=
    @Tables.Ordered.timeRow_spec _ h.ordered index (by omega)
  have hspan : (index - (t.timeRow index).first) * (t.timeRow index).duration +
      (t.timeRow index).duration =
      (index + 1 - (t.timeRow index).first) * (t.timeRow index).duration := by
    rw [← Nat.succ_mul]
    congr 1
    omega
  unfold decodeTime duration
  rcases h.times.runIndex_succ hindex with hsame | ⟨hmoved, next, hnext, hfirst⟩
  · have hrows : t.timeRow (index + 1) = t.timeRow index := by
      simp only [timeRow, runOf, hsame]
    rw [hrows]
    omega
  · have hrows : t.timeRow (index + 1) = next := by
      simp only [timeRow, runOf, hmoved, hnext, Option.getD_some]
    have hchain := h.chained _ _ _ hrow hnext
    rw [hrows, hfirst]
    rw [hfirst] at hchain
    omega

theorem Ordered.decodeTime_le_succ (h : t.Ordered) {index : ℕ}
    (hindex : index + 1 < t.len) :
    t.decodeTime index ≤ t.decodeTime (index + 1) := by
  obtain ⟨hrow, hle⟩ := @Tables.Ordered.timeRow_spec _ h index (by omega)
  unfold decodeTime
  rcases h.times.runIndex_succ hindex with hsame | ⟨hmoved, next, hnext, hfirst⟩
  · have hrows : t.timeRow (index + 1) = t.timeRow index := by
      simp only [timeRow, runOf, hsame]
    rw [hrows]
    apply Nat.add_le_add_left
    exact Nat.mul_le_mul_right _ (by omega)
  · have hrows : t.timeRow (index + 1) = next := by
      simp only [timeRow, runOf, hmoved, hnext, Option.getD_some]
    have hchain := h.ordered _ _ _ hrow hnext
    rw [hfirst, Nat.add_sub_cancel] at hchain
    rw [hrows]
    omega

theorem Ordered.decodeTime_mono (h : t.Ordered) {i j : ℕ} (hij : i ≤ j)
    (hj : j < t.len) : t.decodeTime i ≤ t.decodeTime j := by
  induction j, hij using Nat.le_induction with
  | base => exact Nat.le_refl _
  | succ j hij ih =>
      have hstep := h.decodeTime_le_succ hj
      have := ih (by omega)
      omega

theorem Valid.end_le_decodeTime (h : t.Valid) {i j : ℕ} (hij : i < j)
    (hj : j < t.len) :
    t.decodeTime i + t.duration i ≤ t.decodeTime j :=
  (h.decodeTime_add_duration_le (by omega)).trans
    (h.ordered.decodeTime_mono (Nat.succ_le_of_lt hij) hj)

/-- Where a run starts, its start is the decode time. -/
theorem Ordered.decodeTime_first (h : t.Ordered) {run : ℕ} {row : TimeRow}
    (hrow : t.times[run]? = some row) : t.decodeTime row.first = row.start := by
  have hindex : runOf TimeRow.first t.times row.first = run := by
    refine h.times.ascending.runIndex_eq hrow (Nat.le_refl _) ?_
    intro next hnext
    exact h.times.ascending.start_lt (by omega) hrow hnext
  simp [decodeTime, timeRow, hindex, hrow]

theorem Ordered.decodeTime_in_run (h : t.Ordered) {run index : ℕ} {row : TimeRow}
    (hrow : t.times[run]? = some row) (hle : row.first ≤ index)
    (hnext : ∀ next, t.times[run + 1]? = some next → index < next.first) :
    t.decodeTime index = row.start + (index - row.first) * row.duration := by
  have hindex : runOf TimeRow.first t.times index = run :=
    h.times.ascending.runIndex_eq hrow hle hnext
  simp [decodeTime, timeRow, hindex, hrow]

theorem Ordered.starts_descending (h : t.Ordered) (time : ℤ) :
    Descending (fun row : TimeRow => decide ((row.start : ℤ) < time))
      t.times := by
  unfold Descending
  rw [List.pairwise_iff_getElem]
  intro i j hi hj hij hlt
  have hrowi : t.times[i]? = some t.times[i] := List.getElem?_eq_getElem hi
  have hrowj : t.times[j]? = some t.times[j] := List.getElem?_eq_getElem hj
  have hfirst := h.times.ascending.start_lt hij hrowi hrowj
  have hmono := h.decodeTime_mono hfirst.le
    (h.times.inside _ (List.mem_of_getElem? hrowj))
  rw [h.decodeTime_first hrowi, h.decodeTime_first hrowj] at hmono
  simp only [decide_eq_true_eq] at hlt ⊢
  omega

private theorem steps_le_iff {elapsed duration : ℤ} {k : ℕ}
    (hduration : 0 < duration) :
    (k : ℤ) * duration < elapsed ↔
      k < ((elapsed + duration - 1) / duration).toNat := by
  have hdiv : (k : ℤ) + 1 ≤ (elapsed + duration - 1) / duration ↔
      ((k : ℤ) + 1) * duration ≤ elapsed + duration - 1 :=
    Int.le_ediv_iff_mul_le hduration
  rw [add_mul, one_mul] at hdiv
  rw [Int.lt_toNat]
  omega

theorem Ordered.lt_partitionByDecodeTime_iff (h : t.Ordered) {index : ℕ}
    (hindex : index < t.len) (time : ℤ) :
    index < t.partitionByDecodeTime time ↔
      (t.decodeTime index : ℤ) < time := by
  have hdesc := h.starts_descending time
  have hlen := h.len_le
  generalize hnext : partitionPoint
    (fun row : TimeRow => decide ((row.start : ℤ) < time)) t.times = next
    at *
  obtain ⟨zeroth, hzeroth, hzero⟩ := h.times.begins (by omega)
  unfold partitionByDecodeTime
  simp only [hnext]
  by_cases hnone : next = 0
  · -- every run starts at or after `time`
    have hstart : ¬ (zeroth.start : ℤ) < time := by
      have := hdesc.lt_partitionPoint_iff hzeroth
      simp only [hnext, hnone, decide_eq_true_eq] at this
      omega
    have hmono := h.decodeTime_mono (Nat.zero_le index) hindex
    have hfirst := h.decodeTime_first hzeroth
    rw [hzero] at hfirst
    rw [if_pos hnone]
    omega
  rw [if_neg hnone]
  obtain ⟨row, hrow, hbefore⟩ : ∃ row, t.times[next - 1]? = some row ∧
      (row.start : ℤ) < time := by
    obtain ⟨row, hrow, hp⟩ := holds_of_lt_partitionPoint (k := next - 1)
      (p := fun row : TimeRow => decide ((row.start : ℤ) < time))
      (l := t.times) (by omega)
    exact ⟨row, hrow, by simpa using hp⟩
  have hinside := h.times.inside row (List.mem_of_getElem? hrow)
  have hrowStart := h.decodeTime_first hrow
  generalize hnextFirst : t.times[next]?.elim t.len TimeRow.first = nextFirst
  have hsucc : next - 1 + 1 = next := by omega
  -- what holds from the next run on, and inside the run before it
  have hafter : nextFirst ≤ index → ¬ (t.decodeTime index : ℤ) < time := by
    intro hle
    cases hrow' : t.times[next]? with
    | none => simp [hrow'] at hnextFirst; omega
    | some following =>
        have hfails : ¬ (following.start : ℤ) < time := by
          subst hnext
          simpa using fails_at_partitionPoint hrow'
        simp only [hrow', Option.elim_some] at hnextFirst
        have hmono := h.decodeTime_mono
          (show following.first ≤ index by omega) hindex
        rw [h.decodeTime_first hrow'] at hmono
        omega
  have hin : row.first ≤ index → index < nextFirst →
      t.decodeTime index = row.start + (index - row.first) * row.duration := by
    intro hle hlt
    refine h.decodeTime_in_run hrow hle ?_
    intro following hfollowing
    rw [hsucc] at hfollowing
    simp only [hfollowing, Option.elim_some] at hnextFirst
    omega
  have hearly : index < row.first → (t.decodeTime index : ℤ) < time := by
    intro hlt
    have := h.decodeTime_mono hlt.le hinside
    omega
  have hnextFirst_gt : row.first < nextFirst := by
    cases hrow' : t.times[next]? with
    | none => simp [hrow'] at hnextFirst; omega
    | some following =>
        simp only [hrow', Option.elim_some] at hnextFirst
        have := h.times.ascending.start_lt (by omega) hrow hrow'
        omega
  have hrunEnd : (if next < t.times.length then nextFirst else t.len) =
      nextFirst := by
    split
    · rfl
    · rename_i hnot
      simp [List.getElem?_eq_none (Nat.le_of_not_lt hnot)] at hnextFirst
      omega
  simp only [hrow, Option.getD_some, hrunEnd]
  by_cases hduration : row.duration = 0
  · rw [if_pos hduration]
    constructor
    · intro hlt
      by_cases hle : row.first ≤ index
      · rw [hin hle hlt, hduration]
        omega
      · exact hearly (by omega)
    · intro hlt
      by_contra hge
      exact hafter (by omega) hlt
  rw [if_neg hduration]
  have hbound : nextFirst ≤ t.len := by
    cases hrow' : t.times[next]? with
    | none => simp [hrow'] at hnextFirst; omega
    | some following =>
        have := h.times.inside following (List.mem_of_getElem? hrow')
        simp only [hrow', Option.elim_some] at hnextFirst
        omega
  have hsteps : ∀ k : ℕ, ((k : ℤ) * row.duration < time - row.start ↔
      k < ((time - row.start + row.duration - 1) / row.duration).toNat) :=
    fun k => steps_le_iff (by omega)
  generalize ((time - row.start + row.duration - 1) / row.duration).toNat =
    steps at *
  have hwithin : row.first ≤ index → index < nextFirst →
      ((t.decodeTime index : ℤ) < time ↔ index - row.first < steps) := by
    intro hle hlt
    rw [← hsteps, hin hle hlt]
    push_cast
    omega
  unfold saturatingAdd
  split
  · rename_i hcandidate
    constructor
    · intro hlt
      by_cases hle : row.first ≤ index
      · exact (hwithin hle (by omega)).mpr (by omega)
      · exact hearly (by omega)
    · intro hlt
      by_cases hle : row.first ≤ index
      · by_cases hlt' : index < nextFirst
        · have := (hwithin hle hlt').mp hlt
          omega
        · exact absurd hlt (hafter (by omega))
      · omega
  · rename_i hcandidate
    constructor
    · intro hlt
      by_cases hle : row.first ≤ index
      · exact (hwithin hle hlt).mpr (by omega)
      · exact hearly (by omega)
    · intro hlt
      by_contra hge
      exact hafter (by omega) hlt

end Tables

/-! ## Windows -/

/-- A window inside valid tables whose decode times fit a word. -/
structure SampleIndex.Valid (x : SampleIndex) : Prop where
  tables : x.tables.Valid
  start_le : x.start ≤ x.stop
  stop_le : x.stop ≤ x.tables.len
  first_nonneg : x.start < x.stop →
    0 ≤ (x.tables.decodeTime x.start : ℤ) + x.shift
  end_lt : x.start < x.stop →
    (x.tables.decodeTime (x.stop - 1) : ℤ) + x.tables.duration (x.stop - 1) +
      x.shift < 2 ^ 64

/-- A window inside ordered tables whose decode times are not negative. -/
structure SampleIndex.Readable (x : SampleIndex) : Prop where
  tables : x.tables.Ordered
  start_le : x.start ≤ x.stop
  stop_le : x.stop ≤ x.tables.len
  first_nonneg : x.start < x.stop →
    0 ≤ (x.tables.decodeTime x.start : ℤ) + x.shift

theorem SampleIndex.Valid.readable {x : SampleIndex} (h : x.Valid) :
    x.Readable where
  tables := h.tables.ordered
  start_le := h.start_le
  stop_le := h.stop_le
  first_nonneg := h.first_nonneg

/-- The validity of an index, as a test. -/
def SampleIndex.check (x : SampleIndex) : Bool :=
  x.tables.check && decide (x.start ≤ x.stop) &&
    decide (x.stop ≤ x.tables.len) &&
    (x.start == x.stop ||
      decide (0 ≤ (x.tables.decodeTime x.start : ℤ) + x.shift ∧
        (x.tables.decodeTime (x.stop - 1) : ℤ) +
          x.tables.duration (x.stop - 1) + x.shift < 2 ^ 64))

theorem SampleIndex.valid_of_check {x : SampleIndex} (h : x.check = true) :
    x.Valid := by
  unfold check at h
  simp only [Bool.and_eq_true, Bool.or_eq_true, decide_eq_true_eq,
    beq_iff_eq] at h
  obtain ⟨⟨⟨htables, hstart⟩, hstop⟩, htimes⟩ := h
  exact ⟨Tables.valid_of_check htables, hstart, hstop,
    fun hlt => (htimes.resolve_left hlt.ne).1,
    fun hlt => (htimes.resolve_left hlt.ne).2⟩

namespace SampleIndex

variable {x : SampleIndex}

/-- The samples of the index, by lookup. -/
def all (x : SampleIndex) : List Sample :=
  (List.range x.len).map x.get

@[simp] theorem length_all (x : SampleIndex) : x.all.length = x.len := by
  simp [all]

theorem getElem?_all {index : ℕ} (hindex : index < x.len) :
    x.all[index]? = some (x.get index) := by
  simp [all, hindex]

@[simp] theorem get_decodeTime (x : SampleIndex) (index : ℕ) :
    (x.get index).decodeTime = x.decodeTime index := rfl

theorem isEmpty_iff (h : x.Readable) : x.isEmpty = true ↔ x.len = 0 := by
  have := h.start_le
  simp only [isEmpty, len, beq_iff_eq]
  omega

theorem Readable.decodeTime_eq (h : x.Readable) {index : ℕ}
    (hindex : index < x.len) :
    (x.decodeTime index : ℤ) =
      x.tables.decodeTime (x.start + index) + x.shift := by
  have hstop := h.stop_le
  unfold len at hindex
  have hmono := h.tables.decodeTime_mono (Nat.le_add_right x.start index)
    (by omega)
  have hfirst := h.first_nonneg (by omega)
  unfold decodeTime moved
  omega

theorem Valid.decodeTime_eq (h : x.Valid) {index : ℕ} (hindex : index < x.len) :
    (x.decodeTime index : ℤ) =
      x.tables.decodeTime (x.start + index) + x.shift :=
  h.readable.decodeTime_eq hindex

theorem Valid.decodeTime_add_duration_le (h : x.Valid) {index : ℕ}
    (hindex : index + 1 < x.len) :
    x.decodeTime index + (x.get index).duration ≤ x.decodeTime (index + 1) := by
  have hstop := h.stop_le
  have h₁ := @SampleIndex.Valid.decodeTime_eq _ h index (by omega)
  have h₂ := h.decodeTime_eq hindex
  unfold len at hindex
  have hstep := @Tables.Valid.decodeTime_add_duration_le _ h.tables
    (x.start + index) (by omega)
  simp only [get]
  rw [← Nat.add_assoc] at h₂
  omega

theorem Readable.decodeTime_mono (h : x.Readable) {i j : ℕ} (hij : i ≤ j)
    (hj : j < x.len) : x.decodeTime i ≤ x.decodeTime j := by
  have hstop := h.stop_le
  have h₁ := @SampleIndex.Readable.decodeTime_eq _ h i (by omega)
  have h₂ := h.decodeTime_eq hj
  unfold len at hj
  have := h.tables.decodeTime_mono
    (show x.start + i ≤ x.start + j by omega) (by omega)
  omega

theorem Valid.decodeTime_mono (h : x.Valid) {i j : ℕ} (hij : i ≤ j)
    (hj : j < x.len) : x.decodeTime i ≤ x.decodeTime j :=
  h.readable.decodeTime_mono hij hj

theorem Valid.sample_end_lt (h : x.Valid) {index : ℕ} (hindex : index < x.len) :
    x.decodeTime index + (x.get index).duration < 2 ^ 64 := by
  have hstop := h.stop_le
  have h₁ := h.decodeTime_eq hindex
  have hlast := h.end_lt
  unfold len at hindex
  have hend := hlast (by omega)
  simp only [get]
  rcases Nat.lt_or_eq_of_le
    (show x.start + index ≤ x.stop - 1 by omega) with hlt | heq
  · have := h.tables.end_le_decodeTime hlt (by omega)
    omega
  · rw [← heq] at hend
    omega

theorem partitionByDecodeTime_le (h : x.Readable) (time : ℕ) :
    x.partitionByDecodeTime time ≤ x.len := by
  have := h.start_le
  unfold partitionByDecodeTime len
  omega

theorem Readable.lt_partitionByDecodeTime_iff (h : x.Readable) {index : ℕ}
    (hindex : index < x.len) (time : ℕ) :
    index < x.partitionByDecodeTime time ↔ x.decodeTime index < time := by
  have hstop := h.stop_le
  have hdecode := h.decodeTime_eq hindex
  unfold len at hindex
  have hiff := @Tables.Ordered.lt_partitionByDecodeTime_iff _ h.tables
    (x.start + index) (by omega) ((time : ℤ) - x.shift)
  unfold partitionByDecodeTime
  omega

theorem Valid.lt_partitionByDecodeTime_iff (h : x.Valid) {index : ℕ}
    (hindex : index < x.len) (time : ℕ) :
    index < x.partitionByDecodeTime time ↔ x.decodeTime index < time :=
  h.readable.lt_partitionByDecodeTime_iff hindex time

theorem Valid.partitionByDecodeTime_mono (h : x.Valid) {s t : ℕ}
    (hst : s ≤ t) :
    x.partitionByDecodeTime s ≤ x.partitionByDecodeTime t := by
  by_contra hlt
  have hle := partitionByDecodeTime_le h.readable s
  have hs := @SampleIndex.Valid.lt_partitionByDecodeTime_iff _ h
    (x.partitionByDecodeTime t) (by omega) s
  have ht := @SampleIndex.Valid.lt_partitionByDecodeTime_iff _ h
    (x.partitionByDecodeTime t) (by omega) t
  omega

theorem mem_syncIndices (h : x.Readable) {index : ℕ} :
    index ∈ x.syncIndices ↔
      index < x.len ∧ x.tables.isSync (x.start + index) = true := by
  unfold syncIndices
  cases hsync : x.tables.sync with
  | none => simp [Tables.isSync, hsync]
  | some sync =>
      simp only [syncBounds, List.mem_map,
        mem_slice_partitionPoint (h.tables.sync sync hsync)]
      rw [Tables.isSync_iff hsync]
      unfold len
      constructor
      · rintro ⟨a, ⟨hmem, hlow, hhigh⟩, rfl⟩
        refine ⟨by omega, ?_⟩
        rwa [Nat.add_sub_cancel' hlow]
      · rintro ⟨hlt, hmem⟩
        exact ⟨x.start + index, ⟨hmem, by omega, by omega⟩, by omega⟩

theorem syncIndices_pairwise (h : x.Readable) :
    x.syncIndices.Pairwise (· < ·) := by
  unfold syncIndices
  cases hsync : x.tables.sync with
  | none => exact List.pairwise_lt_range
  | some sync =>
      have hpairwise := h.tables.sync sync hsync
      simp only [syncBounds]
      rw [List.pairwise_map]
      refine List.Pairwise.imp_of_mem ?_
        ((hpairwise.sublist (List.take_sublist _ _)).sublist
          (List.drop_sublist _ _))
      intro a b ha hb hlt
      have hlow := ((mem_slice_partitionPoint hpairwise).mp ha).2.1
      omega

/-- A window of a valid index is valid. -/
theorem Valid.window (h : x.Valid) {first stop : ℕ} (hfirst : first ≤ stop)
    (hstop : stop ≤ x.len) : (x.window first stop).Valid := by
  have hle := h.start_le
  have hlen := h.stop_le
  have hlen' : x.len = x.stop - x.start := rfl
  refine ⟨h.tables, ?_, ?_, ?_, ?_⟩
  · simp only [SampleIndex.window]
    omega
  · simp only [SampleIndex.window]
    omega
  · intro hlt
    simp only [SampleIndex.window] at hlt ⊢
    have hmono := h.tables.ordered.decodeTime_mono
      (Nat.le_add_right x.start first) (by omega)
    have := h.first_nonneg (by omega)
    omega
  · intro hlt
    simp only [SampleIndex.window] at hlt ⊢
    have hend := h.end_lt (by omega)
    rcases Nat.lt_or_eq_of_le
      (show x.start + stop - 1 ≤ x.stop - 1 by omega) with hlt' | heq
    · have := h.tables.end_le_decodeTime hlt' (by omega)
      omega
    · rwa [heq]

theorem Valid.shifted {x y : SampleIndex} {delta : ℤ} {message : String}
    (h : x.Valid) (hrun : x.shifted delta message = .ok y) : y.Valid := by
  have hle := h.start_le
  unfold SampleIndex.shifted at hrun
  by_cases hempty : x.start = x.stop
  · have hfirst : x.first = none := by
      simp [SampleIndex.first, isEmpty, hempty]
    rw [hfirst] at hrun
    obtain rfl := Except.ok.inj hrun
    refine ⟨h.tables, h.start_le, h.stop_le, fun hlt => ?_, fun hlt => ?_⟩
    · exact absurd hempty (Nat.ne_of_lt hlt)
    · exact absurd hempty (Nat.ne_of_lt hlt)
  · have hpos : 0 < x.len := by
      unfold len
      omega
    have hfirst : x.first = some (x.get 0) := by
      simp [SampleIndex.first, isEmpty, hempty]
    have hlast : x.last = some (x.get (x.len - 1)) := by
      simp [SampleIndex.last, checkedSub, show 1 ≤ x.len by omega]
    rw [hfirst, hlast] at hrun
    dsimp only at hrun
    split at hrun
    · simp at hrun
    · rename_i hbounds
      obtain rfl := Except.ok.inj hrun
      have h₀ := h.decodeTime_eq hpos
      have h₁ := h.decodeTime_eq (show x.len - 1 < x.len by omega)
      have hend : x.start + (x.len - 1) = x.stop - 1 := by
        unfold len
        omega
      simp only [get_decodeTime, not_or, not_lt, not_le] at hbounds
      simp only [get] at hbounds
      rw [hend] at h₁ hbounds
      rw [Nat.add_zero] at h₀
      refine ⟨h.tables, h.start_le, h.stop_le, fun _ => ?_, fun _ => ?_⟩
      · dsimp only
        omega
      · dsimp only
        omega

end SampleIndex

/-! ## Reading in order -/

/-- The cursors are where the next sample needs them. -/
structure Iter.Ready (it : Iter) : Prop where
  valid : it.index.tables.Ordered
  stop_le : it.stop ≤ it.index.tables.len
  chunk : it.position < it.stop →
    CursorAt ChunkRow.first it.index.tables.chunks it.position it.chunk
  offset : it.position < it.stop →
    ∀ row, it.index.tables.chunks[it.chunk]? = some row →
      it.offset = row.offset +
        it.index.tables.sizesBetween row.first it.position
  timeRun : it.position < it.stop →
    CursorAt TimeRow.first it.index.tables.times it.position it.timeRun
  compositionRun : it.position < it.stop →
    it.index.tables.composition = [] ∨
      CursorAt CompositionRow.first it.index.tables.composition it.position
        it.compositionRun
  sync : ∀ sync, it.index.tables.sync = some sync →
    it.sync = partitionPoint (fun index => decide (index < it.position)) sync

namespace Iter

variable {it : Iter}

theorem Ready.enterChunk_eq (h : it.Ready) (hpos : it.position < it.stop) :
    enterChunk it.index.tables it.position it.chunk it.offset =
      (runOf ChunkRow.first it.index.tables.chunks it.position,
        it.index.tables.offset it.position) := by
  have hcursor := h.chunk hpos
  have hascending := h.valid.chunks.ascending
  have hadvance := hcursor.advance_eq hascending
  have hstop := h.stop_le
  obtain ⟨hrow, hle⟩ := h.valid.chunkRow_spec
    (show it.position < it.index.tables.len by omega)
  unfold enterChunk
  simp only [hadvance, Prod.mk.injEq, true_and]
  split
  · rename_i hmoved
    have hstart := hcursor.start_eq_of_lt hascending hmoved hrow hle
    simp [hrow, Tables.offset, hstart]
  · rename_i hstays
    have hsame : it.chunk =
        runOf ChunkRow.first it.index.tables.chunks it.position :=
      Nat.le_antisymm (hcursor.le_runIndex hascending) (by simpa using hstays)
    rw [← hsame] at hrow
    exact h.offset hpos _ hrow

theorem Ready.compositionOffset_eq (h : it.Ready)
    (hpos : it.position < it.stop) :
    it.index.tables.composition[advance CompositionRow.first
        it.index.tables.composition it.position
        it.index.tables.composition.length it.compositionRun]?.elim 0
          CompositionRow.offset =
      it.index.tables.compositionOffset it.position := by
  have hstop := h.stop_le
  rcases h.compositionRun hpos with hnil | hcursor
  · simp [hnil, Tables.compositionOffset, compositionAt]
  · rcases h.valid.composition with hnil | hcovers
    · simp [hnil, Tables.compositionOffset, compositionAt]
    · obtain ⟨⟨row, hrow, -⟩, -⟩ := hcovers.lookup
        (show it.position < it.index.tables.len by omega)
      have hne : it.index.tables.composition.isEmpty = false := by
        cases hrows : it.index.tables.composition with
        | nil => simp [hrows] at hrow
        | cons => rfl
      rw [hcursor.advance_eq hcovers.ascending]
      simp [Tables.compositionOffset, compositionAt, hne, hrow]

theorem Ready.hit_eq (h : it.Ready) :
    (it.index.tables.sync.elim true fun sync =>
        sync[it.sync]? == some it.position) =
      it.index.tables.isSync it.position := by
  cases hsync : it.index.tables.sync with
  | none => simp [Tables.isSync, hsync]
  | some sync =>
      rw [Bool.eq_iff_iff, Tables.isSync_iff hsync, Option.elim_some,
        h.sync sync hsync, beq_iff_eq]
      exact getElem?_partitionPoint_eq_iff (h.valid.sync sync hsync)

/-- The reader behind the sample at its position. -/
def after (it : Iter) : Iter :=
  let t := it.index.tables
  { it with
    position := it.position + 1
    chunk := runOf ChunkRow.first t.chunks it.position
    offset := t.offset it.position + t.sizes[it.position]?.getD 0
    timeRun := runOf TimeRow.first t.times it.position
    compositionRun :=
      advance CompositionRow.first t.composition it.position
        t.composition.length it.compositionRun
    sync := if t.sync.isSome && t.isSync it.position then it.sync + 1
      else it.sync }

theorem Ready.next_eq (h : it.Ready) (hpos : it.position < it.stop)
    (hstart : it.index.start ≤ it.position) :
    it.next =
      some (it.index.get (it.position - it.index.start), it.after) := by
  have hback : it.index.start + (it.position - it.index.start) =
      it.position := by omega
  have htime := (h.timeRun hpos).advance_eq h.valid.times.ascending
  unfold next
  rw [if_neg (by omega)]
  simp only [h.enterChunk_eq hpos, h.compositionOffset_eq hpos, h.hit_eq,
    htime, SampleIndex.get, hback, after]
  rfl

theorem Ready.after (h : it.Ready) (hpos : it.position < it.stop) :
    it.after.Ready := by
  have hstop := h.stop_le
  have hlen : it.position < it.index.tables.len := by omega
  refine ⟨h.valid, h.stop_le, ?_, ?_, ?_, ?_, ?_⟩
  · intro _
    exact h.valid.chunks.cursorAt_succ hlen
  · intro _ row hrow
    obtain ⟨hfound, hle⟩ := h.valid.chunkRow_spec hlen
    simp only [Iter.after] at hrow ⊢
    rw [hfound] at hrow
    obtain rfl : it.index.tables.chunkRow it.position = row := by
      simpa using hrow
    rw [Tables.sizesBetween_succ hle, Tables.offset]
    omega
  · intro _
    exact h.valid.times.cursorAt_succ hlen
  · intro _
    rcases h.valid.composition with hnil | hcovers
    · exact .inl hnil
    · refine (h.compositionRun hpos).imp id fun hcursor => ?_
      simp only [Iter.after]
      rw [hcursor.advance_eq hcovers.ascending]
      exact hcovers.cursorAt_succ hlen
  · intro sync hsync
    have hiff := @Tables.isSync_iff _ it.position _ hsync
    change (if it.index.tables.sync.isSome &&
        it.index.tables.isSync it.position then it.sync + 1 else it.sync) =
      partitionPoint (fun index => decide (index < it.position + 1)) sync
    change it.index.tables.sync = some sync at hsync
    rw [partitionPoint_lt_succ (h.valid.sync sync hsync),
      ← h.sync sync hsync, hsync]
    change it.index.tables.isSync it.position = true ↔ _ at hiff
    simp only [Option.isSome_some, Bool.true_and, hiff]
    split <;> omega

theorem Ready.take_eq (h : it.Ready) (hstart : it.index.start ≤ it.position)
    {count : ℕ} (hcount : it.position + count ≤ it.stop) :
    it.take count = (List.range' (it.position - it.index.start) count).map
      it.index.get := by
  induction count generalizing it with
  | zero => rfl
  | succ count ih =>
      have hpos : it.position < it.stop := by omega
      unfold Iter.take
      rw [h.next_eq hpos hstart, List.range'_succ, List.map_cons]
      have hrest := ih (h.after hpos)
        (show it.index.start ≤ it.position + 1 by omega)
        (show it.position + 1 + count ≤ it.stop by omega)
      simp only [hrest]
      congr 3
      simp only [Iter.after]
      omega

end Iter

namespace SampleIndex

variable {x : SampleIndex}

theorem Readable.range_ready (h : x.Readable) {first stop : ℕ}
    (hstop : stop ≤ x.len) :
    (x.range first stop).Ready := by
  have hle := h.start_le
  have hlen := h.stop_le
  have hxlen : x.len = x.stop - x.start := rfl
  have hin : ∀ {P : Prop}, (x.start + first < x.tables.len → P) →
      (x.start + first < x.start + stop → P) :=
    fun hP hlt => hP (by omega)
  refine ⟨h.tables, ?_, ?_, ?_, ?_, ?_, ?_⟩
  · simp only [SampleIndex.range]
    omega
  · refine hin fun hlt => ?_
    simp only [SampleIndex.range, hlt, decide_true, if_true]
    exact h.tables.chunks.cursorAt_runIndex hlt
  · refine hin fun hlt row hrow => ?_
    obtain ⟨hfound, -⟩ := h.tables.chunkRow_spec hlt
    simp only [SampleIndex.range, hlt, decide_true, if_true] at hrow ⊢
    rw [hfound] at hrow
    obtain rfl : x.tables.chunkRow (x.start + first) = row := by
      simpa using hrow
    rfl
  · refine hin fun hlt => ?_
    simp only [SampleIndex.range, hlt, decide_true, if_true]
    exact h.tables.times.cursorAt_runIndex hlt
  · refine hin fun hlt => ?_
    rcases h.tables.composition with hnil | hcovers
    · exact .inl hnil
    · cases hrows : x.tables.composition with
      | nil => exact .inl hrows
      | cons row rows =>
          right
          simp only [SampleIndex.range, hlt, decide_true, hrows,
            List.isEmpty_cons, Bool.not_false, Bool.and_self, if_true]
          rw [← hrows]
          exact hcovers.cursorAt_runIndex hlt
  · intro sync hsync
    change x.tables.sync = some sync at hsync
    change x.tables.sync.elim 0 _ = _
    rw [hsync]
    rfl

theorem Readable.toVec_eq (h : x.Readable) {first stop : ℕ}
    (hfirst : first ≤ stop) (hstop : stop ≤ x.len) :
    x.toVec first stop = (x.all.take stop).drop first := by
  have hready := @SampleIndex.Readable.range_ready _ h first _ hstop
  have hcount : x.start + stop - (x.start + first) = stop - first := by omega
  have hread := @Iter.Ready.take_eq _ hready
    (by simp only [SampleIndex.range]; omega) (stop - first)
    (by simp only [SampleIndex.range]; omega)
  unfold toVec Iter.collect
  rw [show (x.range first stop).stop - (x.range first stop).position =
    stop - first from hcount, hread]
  have hback : (x.range first stop).position - (x.range first stop).index.start
      = first := by
    simp only [SampleIndex.range]
    omega
  rw [hback, all, ← List.map_take, ← List.map_drop, List.take_range,
    Nat.min_eq_left hstop, List.range_eq_range', List.drop_range',
    Nat.zero_add, Nat.mul_one]
  rfl

theorem Valid.toVec_eq (h : x.Valid) {first stop : ℕ}
    (hfirst : first ≤ stop) (hstop : stop ≤ x.len) :
    x.toVec first stop = (x.all.take stop).drop first :=
  h.readable.toVec_eq hfirst hstop

/-- Reading the whole index is looking every sample up. -/
theorem Readable.iter_collect (h : x.Readable) : x.iter.collect = x.all := by
  have hread := h.toVec_eq (Nat.zero_le x.len) (Nat.le_refl _)
  rwa [List.drop_zero, List.take_of_length_le (by simp)] at hread

end SampleIndex

end Segmentor
