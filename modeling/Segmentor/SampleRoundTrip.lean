import Segmentor.SampleSlices

/-!
# Samples through an index and back

An index built of samples gives every one of them back, and its tables are
what the lookups silently assume of them: rows that start at zero and ascend,
chunks without holes in the file and timing runs without holes in time.
-/

namespace Segmentor

open General

/-- The tables describe the samples, and nothing in them is idle. -/
structure Tables.Represents (t : Tables) (samples : List Sample) : Prop where
  sizes_eq : t.sizes = samples.map Sample.size
  chunks : Covers ChunkRow.first t.chunks samples.length
  times : Covers TimeRow.first t.times samples.length
  composition : t.composition = [] ∨
    Covers CompositionRow.first t.composition samples.length
  /-- The samples of one chunk follow one another in the file. -/
  chunk_contiguous : ∀ i a b, samples[i]? = some a → samples[i + 1]? = some b →
    runOf ChunkRow.first t.chunks i = runOf ChunkRow.first t.chunks (i + 1) →
    a.offset + a.size = b.offset
  /-- The samples of one timing run last equally long and follow one another
  in time. -/
  time_contiguous : ∀ i a b, samples[i]? = some a → samples[i + 1]? = some b →
    runOf TimeRow.first t.times i = runOf TimeRow.first t.times (i + 1) →
    a.duration = b.duration ∧ a.decodeTime + a.duration = b.decodeTime
  composition_nil_iff : t.composition = [] ↔
    ∀ sample ∈ samples, sample.compositionOffset = 0
  sync_none_iff : t.sync = none ↔ ∀ sample ∈ samples, sample.isSync = true
  sync_eq : ∀ sync, t.sync = some sync →
    sync = syncPositions samples ∧ sync.Pairwise (· < ·)

namespace TableBuilder

variable {sizes : List ℕ} {builder : TableBuilder} {samples : List Sample}
  {a b : Sample} {i : ℕ}

theorem exists_shared_row {α β : Type} {start : α → ℕ}
    {fits : α → ℕ → β → Prop} {rows : List α} {items : List β} {a b : β}
    (h : Describes start fits rows items) (ha : items[i]? = some a)
    (hb : items[i + 1]? = some b)
    (hsame : runIndex start rows i = runIndex start rows (i + 1)) :
    ∃ row, fits row i a ∧ fits row (i + 1) b := by
  obtain ⟨row, hrow, hfits⟩ := h.fits_at i a ha
  obtain ⟨next, hnext, hnextFits⟩ := h.fits_at (i + 1) b hb
  unfold rowAt at hrow hnext
  rw [← hsame, hrow] at hnext
  obtain rfl := Option.some.inj hnext
  exact ⟨row, hfits, hnextFits⟩

theorem Built.chunk_contiguous
    (h : Built (samples.map Sample.size) builder samples)
    (ha : samples[i]? = some a) (hb : samples[i + 1]? = some b)
    (hsame : runIndex ChunkRow.first builder.chunks i =
      runIndex ChunkRow.first builder.chunks (i + 1)) :
    a.offset + a.size = b.offset := by
  obtain ⟨row, ⟨hfirst, hoffset⟩, -, hnext⟩ :=
    exists_shared_row h.chunks ha hb hsame
  have hsize : (samples.map Sample.size)[i]? = some a.size := by
    rw [List.getElem?_map, ha]
    rfl
  have hsum := sum_drop_take_succ hfirst hsize
  omega

theorem Built.time_contiguous (h : Built sizes builder samples)
    (ha : samples[i]? = some a) (hb : samples[i + 1]? = some b)
    (hsame : runIndex TimeRow.first builder.times i =
      runIndex TimeRow.first builder.times (i + 1)) :
    a.duration = b.duration ∧ a.decodeTime + a.duration = b.decodeTime := by
  obtain ⟨row, ⟨hfirst, htime, hduration⟩, -, hnextTime, hnextDuration⟩ :=
    exists_shared_row h.times ha hb hsame
  have hspan : i + 1 - row.first = i - row.first + 1 := by omega
  rw [hspan, Nat.succ_mul] at hnextTime
  constructor
  · omega
  · omega

/-- Offsets that are all zero never start a second row. -/
theorem composition_foldl_of_zero {builder : TableBuilder}
    (hbuilder : builder.composition.map CompositionRow.offset = [] ∨
      builder.composition.map CompositionRow.offset = [0])
    (hzero : ∀ sample ∈ samples, sample.compositionOffset = 0) :
    (samples.foldl TableBuilder.add builder).composition.map
        CompositionRow.offset = [] ∨
      (samples.foldl TableBuilder.add builder).composition.map
        CompositionRow.offset = [0] := by
  induction samples generalizing builder with
  | nil => exact hbuilder
  | cons sample samples ih =>
      obtain ⟨hhead, htail⟩ := List.forall_mem_cons.mp hzero
      apply ih _ htail
      right
      unfold add
      dsimp only
      rw [← List.getLast?_map, hhead]
      rcases hbuilder with hnil | hone
      · rw [hnil, if_neg (by decide), List.map_append, hnil]
        rfl
      · rw [hone, if_pos (by decide)]
        exact hone

theorem composition_nil_iff (samples : List Sample) :
    ((samples.foldl TableBuilder.add .new).finish
        samples.length).composition = [] ↔
      ∀ sample ∈ samples, sample.compositionOffset = 0 := by
  constructor
  · intro hnil sample hmem
    obtain ⟨i, hi⟩ := List.mem_iff_getElem?.mp hmem
    rw [← (built_foldl samples).compositionOffset_eq hi,
      Tables.compositionOffset, hnil]
    rfl
  · intro hzero
    have hrows := @composition_foldl_of_zero samples .new (.inl rfl) hzero
    unfold finish
    dsimp only
    rcases hrows with hnil | hone
    · rw [if_neg (by simp [hnil])]
      exact List.map_eq_nil_iff.mp hnil
    · rw [if_pos hone]

theorem Built.composition_covers (h : Built sizes builder samples) :
    (builder.finish samples.length).composition = [] ∨
      Covers CompositionRow.first
        (builder.finish samples.length).composition samples.length := by
  unfold finish
  dsimp only
  split
  · exact .inl rfl
  · exact .inr h.composition.covers

theorem Built.sync_none_iff (h : Built sizes builder samples) :
    (builder.finish samples.length).sync = none ↔
      ∀ sample ∈ samples, sample.isSync = true := by
  unfold finish
  dsimp only
  rw [h.sync_eq]
  constructor
  · intro hnone sample hmem
    split at hnone
    · next hlength => exact isSync_of_length_eq hlength hmem
    · cases hnone
  · intro hall
    have hfilter : syncPositions samples = List.range samples.length := by
      unfold syncPositions
      rw [List.filter_eq_self]
      intro i hi
      rw [List.getElem?_eq_getElem (List.mem_range.mp hi), Option.any_some]
      exact hall _ (List.getElem_mem _)
    rw [if_pos (by rw [hfilter, List.length_range])]

theorem Built.sync_eq_some (h : Built sizes builder samples) {sync : List ℕ}
    (hsync : (builder.finish samples.length).sync = some sync) :
    sync = syncPositions samples := by
  unfold finish at hsync
  dsimp only at hsync
  split at hsync
  · cases hsync
  · rw [← Option.some.inj hsync, h.sync_eq]

end TableBuilder

open TableBuilder in
/-- The tables built of samples in decode order represent them. -/
theorem SampleIndex.fromSamples_represents (samples : List Sample) :
    (fromSamples samples).tables.Represents samples := by
  have hbuilt := built_foldl samples
  constructor
  · exact hbuilt.sizes_eq
  · exact hbuilt.chunks.covers
  · exact hbuilt.times.covers
  · exact hbuilt.composition_covers
  · intro i a b ha hb hsame
    exact hbuilt.chunk_contiguous ha hb hsame
  · intro i a b ha hb hsame
    exact hbuilt.time_contiguous ha hb hsame
  · exact composition_nil_iff samples
  · exact hbuilt.sync_none_iff
  · intro sync hsync
    have hpositions := hbuilt.sync_eq_some hsync
    exact ⟨hpositions, hpositions ▸ syncPositions_pairwise samples⟩

/-- Building an index of samples loses nothing: reading it in order gives the
samples back, and its tables represent them. -/
theorem samples_survive_index {samples : List Sample}
    (hcount : samples.length ≤ 2 ^ 32)
    (hsorted : samples.Pairwise fun a b => a.decodeTime ≤ b.decodeTime) :
    (SampleIndex.fromSamples samples).iter.collect = samples ∧
      (SampleIndex.fromSamples samples).tables.Represents samples := by
  have hholds := SampleIndex.fromSamples_holds hcount hsorted
  constructor
  · rw [hholds.readable.iter_collect, hholds.all_eq]
  · exact SampleIndex.fromSamples_represents samples

/-- Two chunks, a gap in time, and a sample that is no sync sample. -/
theorem samples_survive_index_gapped :
    (SampleIndex.fromSamples gappedSamples).iter.collect = gappedSamples ∧
      (SampleIndex.fromSamples gappedSamples).tables.Represents
        gappedSamples :=
  samples_survive_index (by decide) (by decide)

end Segmentor
