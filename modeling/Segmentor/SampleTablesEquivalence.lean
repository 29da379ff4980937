import Segmentor.SampleIndexLookups
import Segmentor.SampleTables
import Mathlib.Data.List.Destutter

/-!
# The compact index and the expansion agree

Both readers of the sample tables are folds over the same runs.  For each
table a relation says when the compact rows built so far describe the samples
expanded so far; one run keeps it, or stops both readers with the same error.
-/

namespace Segmentor

open General

/-! ## Positions -/

/-- Samples that follow each other in the file from `offset` on. -/
def layOut : ℕ → List ℕ → List Sample
  | _, [] => []
  | offset, size :: sizes =>
      ⟨offset, size, 0, 0, 0, true⟩ :: layOut (offset + size) sizes

@[simp] theorem length_layOut (offset : ℕ) (sizes : List ℕ) :
    (layOut offset sizes).length = sizes.length := by
  induction sizes generalizing offset with
  | nil => rfl
  | cons size sizes ih => simp [layOut, ih]

theorem getElem?_layOut (offset : ℕ) (sizes : List ℕ) (k : ℕ) :
    (layOut offset sizes)[k]? = sizes[k]?.map fun size =>
      ⟨offset + (sizes.take k).sum, size, 0, 0, 0, true⟩ := by
  induction sizes generalizing offset k with
  | nil => simp [layOut]
  | cons size sizes ih =>
      cases k with
      | zero => simp [layOut]
      | succ k => simp [layOut, ih, Nat.add_assoc]

theorem layOut_any_beyond {offset : ℕ} {sizes : List ℕ} (hne : sizes ≠ [])
    (sourceLen : ℕ) :
    ((layOut offset sizes).any fun sample =>
        decide (sourceLen < sample.offset + sample.size)) =
      decide (sourceLen < offset + sizes.sum) := by
  induction sizes generalizing offset with
  | nil => exact absurd rfl hne
  | cons size sizes ih =>
      rw [layOut, List.any_cons, List.sum_cons, Bool.eq_iff_iff,
        Bool.or_eq_true, decide_eq_true_eq, decide_eq_true_eq]
      by_cases hnil : sizes = []
      · simp [hnil, layOut]
      · rw [ih hnil, decide_eq_true_eq]
        dsimp only
        omega

theorem foldlM_checkedAdd_eq_some {offset stop : ℕ} {sizes : List ℕ}
    (hrun : sizes.foldlM (checkedAdd (2 ^ 64)) offset = some stop) :
    stop = offset + sizes.sum ∧ (sizes ≠ [] → stop < 2 ^ 64) := by
  induction sizes generalizing offset with
  | nil => simpa [eq_comm] using hrun
  | cons size sizes ih =>
      rw [List.foldlM_cons, Option.bind_eq_bind, Option.bind_eq_some_iff]
        at hrun
      obtain ⟨next, hnext, hrest⟩ := hrun
      rw [checkedAdd_eq_some_iff] at hnext
      obtain ⟨hstop, hlt⟩ := ih hrest
      rw [List.sum_cons]
      refine ⟨by omega, fun _ => ?_⟩
      by_cases hnil : sizes = []
      · simp only [hnil, List.sum_nil] at hstop
        omega
      · exact hlt hnil

theorem layOut_fits {offset : ℕ} {sizes : List ℕ}
    (hlt : sizes ≠ [] → offset + sizes.sum < 2 ^ 64) {sample : Sample}
    (hmem : sample ∈ layOut offset sizes) :
    sample.offset + sample.size < 2 ^ 64 := by
  have hne : sizes ≠ [] := by
    rintro rfl
    simp [layOut] at hmem
  by_contra hge
  have hany := @layOut_any_beyond offset _ hne (2 ^ 64 - 1)
  rw [decide_eq_false (by have := hlt hne; omega), List.any_eq_false] at hany
  have := hany sample hmem
  simp at this
  omega

@[simp] theorem SampleSizes.length_expand (sizes : SampleSizes) :
    sizes.expand.length = sizes.count := by
  cases sizes <;> simp [expand, count]

theorem SampleSizes.getElem?_expand {sizes : SampleSizes} {index : ℕ}
    (hindex : index < sizes.count) :
    sizes.expand[index]? = some (sizes.sizeOf index) := by
  cases sizes with
  | constant size total =>
      simp only [count] at hindex
      simp [expand, sizeOf, hindex]
  | table sizes =>
      simp only [count] at hindex
      simp [expand, sizeOf, hindex]

/-- The sizes of the next `remaining` samples, or of those that are left. -/
abbrev nextSizes (sizes : List ℕ) (mapped remaining : ℕ) : List ℕ :=
  (sizes.drop mapped).take remaining

/-- Placing the samples of a chunk one by one lays out the sizes left for
it. -/
theorem placeSamples_eq {sizes : SampleSizes} (remaining offset : ℕ)
    {samples : List Sample} (hle : samples.length ≤ sizes.count) :
    placeSamples sizes sizes.count remaining offset samples = (do
      let _ ← okOr
        ((nextSizes sizes.expand samples.length remaining).foldlM
          (checkedAdd (2 ^ 64)) offset)
        (invalidMedia "sample offset overflow")
      if (nextSizes sizes.expand samples.length remaining).length <
          remaining then
        .error (invalidMedia "stsc maps more samples than stsz")
      else .ok (samples ++
        layOut offset (nextSizes sizes.expand samples.length remaining))) := by
  induction remaining generalizing offset samples with
  | zero => simp [placeSamples, nextSizes, layOut, pure]
  | succ remaining ih =>
      unfold placeSamples
      by_cases hfull : samples.length = sizes.count
      · have hnone : sizes.expand.drop samples.length = [] :=
          List.drop_eq_nil_of_le (by simp [hfull])
        rw [if_pos hfull, nextSizes, hnone, List.take_nil, List.foldlM_nil]
        simp [pure]
      · have hlt : samples.length < sizes.count := by omega
        have hdrop : sizes.expand.drop samples.length =
            sizes.sizeOf samples.length ::
              sizes.expand.drop (samples.length + 1) := by
          rw [List.drop_eq_getElem?_toList_append,
            SampleSizes.getElem?_expand hlt]
          rfl
        rw [if_neg hfull]
        simp only [nextSizes, hdrop, List.take_succ_cons, List.foldlM_cons,
          Option.bind_eq_bind]
        cases hnext : checkedAdd (2 ^ 64) offset
            (sizes.sizeOf samples.length) with
        | none => simp
        | some next =>
            have hsum := (checkedAdd_eq_some_iff.mp hnext).2
            simp only [okOr_some, ok_bind, Option.bind_some]
            rw [ih next (by simpa using hlt)]
            simp [nextSizes, layOut, hsum]

namespace Chunks

theorem push_offset {chunks : Chunks} {offsets : List ℕ} {chunkIndex offset : ℕ}
    (hoffset : offsets[chunkIndex]? = some offset) (stop sourceLen : ℕ) :
    (chunks.push offsets chunkIndex offset stop sourceLen).offset offsets =
      chunks.offset offsets ++ [offset] := by
  unfold Chunks.offset push
  cases chunks.copied with
  | some copied => rfl
  | none =>
      by_cases hnext : chunkIndex = chunks.first.length
      · subst hnext
        simp [List.take_add_one, hoffset]
      · simp [hnext]

theorem push_rows {chunks : Chunks} {offsets : List ℕ} {chunkIndex offset : ℕ}
    (hoffset : offsets[chunkIndex]? = some offset)
    (haligned : (chunks.offset offsets).length = chunks.first.length)
    (stop sourceLen : ℕ) :
    (chunks.push offsets chunkIndex offset stop sourceLen).rows offsets =
      chunks.rows offsets ++ [⟨chunks.mapped, offset⟩] := by
  unfold rows
  rw [push_offset hoffset]
  exact List.zipWith_append haligned.symm

end Chunks

/-- The chunk rows built so far describe the samples placed so far. -/
structure ChunksMatch (offsets sizes : List ℕ) (sourceLen : ℕ)
    (chunks : Chunks) (samples : List Sample) : Prop where
  mapped : chunks.mapped = samples.length
  length_le : samples.length ≤ sizes.length
  aligned : (chunks.offset offsets).length = chunks.first.length
  covers : Covers ChunkRow.first (chunks.rows offsets) samples.length
  sample : ∀ i, i < samples.length → ∃ row,
    rowAt ChunkRow.first (chunks.rows offsets) i = some row ∧
    samples[i]? = some ⟨row.offset + ((sizes.take i).drop row.first).sum,
      sizes[i]?.getD 0, 0, 0, 0, true⟩
  fits : ∀ sample ∈ samples, sample.offset + sample.size < 2 ^ 64
  beyond : chunks.beyondSource =
    if samples.any fun sample =>
        decide (sourceLen < sample.offset + sample.size) then
      some "sample byte range exceeds source length"
    else none

theorem ChunksMatch.start (offsets sizes : List ℕ) (sourceLen : ℕ) :
    ChunksMatch offsets sizes sourceLen ⟨[], none, none, 0⟩ [] := by
  have hrows : Chunks.rows ⟨[], none, none, 0⟩ offsets = [] := rfl
  refine ⟨rfl, by simp, rfl, ?_, by simp, by simp, rfl⟩
  rw [hrows]
  exact .nil

/-- A chunk of at least one sample keeps the rows and the samples matched. -/
theorem ChunksMatch.push {offsets sizes : List ℕ} {sourceLen : ℕ}
    {chunks : Chunks} {samples : List Sample} {chunkIndex offset stop count : ℕ}
    (h : ChunksMatch offsets sizes sourceLen chunks samples)
    (hoffset : offsets[chunkIndex]? = some offset) (hcount : 0 < count)
    (hlength : (nextSizes sizes samples.length count).length = count)
    (hstop : (nextSizes sizes samples.length count).foldlM
      (checkedAdd (2 ^ 64)) offset = some stop) :
    ChunksMatch offsets sizes sourceLen
      { chunks.push offsets chunkIndex offset stop sourceLen with
        mapped := chunks.mapped + count }
      (samples ++ layOut offset (nextSizes sizes samples.length count)) := by
  obtain ⟨hsum, hlt⟩ := foldlM_checkedAdd_eq_some hstop
  have hne : nextSizes sizes samples.length count ≠ [] := by
    intro hnil
    simp [hnil] at hlength
    omega
  have hrows : ({ chunks.push offsets chunkIndex offset stop sourceLen with
      mapped := chunks.mapped + count } : Chunks).rows offsets =
      chunks.rows offsets ++ [⟨samples.length, offset⟩] := by
    rw [← h.mapped, ← Chunks.push_rows hoffset h.aligned stop sourceLen]
    rfl
  have htotal : (samples ++
      layOut offset (nextSizes sizes samples.length count)).length =
      samples.length + count := by
    simp [hlength]
  have hfits : samples.length + count ≤ sizes.length := by
    simp only [nextSizes, List.length_take, List.length_drop] at hlength
    omega
  refine ⟨?_, ?_, ?_, ?_, ?_, ?_, ?_⟩
  · rw [htotal, ← h.mapped]
  · rw [htotal]
    exact hfits
  · have halign := h.aligned
    have := @Chunks.push_offset chunks _ _ _ hoffset stop sourceLen
    change ((chunks.push offsets chunkIndex offset stop sourceLen).offset
      offsets).length = (chunks.first ++ [chunks.mapped]).length
    simp [this, halign]
  · rw [hrows, htotal]
    exact h.covers.append rfl (by omega)
  · intro i hi
    rw [htotal] at hi
    rw [hrows]
    by_cases hold : i < samples.length
    · rw [h.covers.rowAt_append_of_lt rfl hold,
        List.getElem?_append_left hold]
      exact h.sample i hold
    · obtain ⟨k, rfl⟩ := Nat.exists_eq_add_of_le (Nat.le_of_not_lt hold)
      have hk : k < count := by omega
      have hsize : sizes[samples.length + k]? =
          some sizes[samples.length + k] :=
        List.getElem?_eq_getElem (by omega)
      refine ⟨_, h.covers.rowAt_append_of_le rfl (Nat.le_add_right _ k), ?_⟩
      rw [List.getElem?_append_right (by omega), Nat.add_sub_cancel_left,
        getElem?_layOut, List.getElem?_take_of_lt hk, List.getElem?_drop,
        hsize, List.take_take, Nat.min_eq_left hk.le, List.drop_take,
        Nat.add_sub_cancel_left]
      rfl
  · intro sample hmem
    rcases List.mem_append.mp hmem with hold | hnew
    · exact h.fits sample hold
    · exact layOut_fits (fun hne => hsum ▸ hlt hne) hnew
  · have hbeyond := h.beyond
    rw [List.any_append, layOut_any_beyond hne, ← hsum]
    simp only [Chunks.push]
    rw [hbeyond]
    by_cases hstop : sourceLen < stop
    · by_cases hany : (samples.any fun sample =>
          decide (sourceLen < sample.offset + sample.size)) = true
      · simp [hany]
      · simp [hany, hstop]
    · simp [hstop]

/-- One chunk of the file: both readers stop alike, or keep their results
matched. -/
theorem ChunksMatch.step {tables : SampleTables} {sourceLen : ℕ}
    {chunks : Chunks} {samples : List Sample} {samplesPerChunk : ℕ}
    (h : ChunksMatch tables.chunkOffsets tables.sizes.expand sourceLen
      chunks samples) (hpos : 0 < samplesPerChunk) (chunkNumber : ℕ) :
    Agree (ChunksMatch tables.chunkOffsets tables.sizes.expand sourceLen)
      (Chunks.step tables.chunkOffsets tables.sizes.expand sourceLen
        samplesPerChunk chunks chunkNumber)
      (positionsStep tables tables.sizes.count samplesPerChunk samples
        chunkNumber) := by
  have hle : samples.length ≤ tables.sizes.count := by
    simpa using h.length_le
  unfold Chunks.step positionsStep
  cases hoffset : tables.chunkOffsets[chunkNumber - 1]? with
  | none =>
      simp only [hoffset, okOr_none, error_bind]
      exact .error _
  | some offset =>
      simp only [hoffset, okOr_some, ok_bind]
      rw [placeSamples_eq _ _ hle]
      have htake : min samplesPerChunk
          (tables.sizes.expand.length - chunks.mapped) =
          (nextSizes tables.sizes.expand samples.length
            samplesPerChunk).length := by
        simp [h.mapped]
      have hsizes : (tables.sizes.expand.drop chunks.mapped).take
          (min samplesPerChunk
            (tables.sizes.expand.length - chunks.mapped)) =
          nextSizes tables.sizes.expand samples.length samplesPerChunk := by
        rw [htake, h.mapped, nextSizes]
        simp [List.take_eq_take_iff]
      rw [hsizes, htake]
      cases hstop : (nextSizes tables.sizes.expand samples.length
          samplesPerChunk).foldlM (checkedAdd (2 ^ 64)) offset with
      | none =>
          simp only [okOr_none, error_bind]
          exact .error _
      | some stop =>
          simp only [okOr_some, ok_bind]
          by_cases hshort : (nextSizes tables.sizes.expand samples.length
              samplesPerChunk).length < samplesPerChunk
          · rw [if_pos hshort, if_pos hshort]
            exact .error _
          · have hlength : (nextSizes tables.sizes.expand samples.length
                samplesPerChunk).length = samplesPerChunk :=
              Nat.le_antisymm (by simp) (by omega)
            rw [if_neg hshort, if_neg hshort, hlength, if_pos hpos]
            exact .ok (h.push hoffset hpos hlength hstop)

/-- Two loops over `stsc` whose bodies agree on every chunk agree. -/
theorem forChunks_agree {σ τ : Type} {R : σ → τ → Prop} {chunkCount : ℕ}
    {f : ℕ → σ → ℕ → Result σ} {g : ℕ → τ → ℕ → Result τ}
    (hbody : ∀ samplesPerChunk, 0 < samplesPerChunk → ∀ s t n, R s t →
      Agree R (f samplesPerChunk s n) (g samplesPerChunk t n))
    (entries : List (ℕ × ℕ)) {s : σ} {t : τ} (hst : R s t) :
    Agree R (forChunks chunkCount f entries s)
      (forChunks chunkCount g entries t) := by
  induction entries generalizing s t with
  | nil => exact .ok hst
  | cons entry rest ih =>
      obtain ⟨firstChunk, samplesPerChunk⟩ := entry
      unfold forChunks
      by_cases hzero : firstChunk = 0 ∨ samplesPerChunk = 0
      · rw [if_pos hzero, if_pos hzero]
        exact .error _
      · rw [if_neg hzero, if_neg hzero]
        have hfold : Agree R
            ((chunkNumbers firstChunk chunkCount rest).foldlM
              (f samplesPerChunk) s)
            ((chunkNumbers firstChunk chunkCount rest).foldlM
              (g samplesPerChunk) t) :=
          Agree.foldlM
            (fun n _ s t => hbody samplesPerChunk (by omega) s t n) hst
        exact hfold.bind fun _ _ h => ih h

theorem chunks_agree (tables : SampleTables) (sourceLen : ℕ) :
    Agree
      (fun chunks samples =>
        ChunksMatch tables.chunkOffsets tables.sizes.expand sourceLen chunks
          samples ∧ samples.length = tables.sizes.count)
      (chunks tables.sampleToChunk tables.chunkOffsets tables.sizes.expand
        sourceLen)
      (samplePositions tables tables.sizes.count) := by
  unfold chunks samplePositions
  by_cases hempty : tables.sampleToChunk.isEmpty = true
  · rw [if_pos hempty, if_pos hempty]
    exact .error _
  · rw [if_neg hempty, if_neg hempty]
    refine (forChunks_agree (fun _ hpos s t n h => h.step hpos n) _
      (ChunksMatch.start tables.chunkOffsets tables.sizes.expand
        sourceLen)).bind fun chunks samples h => ?_
    have hmapped : chunks.mapped ≠ tables.sizes.expand.length ↔
        samples.length ≠ tables.sizes.count := by
      rw [h.mapped, SampleSizes.length_expand]
    by_cases hshort : samples.length = tables.sizes.count
    · rw [if_neg (by rw [hmapped]; simpa using hshort), if_neg (by simpa)]
      exact .ok ⟨h, hshort⟩
    · rw [if_pos (hmapped.mpr hshort), if_pos hshort]
      exact .error _

/-! ## Times -/

theorem setTimes_eq {delta : ℕ} (remaining position : ℕ)
    (samples : List Sample) {decodeTime : ℕ} (hfits : decodeTime < 2 ^ 64) :
    (2 ^ 64 ≤ decodeTime + remaining * delta →
      setTimes delta remaining position samples decodeTime =
        .error (invalidMedia "decode timestamp overflow")) ∧
    (decodeTime + remaining * delta < 2 ^ 64 → ∃ timed,
      setTimes delta remaining position samples decodeTime =
        .ok (timed, decodeTime + remaining * delta) ∧
      timed.length = samples.length ∧
      ∀ i, timed[i]? =
        if position ≤ i ∧ i < position + remaining then
          samples[i]?.map fun sample =>
            { sample with
              decodeTime := decodeTime + (i - position) * delta
              duration := delta }
        else samples[i]?) := by
  induction remaining generalizing position samples decodeTime with
  | zero =>
      refine ⟨by omega, fun _ => ⟨samples, by simp [setTimes], rfl, ?_⟩⟩
      intro i
      rw [if_neg (by omega)]
  | succ remaining ih =>
      have hspan : decodeTime + (remaining + 1) * delta =
          decodeTime + delta + remaining * delta := by ring
      unfold setTimes
      rw [hspan]
      by_cases hnext : decodeTime + delta < 2 ^ 64
      · have hadd : checkedAdd (2 ^ 64) decodeTime delta =
            some (decodeTime + delta) :=
          checkedAdd_eq_some_iff.mpr ⟨hnext, rfl⟩
        simp only [hadd, okOr_some, ok_bind]
        obtain ⟨hover, hok⟩ := ih (position + 1)
          (samples.modify position fun sample =>
            { sample with decodeTime := decodeTime, duration := delta }) hnext
        refine ⟨hover, fun hlt => ?_⟩
        obtain ⟨timed, hrun, hlength, htimed⟩ := hok hlt
        refine ⟨timed, hrun, by simpa using hlength, fun i => ?_⟩
        rw [htimed i, List.getElem?_modify]
        rcases Nat.lt_trichotomy i position with hlt' | rfl | hgt
        · rw [if_neg (by omega), if_neg (by omega)]
          simp [show position ≠ i by omega]
        · rw [if_neg (by omega), if_pos (by omega)]
          simp
        · by_cases hin : i < position + 1 + remaining
          · have hoffset : decodeTime + delta + (i - (position + 1)) * delta =
                decodeTime + (i - position) * delta := by
              rw [show i - position = i - (position + 1) + 1 by omega]
              ring
            rw [if_pos (by omega), if_pos (by omega), hoffset]
            simp [show position ≠ i by omega]
          · rw [if_neg (by omega), if_neg (by omega)]
            simp [show position ≠ i by omega]
      · have hadd : checkedAdd (2 ^ 64) decodeTime delta = none :=
          checkedAdd_eq_none_iff.mpr (by omega)
        simp only [hadd, okOr_none, error_bind]
        exact ⟨fun _ => trivial, fun hlt => absurd hlt (by omega)⟩

/-- The timing rows built so far describe the samples timed so far. -/
structure TimesMatch (base : List Sample) (timing : TimingRuns)
    (timed : TimedSamples) : Prop where
  position : timed.position = timing.position
  decodeTime : timed.decodeTime = timing.decodeTime
  length : timed.samples.length = base.length
  position_le : timing.position ≤ base.length
  fits : timing.decodeTime < 2 ^ 64
  covers : Covers TimeRow.first timing.rows timing.position
  durations_lt : ∀ row ∈ timing.rows, row.duration < 2 ^ 32
  chained : ∀ i a b, timing.rows[i]? = some a → timing.rows[i + 1]? = some b →
    a.start + (b.first - a.first) * a.duration = b.start
  last : ∀ a, timing.rows.getLast? = some a →
    a.start + (timing.position - a.first) * a.duration = timing.decodeTime
  sample : ∀ i, i < timing.position → ∃ row,
    rowAt TimeRow.first timing.rows i = some row ∧
    timed.samples[i]? = base[i]?.map fun sample =>
      { sample with
        decodeTime := row.start + (i - row.first) * row.duration
        duration := row.duration }
  rest : ∀ i, timing.position ≤ i → timed.samples[i]? = base[i]?

theorem TimesMatch.start (base : List Sample) :
    TimesMatch base ⟨[], 0, 0⟩ ⟨base, 0, 0⟩ where
  position := rfl
  decodeTime := rfl
  length := rfl
  position_le := Nat.zero_le _
  fits := by decide
  covers := .nil
  durations_lt := by simp
  chained := by simp
  last := by simp
  sample := by simp
  rest _ _ := rfl

/-- A run of at least one sample keeps the rows and the samples matched. -/
theorem TimesMatch.push {base timedSamples : List Sample} {timing : TimingRuns}
    {timed : TimedSamples} {run delta : ℕ} (h : TimesMatch base timing timed)
    (hrun : 0 < run) (hroom : timing.position + run ≤ base.length)
    (hdelta : delta < 2 ^ 32)
    (hfits : timing.decodeTime + run * delta < 2 ^ 64)
    (hlength : timedSamples.length = timed.samples.length)
    (htimed : ∀ i, timedSamples[i]? =
      if timing.position ≤ i ∧ i < timing.position + run then
        timed.samples[i]?.map fun sample =>
          { sample with
            decodeTime :=
              timing.decodeTime + (i - timing.position) * delta
            duration := delta }
      else timed.samples[i]?) :
    TimesMatch base
      { rows := timing.rows ++ [⟨timing.position, timing.decodeTime, delta⟩]
        decodeTime := timing.decodeTime + run * delta
        position := timing.position + run }
      ⟨timedSamples, timing.decodeTime + run * delta,
        timing.position + run⟩ where
  position := rfl
  decodeTime := rfl
  length := hlength.trans h.length
  position_le := hroom
  fits := hfits
  covers := h.covers.append rfl (Nat.lt_add_of_pos_right hrun)
  durations_lt row hrow := by
    rcases List.mem_append.mp hrow with hold | hnew
    · exact h.durations_lt row hold
    · obtain rfl : row = _ := by simpa using hnew
      exact hdelta
  chained i a b ha hb := by
    have hi : i < timing.rows.length := by
      have := (List.getElem?_eq_some_iff.mp hb).1
      simp at this
      omega
    rw [List.getElem?_append_left hi] at ha
    by_cases hlast : i + 1 < timing.rows.length
    · rw [List.getElem?_append_left hlast] at hb
      exact h.chained i a b ha hb
    · have hend : i + 1 = timing.rows.length := by omega
      rw [List.getElem?_append_right (by omega), hend, Nat.sub_self] at hb
      obtain rfl : _ = b := by simpa using hb
      refine h.last a ?_
      rw [List.getLast?_eq_getElem?, ← hend]
      exact ha
  last a ha := by
    obtain rfl : _ = a := by simpa using ha
    simp
  sample i hi := by
    by_cases hold : i < timing.position
    · rw [h.covers.rowAt_append_of_lt rfl hold, htimed i, if_neg (by omega)]
      exact h.sample i hold
    · have hle : timing.position ≤ i := by omega
      refine ⟨_, h.covers.rowAt_append_of_le rfl hle, ?_⟩
      rw [htimed i, if_pos ⟨hle, hi⟩, h.rest i hle]
  rest i hi := by
    change timing.position + run ≤ i at hi
    rw [htimed i, if_neg (by omega)]
    exact h.rest i (by omega)

theorem TimesMatch.step {base : List Sample} {timing : TimingRuns}
    {timed : TimedSamples} {run : ℕ × ℕ} (h : TimesMatch base timing timed)
    (hdelta : run.2 < 2 ^ 32) :
    Agree (TimesMatch base) (TimingRuns.step base.length timing run)
      (TimedSamples.step timed run) := by
  obtain ⟨count, delta⟩ := run
  unfold TimingRuns.step TimedSamples.step
  rw [h.length, h.position, h.decodeTime]
  by_cases hroom : base.length < timing.position + count
  · rw [if_pos hroom, if_pos hroom]
    exact .error _
  rw [if_neg hroom, if_neg hroom]
  obtain ⟨hover, hok⟩ := @setTimes_eq delta count timing.position timed.samples
    _ h.fits
  by_cases hcount : count = 0
  · subst hcount
    rw [if_pos rfl]
    simp only [setTimes, ok_bind, Nat.add_zero]
    have hsame : timed = ⟨timed.samples, timing.decodeTime, timing.position⟩ := by
      rw [← h.decodeTime, ← h.position]
    rw [← hsame]
    exact .ok h
  rw [if_neg hcount]
  by_cases hfits : timing.decodeTime + count * delta < 2 ^ 64
  · have hmul : checkedMul (2 ^ 64) count delta = some (count * delta) :=
      checkedMul_eq_some_iff.mpr ⟨by omega, rfl⟩
    have hadd : checkedAdd (2 ^ 64) timing.decodeTime (count * delta) =
        some (timing.decodeTime + count * delta) :=
      checkedAdd_eq_some_iff.mpr ⟨hfits, rfl⟩
    obtain ⟨timedSamples, hset, hlength, htimed⟩ := hok hfits
    simp only [hmul, hset, Option.bind_some, hadd, okOr_some, ok_bind]
    exact .ok (h.push (Nat.pos_of_ne_zero hcount) (by omega) hdelta hfits
      hlength htimed)
  · have hnone : (checkedMul (2 ^ 64) count delta).bind
        (checkedAdd (2 ^ 64) timing.decodeTime) = none := by
      rw [Option.bind_eq_none_iff]
      intro span hspan
      rw [checkedMul_eq_some_iff] at hspan
      rw [checkedAdd_eq_none_iff]
      omega
    simp only [hnone, hover (by omega), okOr_none, error_bind]
    exact .error _

theorem timingRuns_agree {base : List Sample} {runs : List (ℕ × ℕ)}
    (hdeltas : ∀ run ∈ runs, run.2 < 2 ^ 32) :
    Agree
      (fun rows samples => ∃ timing : TimingRuns, ∃ timed : TimedSamples,
        TimesMatch base timing timed ∧ timing.position = base.length ∧
        timing.rows = rows ∧ timed.samples = samples)
      (timingRuns runs base.length) (applyTimes base runs) := by
  unfold timingRuns applyTimes
  refine (Agree.foldlM (fun run hrun _ _ h => h.step (hdeltas run hrun))
    (TimesMatch.start base)).bind fun timing timed h => ?_
  rw [h.position, h.length]
  by_cases hend : timing.position = base.length
  · rw [if_neg (by simpa using hend), if_neg (by simpa using hend)]
    exact .ok ⟨timing, timed, h, hend, rfl, rfl⟩
  · rw [if_pos hend, if_pos hend]
    exact .error _

/-! ## Composition offsets -/

theorem setOffsets_spec {offset : ℤ} (remaining position : ℕ)
    (samples : List Sample) :
    (setOffsets offset remaining position samples).length = samples.length ∧
    ∀ i, (setOffsets offset remaining position samples)[i]? =
      if position ≤ i ∧ i < position + remaining then
        samples[i]?.map fun sample =>
          { sample with compositionOffset := offset }
      else samples[i]? := by
  induction remaining generalizing position samples with
  | zero =>
      refine ⟨rfl, fun i => ?_⟩
      rw [if_neg (by omega)]
      rfl
  | succ remaining ih =>
      unfold setOffsets
      obtain ⟨hlength, hset⟩ := ih (position + 1)
        (samples.modify position fun sample =>
          { sample with compositionOffset := offset })
      refine ⟨by simpa using hlength, fun i => ?_⟩
      rw [hset i, List.getElem?_modify]
      rcases Nat.lt_trichotomy i position with hlt | rfl | hgt
      · rw [if_neg (by omega), if_neg (by omega)]
        simp [show position ≠ i by omega]
      · rw [if_neg (by omega), if_pos (by omega)]
        simp
      · have hin : position + 1 ≤ i ∧ i < position + 1 + remaining ↔
            position ≤ i ∧ i < position + (remaining + 1) := by omega
        simp only [hin]
        simp [show position ≠ i by omega]

/-- The composition rows built so far describe the samples set so far. -/
structure CompositionMatch (base : List Sample) (runs : CompositionRuns)
    (composed : ComposedSamples) : Prop where
  position : composed.position = runs.position
  length : composed.samples.length = base.length
  position_le : runs.position ≤ base.length
  covers : Covers CompositionRow.first runs.rows runs.position
  range : ∀ row ∈ runs.rows, -2 ^ 31 ≤ row.offset ∧ row.offset < 2 ^ 31
  sample : ∀ i, i < runs.position → ∃ row,
    rowAt CompositionRow.first runs.rows i = some row ∧
    composed.samples[i]? = base[i]?.map fun sample =>
      { sample with compositionOffset := row.offset }
  rest : ∀ i, runs.position ≤ i → composed.samples[i]? = base[i]?

theorem CompositionMatch.start (base : List Sample) :
    CompositionMatch base ⟨[], 0⟩ ⟨base, 0⟩ where
  position := rfl
  length := rfl
  position_le := Nat.zero_le _
  covers := .nil
  range := by simp
  sample := by simp
  rest _ _ := rfl

theorem CompositionMatch.push {base : List Sample} {runs : CompositionRuns}
    {composed : ComposedSamples} {count : ℕ} {offset : ℤ}
    (h : CompositionMatch base runs composed) (hcount : 0 < count)
    (hroom : runs.position + count ≤ base.length)
    (hrange : -2 ^ 31 ≤ offset ∧ offset < 2 ^ 31) :
    CompositionMatch base
      ⟨runs.rows ++ [⟨runs.position, offset⟩], runs.position + count⟩
      ⟨setOffsets offset count runs.position composed.samples,
        runs.position + count⟩ := by
  obtain ⟨hlength, hset⟩ :=
    @setOffsets_spec offset count runs.position composed.samples
  exact
    { position := rfl
      length := hlength.trans h.length
      position_le := hroom
      covers := h.covers.append rfl (Nat.lt_add_of_pos_right hcount)
      range := fun row hrow => by
        rcases List.mem_append.mp hrow with hold | hnew
        · exact h.range row hold
        · obtain rfl : row = _ := by simpa using hnew
          exact hrange
      sample := fun i hi => by
        by_cases hold : i < runs.position
        · rw [h.covers.rowAt_append_of_lt rfl hold, hset i,
            if_neg (by omega)]
          exact h.sample i hold
        · have hle : runs.position ≤ i := by omega
          refine ⟨_, h.covers.rowAt_append_of_le rfl hle, ?_⟩
          rw [hset i, if_pos ⟨hle, hi⟩, h.rest i hle]
      rest := fun i hi => by
        change runs.position + count ≤ i at hi
        rw [hset i, if_neg (by omega)]
        exact h.rest i (by omega) }

theorem CompositionMatch.step {base : List Sample} {runs : CompositionRuns}
    {composed : ComposedSamples} {run : ℕ × ℤ}
    (h : CompositionMatch base runs composed)
    (hrange : -2 ^ 31 ≤ run.2 ∧ run.2 < 2 ^ 31) :
    Agree (CompositionMatch base) (CompositionRuns.step base.length runs run)
      (ComposedSamples.step composed run) := by
  obtain ⟨count, offset⟩ := run
  unfold CompositionRuns.step ComposedSamples.step
  rw [h.length, h.position]
  by_cases hroom : base.length < runs.position + count
  · rw [if_pos hroom, if_pos hroom]
    exact .error _
  rw [if_neg hroom, if_neg hroom]
  by_cases hcount : count = 0
  · subst hcount
    rw [if_pos rfl]
    have hsame : composed = ⟨composed.samples, runs.position⟩ := by
      rw [← h.position]
    simp only [setOffsets, Nat.add_zero]
    rw [← hsame]
    exact .ok h
  · rw [if_neg hcount]
    exact .ok (h.push (Nat.pos_of_ne_zero hcount) (by omega) hrange)

theorem compositionRuns_agree {base : List Sample} {runs : List (ℕ × ℤ)}
    (hrange : ∀ run ∈ runs, -2 ^ 31 ≤ run.2 ∧ run.2 < 2 ^ 31) :
    Agree
      (fun rows samples =>
        Covers CompositionRow.first rows base.length ∧
        (∀ row ∈ rows, -2 ^ 31 ≤ row.offset ∧ row.offset < 2 ^ 31) ∧
        samples.length = base.length ∧
        ∀ i, i < base.length → ∃ row,
          rowAt CompositionRow.first rows i = some row ∧
          samples[i]? = base[i]?.map fun sample =>
            { sample with compositionOffset := row.offset })
      (compositionRuns runs base.length) (applyComposition base runs) := by
  unfold compositionRuns applyComposition
  refine (Agree.foldlM (fun run hrun _ _ h => h.step (hrange run hrun))
    (CompositionMatch.start base)).bind fun composition composed h => ?_
  rw [h.position, h.length]
  by_cases hend : composition.position = base.length
  · rw [if_neg (by simpa using hend), if_neg (by simpa using hend)]
    exact .ok ⟨hend ▸ h.covers, h.range, h.length, hend ▸ h.sample⟩
  · rw [if_pos hend, if_pos hend]
    exact .error _

/-! ## Sync samples -/

theorem markSync_spec (samples : List Sample) (number : ℕ) :
    (markSync samples number).length = samples.length ∧
    ∀ i : ℕ, (markSync samples number)[i]? = samples[i]?.map fun sample =>
      { sample with isSync := sample.isSync || decide (i + 1 = number) } := by
  unfold markSync
  cases number with
  | zero =>
      have hnone : checkedSub 0 1 = none := rfl
      simp [hnone]
  | succ index =>
      have hsome : checkedSub (index + 1) 1 = some index := by simp
      rw [hsome, Option.elim_some]
      refine ⟨List.length_modify .., fun i => ?_⟩
      rw [List.getElem?_modify]
      by_cases hi : index = i
      · simp [hi]
      · simp [hi, show i ≠ index from fun h => hi h.symm]

theorem foldl_markSync_spec (numbers : List ℕ) (samples : List Sample) :
    (numbers.foldl markSync samples).length = samples.length ∧
    ∀ i : ℕ, (numbers.foldl markSync samples)[i]? =
      samples[i]?.map fun sample =>
        { sample with
          isSync := sample.isSync || decide (i + 1 ∈ numbers) } := by
  induction numbers generalizing samples with
  | nil => simp
  | cons number numbers ih =>
      obtain ⟨hlength, hmark⟩ := markSync_spec samples number
      obtain ⟨hlen, hrest⟩ := ih (markSync samples number)
      refine ⟨hlen.trans hlength, fun i => ?_⟩
      rw [List.foldl_cons, hrest i, hmark i, Option.map_map]
      congr 1
      funext sample
      simp [Bool.or_assoc]

theorem applySync_spec (samples : List Sample) (numbers : List ℕ) :
    (applySync samples numbers).length = samples.length ∧
    ∀ i : ℕ, (applySync samples numbers)[i]? = samples[i]?.map fun sample =>
      { sample with isSync := decide (i + 1 ∈ numbers) } := by
  obtain ⟨hlength, hall⟩ := foldl_markSync_spec numbers
    (samples.map fun sample => { sample with isSync := false })
  refine ⟨by simpa [applySync] using hlength, fun i => ?_⟩
  unfold applySync
  rw [hall i, List.getElem?_map, Option.map_map]
  congr 1

private theorem mergeSort_le_pairwise (l : List ℕ) :
    (l.mergeSort fun a b => decide (a ≤ b)).Pairwise (· ≤ ·) := by
  have h := @List.pairwise_mergeSort _ (fun a b : ℕ => decide (a ≤ b))
    (by simpa using fun a b c => Nat.le_trans)
    (by simpa using Nat.le_total) l
  simpa using h

theorem syncSamples_eq (numbers : List ℕ) (sampleCount : ℕ) :
    (syncSamples numbers sampleCount).Pairwise (· < ·) ∧
    ∀ index, index ∈ syncSamples numbers sampleCount ↔
      index + 1 ∈ numbers ∧ index < sampleCount := by
  unfold syncSamples
  generalize hkept : ((numbers.filterMap fun number => checkedSub number 1).filter
    fun index => decide (index < sampleCount)) = kept
  have hmem : ∀ index, index ∈ kept ↔
      index + 1 ∈ numbers ∧ index < sampleCount := by
    intro index
    rw [← hkept, List.mem_filter, List.mem_filterMap, decide_eq_true_eq]
    refine and_congr_left fun _ => ?_
    constructor
    · rintro ⟨number, hnumber, hsub⟩
      obtain ⟨hle, rfl⟩ := checkedSub_eq_some_iff.mp hsub
      rwa [Nat.sub_add_cancel hle]
    · intro hnumber
      exact ⟨index + 1, hnumber, by simp⟩
  have hsorted := mergeSort_le_pairwise kept
  rw [hsorted.destutter_eq_dedup]
  constructor
  · have hnodup := List.nodup_dedup (kept.mergeSort fun a b => decide (a ≤ b))
    have hle := hsorted.sublist
      (List.dedup_sublist (kept.mergeSort fun a b => decide (a ≤ b)))
    exact (hle.and hnodup).imp fun ⟨hle, hne⟩ => Nat.lt_of_le_of_ne hle hne
  · intro index
    rw [List.mem_dedup, List.mem_mergeSort, hmem]

/-- With or without a sync table, both readers mark the same samples. -/
theorem sync_spec {samples : List Sample} (sync : Option (List ℕ))
    (hsync : ∀ sample ∈ samples, sample.isSync = true) :
    (sync.elim samples (applySync samples)).length = samples.length ∧
    ∀ i, i < samples.length →
      (sync.elim samples (applySync samples))[i]? =
        samples[i]?.map fun sample =>
          { sample with
            isSync := (sync.map fun numbers =>
              syncSamples numbers samples.length).all
                fun sync => sync.contains i } := by
  cases sync with
  | none =>
      refine ⟨rfl, fun i hi => ?_⟩
      have hi' : samples[i]? = some samples[i] := List.getElem?_eq_getElem hi
      have := hsync samples[i] (List.getElem_mem hi)
      rw [Option.elim_none, hi', Option.map_some]
      simp [← this]
  | some numbers =>
      obtain ⟨hlength, hmark⟩ := applySync_spec samples numbers
      refine ⟨hlength, fun i hi => ?_⟩
      rw [Option.elim_some, hmark i]
      have hmem := (syncSamples_eq numbers samples.length).2 i
      simp [hmem, hi]

/-! ## The source -/

/-- The check of every sample's range stops where the first one ends past the
source. -/
theorem forM_checkWithinSource {samples : List Sample} {sourceLen : ℕ}
    (hfits : ∀ sample ∈ samples, sample.offset + sample.size < 2 ^ 64) :
    samples.forM (checkWithinSource sourceLen) =
      if samples.any fun sample =>
          decide (sourceLen < sample.offset + sample.size) then
        .error (invalidMedia "sample byte range exceeds source length")
      else .ok () := by
  induction samples with
  | nil => rfl
  | cons sample samples ih =>
      have hadd : checkedAdd (2 ^ 64) sample.offset sample.size =
          some (sample.offset + sample.size) :=
        checkedAdd_eq_some_iff.mpr ⟨hfits sample (by simp), rfl⟩
      rw [List.forM_eq_forM] at ih ⊢
      rw [List.forM_cons, List.any_cons,
        ih fun other hother => hfits other (List.mem_cons_of_mem _ hother)]
      unfold checkWithinSource
      rw [hadd]
      by_cases hbeyond : sourceLen < sample.offset + sample.size
      · simp [hbeyond]
      · simp [hbeyond]

/-! ## The whole index -/

/-- With or without a composition table, both readers give every sample the
offset a lookup finds. -/
theorem composition_agree {base : List Sample}
    {composition : Option (List (ℕ × ℤ))}
    (hrange : ∀ runs, composition = some runs →
      ∀ run ∈ runs, -2 ^ 31 ≤ run.2 ∧ run.2 < 2 ^ 31)
    (hzero : ∀ sample ∈ base, sample.compositionOffset = 0) :
    Agree
      (fun rows samples =>
        (rows = [] ∨ Covers CompositionRow.first rows base.length) ∧
        (∀ row ∈ rows, -2 ^ 31 ≤ row.offset ∧ row.offset < 2 ^ 31) ∧
        samples.length = base.length ∧
        ∀ i, i < base.length → samples[i]? = base[i]?.map fun sample =>
          { sample with compositionOffset := compositionAt rows i })
      (composition.elim (.ok []) fun runs => compositionRuns runs base.length)
      (composition.elim (.ok base) (applyComposition base)) := by
  cases composition with
  | none =>
      refine .ok ⟨.inl rfl, by simp, rfl, fun i hi => ?_⟩
      have hi' : base[i]? = some base[i] := List.getElem?_eq_getElem hi
      have := hzero base[i] (List.getElem_mem hi)
      rw [hi', Option.map_some]
      simp [compositionAt, ← this]
  | some runs =>
      apply (compositionRuns_agree (hrange runs rfl)).mono
      rintro rows samples ⟨hcovers, hrows, hlength, hsample⟩
      refine ⟨.inr hcovers, hrows, hlength, fun i hi => ?_⟩
      obtain ⟨row, hrow, hi'⟩ := hsample i hi
      have hfound : rows[runIndex CompositionRow.first rows i]? = some row :=
        hrow
      have hne : rows.isEmpty = false := by
        cases rows with
        | nil => simp at hfound
        | cons => rfl
      simp only [hi', compositionAt, hne, runOf, hfound, Option.getD_some,
        Bool.false_eq_true, if_false]

/-- An unshifted index over valid tables holds the samples its lookups
find. -/
theorem SampleIndex.new_eq {t : Tables} {samples : List Sample}
    (hvalid : t.Valid)
    (hend : ∀ row, t.times.getLast? = some row →
      row.start + (t.len - row.first) * row.duration < 2 ^ 64)
    (hlength : samples.length = t.len)
    (hsample : ∀ i, i < t.len → samples[i]? = some
      { offset := t.offset i
        size := t.sizes[i]?.getD 0
        decodeTime := t.decodeTime i
        duration := t.duration i
        compositionOffset := t.compositionOffset i
        isSync := t.isSync i }) :
    (SampleIndex.new t).Valid ∧ (SampleIndex.new t).all = samples := by
  constructor
  · refine ⟨hvalid, Nat.zero_le _, Nat.le_refl _, fun _ => ?_, fun hpos => ?_⟩
    · simp only [SampleIndex.new]
      omega
    · change 0 < t.len at hpos
      obtain ⟨row, hrow, -⟩ := hvalid.times.begins hpos
      have hrows : 0 < t.times.length := (List.getElem?_eq_some_iff.mp hrow).1
      have hlast : t.times[t.times.length - 1]? =
          some t.times[t.times.length - 1] :=
        List.getElem?_eq_getElem (by omega)
      generalize t.times[t.times.length - 1] = final at hlast
      have hinside := hvalid.times.inside final (List.mem_of_getElem? hlast)
      have hat : runOf TimeRow.first t.times (t.len - 1) =
          t.times.length - 1 :=
        hvalid.times.ascending.runIndex_eq hlast (by omega) (by
          rw [Nat.sub_add_cancel hrows]
          simp)
      have hfits := hend final (by rw [List.getLast?_eq_getElem?, hlast])
      have hspan : (t.len - final.first) * final.duration =
          (t.len - 1 - final.first) * final.duration + final.duration := by
        rw [← Nat.succ_mul]
        congr 1
        omega
      simp only [SampleIndex.new, Tables.decodeTime, Tables.duration,
        Tables.timeRow, hat, hlast, Option.getD_some]
      omega
  · refine List.ext_getElem? fun i => ?_
    by_cases hi : i < t.len
    · rw [hsample i hi, getElem?_all (by simpa [SampleIndex.new, len] using hi)]
      simp [get, SampleIndex.new, moved]
    · rw [List.getElem?_eq_none (by simpa [SampleIndex.new, len] using hi),
        List.getElem?_eq_none (by omega)]

/-- Both readers stop with the same error, or both succeed and the index is
valid and holds the samples of the expansion. -/
theorem sampleIndex_agree (tables : SampleTables) (sourceLen : ℕ)
    (limits : LimitsConfig) :
    Agree (fun index samples => index.Valid ∧ index.all = samples)
      (sampleIndex tables sourceLen limits)
      (expandSamples tables sourceLen limits) := by
  unfold sampleIndex expandSamples
  dsimp only
  by_cases hlimit : limits.maxSamplesPerTrack < tables.sizes.count
  · rw [if_pos hlimit, if_pos hlimit]
    exact .error _
  rw [if_neg hlimit, if_neg hlimit]
  refine (chunks_agree tables sourceLen).bind
    fun chunks placed ⟨hchunks, hplaced⟩ => ?_
  rw [← hplaced]
  refine (timingRuns_agree tables.deltas_lt).bind ?_
  rintro times timed ⟨timing, timedState, htimes, hend, rfl, rfl⟩
  have hlength := htimes.length
  have hsamples : ∀ i, i < placed.length → ∃ chunk time,
      rowAt ChunkRow.first (chunks.rows tables.chunkOffsets) i = some chunk ∧
      rowAt TimeRow.first timing.rows i = some time ∧
      timedState.samples[i]? = some
        { offset := chunk.offset +
            ((tables.sizes.expand.take i).drop chunk.first).sum
          size := tables.sizes.expand[i]?.getD 0
          decodeTime := time.start + (i - time.first) * time.duration
          duration := time.duration
          compositionOffset := 0
          isSync := true } := by
    intro i hi
    obtain ⟨chunk, hchunk, hposition⟩ := hchunks.sample i hi
    obtain ⟨time, htime, htimed⟩ := htimes.sample i (by omega)
    exact ⟨chunk, time, hchunk, htime, by rw [htimed, hposition]; rfl⟩
  rw [← hlength]
  refine (composition_agree tables.composition_range ?_).bind ?_
  · intro sample hmem
    obtain ⟨i, hi, rfl⟩ := List.getElem_of_mem hmem
    obtain ⟨_, _, _, _, hsample⟩ := hsamples i (by omega)
    rw [List.getElem?_eq_getElem hi] at hsample
    rw [Option.some.inj hsample]
  rintro composition composed ⟨hcovers, hrange, hcomposed, hcompose⟩
  have hcomplete : ∀ i, i < composed.length → ∃ chunk time,
      rowAt ChunkRow.first (chunks.rows tables.chunkOffsets) i = some chunk ∧
      rowAt TimeRow.first timing.rows i = some time ∧
      composed[i]? = some
        { offset := chunk.offset +
            ((tables.sizes.expand.take i).drop chunk.first).sum
          size := tables.sizes.expand[i]?.getD 0
          decodeTime := time.start + (i - time.first) * time.duration
          duration := time.duration
          compositionOffset := compositionAt composition i
          isSync := true } := by
    intro i hi
    obtain ⟨chunk, time, hchunk, htime, hsample⟩ := hsamples i (by omega)
    refine ⟨chunk, time, hchunk, htime, ?_⟩
    rw [hcompose i (by omega), hsample]
    rfl
  have hallSync : ∀ sample ∈ composed, sample.isSync = true := by
    intro sample hmem
    obtain ⟨i, hi, rfl⟩ := List.getElem_of_mem hmem
    obtain ⟨_, _, _, _, hsample⟩ := hcomplete i hi
    rw [List.getElem?_eq_getElem hi] at hsample
    rw [Option.some.inj hsample]
  obtain ⟨hmarked, hmark⟩ := sync_spec tables.sync hallSync
  generalize hfinal : tables.sync.elim composed (applySync composed) = final
    at hmarked hmark
  -- the range checks read what the chunk loop placed
  have hends : final.map (fun sample => sample.offset + sample.size) =
      placed.map fun sample => sample.offset + sample.size := by
    refine List.ext_getElem? fun i => ?_
    rw [List.getElem?_map, List.getElem?_map]
    by_cases hi : i < composed.length
    · obtain ⟨chunk, hchunk, hposition⟩ := hchunks.sample i (by omega)
      obtain ⟨chunk', _, hchunk', -, hsample⟩ := hcomplete i hi
      obtain rfl : chunk = chunk' :=
        Option.some.inj (hchunk.symm.trans hchunk')
      rw [hmark i hi, hsample, hposition]
      rfl
    · rw [List.getElem?_eq_none (by omega), List.getElem?_eq_none (by omega)]
  have hfits : ∀ sample ∈ final, sample.offset + sample.size < 2 ^ 64 := by
    intro sample hmem
    have hend := List.mem_map_of_mem
      (f := fun sample : Sample => sample.offset + sample.size) hmem
    rw [hends] at hend
    obtain ⟨other, hother, heq⟩ := List.mem_map.mp hend
    rw [← heq]
    exact hchunks.fits other hother
  have hany : (final.any fun sample =>
      decide (sourceLen < sample.offset + sample.size)) =
      placed.any fun sample =>
        decide (sourceLen < sample.offset + sample.size) := by
    have h := congrArg (fun ends => ends.any fun stop : ℕ =>
      decide (sourceLen < stop)) hends
    simp only [List.any_map] at h
    exact h
  rw [forM_checkWithinSource hfits, hchunks.beyond, hany]
  by_cases hbeyond : (placed.any fun sample =>
      decide (sourceLen < sample.offset + sample.size)) = true
  · simp only [hbeyond, if_true, error_bind]
    exact .error _
  rw [if_neg hbeyond, if_neg hbeyond]
  have hcount : tables.sizes.expand.length = composed.length := by
    rw [SampleSizes.length_expand]
    omega
  refine .ok (SampleIndex.new_eq ?_ ?_ ?_ ?_)
  · exact
      { len_lt := by
          simpa [Tables.len] using tables.count_lt
        sizes_lt := tables.sizes_lt
        chunks := by
          have := hchunks.covers
          rwa [hplaced, ← SampleSizes.length_expand] at this
        times := by
          have := htimes.covers
          rwa [hend, hplaced, ← SampleSizes.length_expand] at this
        durations_lt := htimes.durations_lt
        chained := fun i a b ha hb => (htimes.chained i a b ha hb).le
        composition := by
          rwa [hlength, hplaced, ← SampleSizes.length_expand] at hcovers
        composition_range := hrange
        sync := by
          intro sync hsync
          obtain ⟨numbers, -, rfl⟩ := Option.map_eq_some_iff.mp hsync
          exact (syncSamples_eq _ _).1 }
  · intro row hrow
    have hlast := htimes.last row hrow
    have hfits := htimes.fits
    simp only [Tables.len, SampleSizes.length_expand, ← hplaced, ← hend]
    omega
  · rw [hmarked]
    exact hcount.symm
  · intro i hi
    simp only [Tables.len, hcount] at hi
    obtain ⟨chunk, time, hchunk, htime, hsample⟩ := hcomplete i hi
    rw [hmark i hi, hsample]
    have hsynced : placed.length = composed.length := by omega
    unfold rowAt at hchunk htime
    simp only [Option.map_some, Tables.offset, Tables.chunkRow,
      Tables.decodeTime, Tables.duration, Tables.timeRow, runOf, hchunk, htime,
      Option.getD_some, Tables.sizesBetween, Tables.compositionOffset,
      Tables.isSync, hsynced, hlength]

/-- The compact index and the expansion succeed on the same tables, and
reading the index in order gives the samples of the expansion. -/
theorem sampleIndex_iter_eq_expandSamples (tables : SampleTables)
    (sourceLen : ℕ) (limits : LimitsConfig) :
    ((∃ index, sampleIndex tables sourceLen limits = .ok index) ↔
      ∃ samples, expandSamples tables sourceLen limits = .ok samples) ∧
    ∀ index samples, sampleIndex tables sourceLen limits = .ok index →
      expandSamples tables sourceLen limits = .ok samples →
      index.iter.collect = samples := by
  have hagree := sampleIndex_agree tables sourceLen limits
  generalize sampleIndex tables sourceLen limits = compact at hagree ⊢
  generalize expandSamples tables sourceLen limits = expanded at hagree ⊢
  cases hagree with
  | error e => simp
  | ok h =>
      refine ⟨by simp, fun index samples hindex hsamples => ?_⟩
      cases hindex
      cases hsamples
      rw [h.1.readable.iter_collect, h.2]

end Segmentor
