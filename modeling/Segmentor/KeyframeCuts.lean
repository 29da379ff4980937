import Segmentor.General.Greedy
import Segmentor.SegmentPlannerTiling

/-!
# Cuts at keyframes

Segments start at the first sync sample at or past a target, the target being
so long after the start of the segment before.  Where every sample is one, the
planner jumps to the target; otherwise it walks the sync samples.  Both make
the same greedy choices.
-/

namespace Segmentor

open General

/-- When the segment that starts at `current` is to end. -/
def cutTarget (samples : SampleIndex) (ticks current : ℕ) : ℕ :=
  saturatingAdd (2 ^ 64) (samples.decodeTime current) ticks

/-- Where a segment may start after one that starts at `current`. -/
structure MayCut (samples : SampleIndex) (ticks current next : ℕ) : Prop where
  sync : next ∈ samples.syncIndices
  reached : cutTarget samples ticks current ≤ samples.decodeTime next

/-- A walk over sync samples finds the greedy cuts, where every later sync
sample it leaves out is before the target. -/
theorem cutsAtSync_greedy {samples : SampleIndex} (hvalid : samples.Valid)
    {ticks current : ℕ} {indices : List ℕ}
    (hsorted : (current :: indices).Pairwise (· < ·))
    (hsync : ∀ i ∈ indices, i ∈ samples.syncIndices)
    (hall : ∀ i ∈ samples.syncIndices, current < i → i ∉ indices →
      samples.decodeTime i < cutTarget samples ticks current) :
    GreedyFrom (MayCut samples ticks) current
      (cutsAtSync samples ticks indices (cutTarget samples ticks current)) := by
  induction indices generalizing current with
  | nil =>
      refine .done fun i hi hcut => ?_
      have hbefore := hall i hcut.sync hi (by simp)
      have hreached := hcut.reached
      omega
  | cons next rest ih =>
      obtain ⟨hafter, hrest⟩ := List.pairwise_cons.mp hsorted
      have hlater := (List.pairwise_cons.mp hrest).1
      obtain ⟨hnext, hothers⟩ := List.forall_mem_cons.mp hsync
      unfold cutsAtSync
      by_cases hreached :
          cutTarget samples ticks current ≤ samples.decodeTime next
      · rw [if_pos hreached]
        refine .choose ⟨hafter next (by simp), ⟨hnext, hreached⟩, ?_⟩ ?_
        · intro i hi hlt hcut
          have hout : i ∉ next :: rest := by
            intro hmem
            rcases List.mem_cons.mp hmem with rfl | hmem
            · omega
            · have := hlater i hmem
              omega
          have hbefore := hall i hcut.sync hi hout
          have := hcut.reached
          omega
        · apply ih hrest hothers
          intro i hi hgt hout
          have hbefore := hall i hi (Nat.lt_trans (hafter next (by simp)) hgt)
            (by simp [hout, Nat.ne_of_gt hgt])
          have hlen := ((SampleIndex.mem_syncIndices hvalid.readable).mp hi).1
          have hmono := hvalid.decodeTime_mono hgt.le hlen
          omega
      · rw [if_neg hreached]
        apply ih
        · exact List.pairwise_cons.mpr ⟨fun i hi => hafter i (by simp [hi]),
            (List.pairwise_cons.mp hrest).2⟩
        · exact hothers
        · intro i hi hgt hout
          by_cases hsame : i = next
          · subst hsame
            omega
          · exact hall i hi hgt (by simp [hsame, hout])

/-- Where every sample is a sync sample, jumping to the target finds the
greedy cuts. -/
theorem cutsAnywhere_greedy {samples : SampleIndex} (hvalid : samples.Valid)
    (hsync : ∀ i, i ∈ samples.syncIndices ↔ i < samples.len)
    {ticks fuel current : ℕ} (hfuel : samples.len ≤ current + fuel) :
    GreedyFrom (MayCut samples ticks) current
      (cutsAnywhere samples ticks fuel current
        (cutTarget samples ticks current)) := by
  induction fuel generalizing current with
  | zero =>
      refine .done fun i hi hcut => ?_
      have hlt := (hsync i).mp hcut.sync
      omega
  | succ fuel ih =>
      have hpast := fun i (hi : i < samples.len) =>
        hvalid.lt_partitionByDecodeTime_iff hi (cutTarget samples ticks current)
      unfold cutsAnywhere
      dsimp only
      split
      · rename_i hend
        refine .done fun i hi hcut => ?_
        have hlt := (hsync i).mp hcut.sync
        have hreached := hcut.reached
        have := hpast i hlt
        omega
      · rename_i hnext
        have hlt := Nat.lt_of_not_le hnext
        refine .choose ⟨by omega, ⟨(hsync _).mpr hlt, ?_⟩, ?_⟩ (ih (by omega))
        · have := hpast _ hlt
          omega
        · intro i hi hbefore hcut
          have hreached := hcut.reached
          have := hpast i (by omega)
          omega

/-- The sync samples the planner walks over. -/
theorem laterSyncs_pairwise {samples : SampleIndex} (hvalid : samples.Valid) :
    (0 :: samples.syncIndices.filter fun index => 0 < index).Pairwise
      (· < ·) := by
  refine List.pairwise_cons.mpr ⟨fun i hi => ?_, ?_⟩
  · simpa using (List.mem_filter.mp hi).2
  · exact (SampleIndex.syncIndices_pairwise hvalid.readable).sublist
      List.filter_sublist

theorem walk_greedy {samples : SampleIndex} (hvalid : samples.Valid)
    (ticks : ℕ) :
    GreedyFrom (MayCut samples ticks) 0
      (cutsAtSync samples ticks
        (samples.syncIndices.filter fun index => 0 < index)
        (cutTarget samples ticks 0)) := by
  apply cutsAtSync_greedy hvalid (laterSyncs_pairwise hvalid)
  · intro i hi
    exact (List.mem_filter.mp hi).1
  · intro i hi hpos hout
    exact absurd (List.mem_filter.mpr ⟨hi, decide_eq_true hpos⟩) hout

/-- The planner's boundaries ascend from the first sample to the end of the
track.  Each inner one is the first sync sample at or past the target of the
one before, among all of the track's where the target is not cut off.  The jump
and the walk agree on a track all of whose samples are sync samples. -/
theorem referenceBoundaries_greedy (reference : Track) (ticks : ℕ) :
    (∃ cuts,
      referenceBoundaries reference ticks =
        0 :: cuts ++ [reference.samples.len] ∧
      (referenceBoundaries reference ticks).Pairwise (· < ·) ∧
      GreedyFrom (MayCut reference.samples ticks) 0 cuts ∧
      ∀ pair ∈ pairs (0 :: cuts), 0 < ticks →
        reference.samples.decodeTime pair.1 + ticks < 2 ^ 64 →
        ∀ i ∈ reference.samples.syncIndices, i < pair.2 →
          reference.samples.decodeTime i <
            reference.samples.decodeTime pair.1 + ticks) ∧
    ((∀ i < reference.samples.len, i ∈ reference.samples.syncIndices) →
      cutsAnywhere reference.samples ticks reference.samples.len 0
          (cutTarget reference.samples ticks 0) =
        cutsAtSync reference.samples ticks
          (reference.samples.syncIndices.filter fun index => 0 < index)
          (cutTarget reference.samples ticks 0)) := by
  have hvalid := reference.samples_valid
  have hlen := fun i =>
    @SampleIndex.mem_syncIndices reference.samples hvalid.readable i
  have hwalk := walk_greedy hvalid ticks
  have hjump : (∀ i < reference.samples.len,
      i ∈ reference.samples.syncIndices) →
      GreedyFrom (MayCut reference.samples ticks) 0
        (cutsAnywhere reference.samples ticks reference.samples.len 0
          (cutTarget reference.samples ticks 0)) := by
    intro hall
    exact cutsAnywhere_greedy hvalid
      (fun i => ⟨fun hi => ((hlen i).mp hi).1, hall i⟩) (by omega)
  have hcuts : ∃ cuts, referenceBoundaries reference ticks =
      0 :: cuts ++ [reference.samples.len] ∧
      GreedyFrom (MayCut reference.samples ticks) 0 cuts := by
    unfold referenceBoundaries
    dsimp only
    split
    · rename_i hevery
      refine ⟨_, rfl, hjump fun i hi => (hlen i).mpr ⟨hi, ?_⟩⟩
      unfold SampleIndex.everySampleIsSync at hevery
      rw [Option.isNone_iff_eq_none] at hevery
      simp [Tables.isSync, hevery]
    · exact ⟨_, rfl, hwalk⟩
  refine ⟨?_, fun hall => (hjump hall).unique hwalk⟩
  obtain ⟨cuts, hboundaries, hgreedy⟩ := hcuts
  refine ⟨cuts, hboundaries, referenceBoundaries_pairwise reference ticks,
    hgreedy, fun pair hpair hticks hfits i hi hlt => ?_⟩
  have hnext := hgreedy.isNext pair hpair
  have htarget : cutTarget reference.samples ticks pair.1 =
      reference.samples.decodeTime pair.1 + ticks := by
    unfold cutTarget saturatingAdd
    omega
  by_cases hbefore : i ≤ pair.1
  · have hpast := ((hlen _).mp hnext.allowed.sync).1
    have hmono := hvalid.decodeTime_mono hbefore
      (Nat.lt_trans hnext.after hpast)
    omega
  · by_contra hreached
    apply hnext.first i (by omega) hlt
    exact ⟨hi, by omega⟩

/-- Five samples, the third and the last of them sync samples after the
first. -/
def keyframeTrack : Track :=
  .checked 1 .video 1000
    (.new ⟨[9, 5, 9, 5, 9], [⟨0, 0⟩], [⟨0, 0, 400⟩], [], some [0, 2, 4]⟩)
    (by decide)

example : referenceBoundaries keyframeTrack 700 = [0, 2, 4, 5] := by
  decide

theorem referenceBoundaries_greedy_keyframes :
    ∀ pair ∈ pairs [0, 2, 4], ∀ i ∈ [0, 2, 4], i < pair.2 →
      keyframeTrack.samples.decodeTime i <
        keyframeTrack.samples.decodeTime pair.1 + 700 := by
  obtain ⟨⟨cuts, hboundaries, -, -, hfirst⟩, -⟩ :=
    referenceBoundaries_greedy keyframeTrack 700
  have hrun : referenceBoundaries keyframeTrack 700 = [0, 2, 4] ++ [5] := by
    decide
  have hsync : keyframeTrack.samples.syncIndices = [0, 2, 4] := by
    decide
  rw [hrun] at hboundaries
  obtain ⟨hcuts, -⟩ := List.append_inj' hboundaries rfl
  rw [← hcuts, hsync] at hfirst
  intro pair hpair
  refine hfirst pair hpair (by decide) ?_
  revert pair
  decide

end Segmentor
