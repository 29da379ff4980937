import Segmentor.HevcSyntax

/-!
# Measuring H.265 slice segment headers

Parameter sets and slice segment headers are read as they were written, field
by field.  The reference picture sets that are derived while reading are those
of the standard: with the steps it allows no place in the picture order leaves
its word.
-/

namespace Segmentor.Hevc

open General BitReading Reading

/-! ## Numbers -/

theorem ceilLog2_eq_clog (value : ℕ) : ceilLog2 value = Nat.clog 2 value := by
  unfold ceilLog2
  split
  · exact (Nat.clog_of_right_le_one ‹_› 2).symm
  · have hlow : 2 ^ (value - 1).log2 ≤ value - 1 :=
      Nat.log2_self_le (by omega)
    have hhigh : value - 1 < 2 ^ ((value - 1).log2 + 1) :=
      Nat.lt_log2_self
    refine le_antisymm ?_ ?_
    · exact (Nat.lt_clog_iff_pow_lt (by decide)).mpr (by omega)
    · exact (Nat.clog_le_iff_le_pow (by decide)).mpr (by omega)

theorem saturate_of_abs_lt {value : ℤ} (h : |value| < 2 ^ 31) :
    saturate value = value := by
  obtain ⟨hlow, hhigh⟩ := abs_lt.mp h
  unfold saturate
  omega

theorem reads_bounded {value limit : ℕ} (h : value ≤ limit) :
    (ofExcept (bounded value limit) : BitReading ℕ).Reads [] value :=
  reads_ofExcept (if_neg (not_lt.mpr h))

theorem reads_refCount (count : Fin 16) :
    refCount.Reads (golomb count) (count + 1) := by
  refine (reads_finUe count (by decide)).before (reads_ofExcept ?_)
  have hsum : checkedAdd (2 ^ 32) count.1 1 = some (count.1 + 1) :=
    if_pos (by omega)
  rw [hsum, Option.filter_some, if_pos (decide_eq_true (by omega)), okOr_some]

theorem reads_pocStep (step : PocStep) :
    pocStep.Reads (golomb step) (step + 1) := by
  refine (reads_finUe step (by decide)).before ?_
  have hword : signedWord step = .ok (step : ℤ) := if_pos (by omega)
  have hsum : saturate ((step.1 : ℤ) + 1) = step + 1 := by
    unfold saturate
    omega
  refine (reads_ofExcept hword).after ?_
  rw [hsum]
  exact reads_pure _

theorem length_nalHeader (nalUnitType : ℕ) (temporalId : Fin (2 ^ 3)) :
    (nalHeader nalUnitType temporalId).length = 16 := by
  unfold nalHeader
  simp only [List.length_append, length_toBits, List.length_singleton]

/-! ## Reference picture sets -/

/-- How far a set can reach that is among the first `count`, and how many
pictures it can have: each set built on another adds a step and a picture. -/
structure ReferenceSet.Reaches (set : ReferenceSet) (count : ℕ) : Prop where
  near : ∀ picture ∈ set.before ++ set.after,
    |picture.1| ≤ 2 ^ 15 * (15 + count)
  few : set.len ≤ 31 + count

theorem ReferenceSet.Reaches.mono {set : ReferenceSet} {count more : ℕ}
    (h : set.Reaches count) (hle : count ≤ more) : set.Reaches more where
  near picture hpicture := (h.near picture hpicture).trans (by omega)
  few := h.few.trans (by omega)

namespace SetSyntax

theorem length_pictures (sign poc : ℤ) (steps : List (PocStep × Bool)) :
    (pictures sign poc steps).length = steps.length := by
  induction steps generalizing poc with
  | nil => rfl
  | cons step steps ih =>
      rw [pictures, List.length_cons, ih, List.length_cons]

theorem abs_step_le {sign : ℤ} (hsign : |sign| = 1) (poc : ℤ)
    (step : PocStep) : |poc + sign * (step + 1)| ≤ |poc| + 2 ^ 15 := by
  have hstep : |sign * ((step.1 : ℤ) + 1)| ≤ 2 ^ 15 := by
    rw [abs_mul, hsign, one_mul, abs_of_nonneg (by omega)]
    omega
  exact (abs_add_le _ _).trans (by omega)

theorem abs_le_of_mem_pictures {sign : ℤ} (hsign : |sign| = 1) {poc : ℤ}
    {steps : List (PocStep × Bool)} {picture : ℤ × Bool}
    (h : picture ∈ pictures sign poc steps) :
    |picture.1| ≤ |poc| + 2 ^ 15 * steps.length := by
  induction steps generalizing poc with
  | nil => cases h
  | cons step steps ih =>
      have hstep := abs_step_le hsign poc step.1
      rw [pictures, List.mem_cons] at h
      rw [List.length_cons]
      push_cast
      rcases h with rfl | h
      · dsimp only
        omega
      · have hrest := ih h
        omega

theorem reads_explicitSide {sign : ℤ} (hsign : |sign| = 1) {poc : ℤ}
    {steps : List (PocStep × Bool)}
    (h : |poc| + 2 ^ 15 * steps.length < 2 ^ 31) :
    (explicitSide sign steps.length poc).Reads (stepsBits steps)
      (pictures sign poc steps) := by
  induction steps generalizing poc with
  | nil => exact reads_pure []
  | cons step steps ih =>
      rw [List.length_cons] at h
      push_cast at h
      have hstep := abs_step_le hsign poc step.1
      have hplace : saturate (poc + sign * (step.1 + 1)) =
          poc + sign * (step.1 + 1) := saturate_of_abs_lt (by omega)
      rw [stepsBits, List.flatMap_cons, List.append_assoc]
      refine (reads_pocStep step.1).bind ?_
      rw [hplace]
      refine (reads_bit step.2).bind ?_
      exact (ih (by omega)).map _

/-- Whether a picture is used, and whether it is kept. -/
def kept (flags : Bool × Bool) : Bool × Bool :=
  (flags.1, flags.1 || flags.2)

theorem reads_keepFlags (flags : Bool × Bool) :
    keepFlags.Reads (flagBits flags) (kept flags) := by
  obtain ⟨used, delta⟩ := flags
  cases used with
  | true => exact (reads_bit true).bind ((reads_absent (by decide)).map _)
  | false =>
      exact (reads_bit false).bind
        ((reads_there (by decide) (reads_bit delta)).map _)

theorem moved_reverse (wanted : ℤ → Bool) (delta : ℤ) (flags : ℕ → Bool × Bool)
    (side : List ((ℤ × Bool) × ℕ)) :
    moved wanted delta flags side.reverse =
      (moved wanted delta flags side).reverse :=
  List.filterMap_reverse

theorem movedSide_reverse (wanted : ℤ → Bool) (delta : ℤ)
    (read : List (Bool × Bool)) (first : ℕ) (side : List ((ℤ × Bool) × ℕ)) :
    movedSide wanted delta read first side.reverse =
      (movedSide wanted delta read first side).reverse :=
  List.filterMap_reverse

theorem movedSide_eq {wanted : ℤ → Bool} {delta : ℤ} {flags : ℕ → Bool × Bool}
    {read : List (Bool × Bool)} {first : ℕ} {side : List (ℤ × Bool)}
    (hnear : ∀ picture ∈ side, |picture.1 + delta| < 2 ^ 31)
    (hread : ∀ index < side.length,
      read[first + index]? = some (kept (flags (first + index)))) :
    movedSide wanted delta read first side.zipIdx =
      moved wanted delta flags (side.zipIdx first) := by
  have hshift : side.zipIdx first =
      side.zipIdx.map (Prod.map id (· + first)) := by
    rw [List.map_snd_add_zipIdx_eq_zipIdx, Nat.add_zero]
  unfold movedSide moved
  rw [hshift, List.filterMap_map]
  refine List.filterMap_congr fun entry hentry => ?_
  obtain ⟨⟨poc, used⟩, index⟩ := entry
  obtain ⟨hindex, hpicture⟩ := List.mem_zipIdx' hentry
  have hsame := saturate_of_abs_lt
    (hnear (poc, used) (hpicture ▸ List.getElem_mem hindex))
  dsimp only [Function.comp_apply, Prod.map_apply, id_eq] at hsame ⊢
  rw [hsame, hread index hindex]
  simp [kept, Nat.add_comm first]

theorem movedSelf_eq {wanted : ℤ → Bool} {delta : ℤ} {flags : ℕ → Bool × Bool}
    {read : List (Bool × Bool)} {index : ℕ}
    (hread : read[index]? = some (kept (flags index))) :
    Hevc.movedSelf wanted delta read index =
      movedSelf wanted delta flags index := by
  unfold Hevc.movedSelf movedSelf
  rw [hread]
  simp [kept]

theorem predictedSet_eq {reference : ReferenceSet} {count : ℕ} {delta : ℤ}
    (flags : ℕ → Bool × Bool) (hreference : reference.Reaches count)
    (hcount : count ≤ 64) (hdelta : |delta| ≤ 2 ^ 15) :
    predictedSet reference delta
        ((List.range (reference.len + 1)).map fun index =>
          kept (flags index)) =
      changed reference delta flags := by
  have hread : ∀ index ≤ reference.len,
      ((List.range (reference.len + 1)).map fun index =>
        kept (flags index))[index]? = some (kept (flags index)) := by
    intro index hindex
    rw [List.getElem?_map, List.getElem?_range (by omega), Option.map_some]
  have hnear : ∀ picture ∈ reference.before ++ reference.after,
      |picture.1 + delta| < 2 ^ 31 := by
    intro picture hpicture
    have hplace := hreference.near picture hpicture
    have hsum := abs_add_le picture.1 delta
    omega
  have hbefore : ∀ wanted : ℤ → Bool,
      movedSide wanted delta _ 0 reference.before.zipIdx =
        moved wanted delta flags reference.before.zipIdx := fun wanted =>
    movedSide_eq (fun picture hpicture =>
      hnear picture (List.mem_append_left _ hpicture)) fun index hindex =>
        hread _ (by unfold ReferenceSet.len; omega)
  have hafter : ∀ wanted : ℤ → Bool,
      movedSide wanted delta _ reference.before.length
          reference.after.zipIdx =
        moved wanted delta flags
          (reference.after.zipIdx reference.before.length) := fun wanted =>
    movedSide_eq (fun picture hpicture =>
      hnear picture (List.mem_append_right _ hpicture)) fun index hindex =>
        hread _ (by unfold ReferenceSet.len; omega)
  have hself : ∀ wanted : ℤ → Bool,
      Hevc.movedSelf wanted delta _ reference.len =
        movedSelf wanted delta flags reference.len := fun wanted =>
    movedSelf_eq (hread reference.len le_rfl)
  unfold predictedSet changed
  simp only [movedSide_reverse, moved_reverse, hbefore, hafter, hself]

theorem abs_le_of_mem_moved {wanted : ℤ → Bool} {delta bound : ℤ}
    {flags : ℕ → Bool × Bool} {side : List ((ℤ × Bool) × ℕ)}
    {picture : ℤ × Bool} (hdelta : |delta| ≤ 2 ^ 15)
    (hside : ∀ entry ∈ side, |entry.1.1| ≤ bound)
    (h : picture ∈ moved wanted delta flags side) :
    |picture.1| ≤ bound + 2 ^ 15 := by
  obtain ⟨entry, hentry, hpicture⟩ := List.mem_filterMap.mp h
  dsimp only at hpicture
  split at hpicture
  · cases hpicture
    exact (abs_add_le _ _).trans (add_le_add (hside entry hentry) hdelta)
  · cases hpicture

theorem eq_of_mem_movedSelf {wanted : ℤ → Bool} {delta : ℤ}
    {flags : ℕ → Bool × Bool} {index : ℕ} {picture : ℤ × Bool}
    (h : picture ∈ movedSelf wanted delta flags index) : picture.1 = delta := by
  unfold movedSelf at h
  split at h
  · rw [List.mem_singleton.mp h]
  · cases h

theorem length_moved_add_le (delta : ℤ) (flags : ℕ → Bool × Bool)
    (side : List ((ℤ × Bool) × ℕ)) :
    (moved (· < 0) delta flags side).length +
      (moved (0 < ·) delta flags side).length ≤ side.length := by
  induction side with
  | nil => exact le_rfl
  | cons entry side ih =>
      have hsplit : ∀ wanted : ℤ → Bool,
          (moved wanted delta flags (entry :: side)).length =
            (if wanted (entry.1.1 + delta) ∧
              ((flags entry.2).1 ∨ (flags entry.2).2) then 1 else 0) +
              (moved wanted delta flags side).length := by
        intro wanted
        unfold moved
        rw [List.filterMap_cons]
        split_ifs with hkept
        · simp [hkept, Nat.add_comm]
        · simp [hkept]
      rw [hsplit, hsplit, List.length_cons]
      simp only [decide_eq_true_eq]
      split_ifs <;> omega

theorem length_movedSelf_add_le (delta : ℤ) (flags : ℕ → Bool × Bool)
    (index : ℕ) :
    (movedSelf (· < 0) delta flags index).length +
      (movedSelf (0 < ·) delta flags index).length ≤ 1 := by
  unfold movedSelf
  simp only [decide_eq_true_eq]
  split_ifs <;> simp only [List.length_cons, List.length_nil] <;> omega

theorem changed_reaches {reference : ReferenceSet} {count : ℕ} {delta : ℤ}
    (flags : ℕ → Bool × Bool) (hreference : reference.Reaches count)
    (hdelta : |delta| ≤ 2 ^ 15) :
    (changed reference delta flags).Reaches (count + 1) := by
  constructor
  · have hside : ∀ (side : List (ℤ × Bool)) (first : ℕ),
        (∀ picture ∈ side, picture ∈ reference.before ++ reference.after) →
        ∀ entry ∈ side.zipIdx first, |entry.1.1| ≤ 2 ^ 15 * (15 + count) :=
      fun side first hlisted entry hentry => hreference.near entry.1
        (hlisted _ (List.fst_mem_of_mem_zipIdx hentry))
    have hbefore := fun first => hside reference.before first
      fun _ => List.mem_append_left _
    have hafter := fun first => hside reference.after first
      fun _ => List.mem_append_right _
    intro picture hpicture
    simp only [changed, moved_reverse, List.mem_append, List.mem_reverse]
      at hpicture
    push_cast
    rcases hpicture with (h | h | h) | h | h | h
    · exact (abs_le_of_mem_moved hdelta (hafter _) h).trans (by omega)
    · rw [eq_of_mem_movedSelf h]
      omega
    · exact (abs_le_of_mem_moved hdelta (hbefore _) h).trans (by omega)
    · exact (abs_le_of_mem_moved hdelta (hbefore _) h).trans (by omega)
    · rw [eq_of_mem_movedSelf h]
      omega
    · exact (abs_le_of_mem_moved hdelta (hafter _) h).trans (by omega)
  · have hbefore := length_moved_add_le delta flags reference.before.zipIdx
    have hafter := length_moved_add_le delta flags
      (reference.after.zipIdx reference.before.length)
    have hself := length_movedSelf_add_le delta flags reference.len
    have hfew : reference.before.length + reference.after.length ≤
        31 + count := hreference.few
    rw [List.length_zipIdx] at hbefore hafter
    show (changed reference delta flags).before.length +
      (changed reference delta flags).after.length ≤ _
    unfold changed
    simp only [moved_reverse, List.length_append, List.length_reverse]
    omega

theorem abs_deltaRps_le (negative : Bool) (magnitude : PocStep) :
    |deltaRps negative magnitude| ≤ 2 ^ 15 := by
  unfold deltaRps
  cases negative <;> simp only [Bool.false_eq_true, if_false, if_true] <;>
    rw [abs_le] <;> omega

theorem exists_reference {earlier : List ReferenceSet} {deltaIdxMinus1 : ℕ}
    {inSlice : Bool} (h : lag deltaIdxMinus1 inSlice < earlier.length) :
    ∃ set ∈ earlier, reference earlier deltaIdxMinus1 inSlice = some set := by
  have hlt : earlier.length - (lag deltaIdxMinus1 inSlice + 1) <
      earlier.length := by omega
  exact ⟨_, List.getElem_mem hlt, List.getElem?_eq_getElem hlt⟩

/-- A set reaches a step further than those in front of it. -/
theorem derived_reaches {earlier : List ReferenceSet} {inSlice : Bool}
    {set : SetSyntax} (hearlier : ∀ set ∈ earlier, set.Reaches earlier.length)
    (hfits : set.Fits earlier inSlice) :
    (set.derived earlier inSlice).Reaches (earlier.length + 1) := by
  cases set with
  | explicit before after =>
      obtain ⟨hbefore, hafter⟩ := hfits
      constructor
      · intro picture hpicture
        rw [derived, List.mem_append] at hpicture
        push_cast
        rcases hpicture with h | h
        · have hplace := abs_le_of_mem_pictures (by decide) h
          rw [abs_zero] at hplace
          omega
        · have hplace := abs_le_of_mem_pictures (by decide) h
          rw [abs_zero] at hplace
          omega
      · unfold ReferenceSet.len derived
        rw [length_pictures, length_pictures]
        omega
  | inter deltaIdxMinus1 negative absDeltaRpsMinus1 flags =>
      obtain ⟨set, hset, hreference⟩ := exists_reference hfits
      rw [derived, hreference, Option.elim_some]
      exact changed_reaches flags (hearlier set hset)
        (abs_deltaRps_le negative absDeltaRpsMinus1)

theorem reads_explicitSet {before after : List (PocStep × Bool)}
    (hbefore : before.length ≤ 16) (hafter : after.length ≤ 16) :
    explicitSet.Reads
      [golomb before.length, golomb after.length, stepsBits before,
        stepsBits after].flatten
      { before := pictures (-1) 0 before
        after := pictures 1 0 after } := by
  refine (reads_ue (by omega)).field ?_
  refine (reads_bounded hbefore).after ?_
  refine (reads_ue (by omega)).field ?_
  refine (reads_bounded hafter).after ?_
  refine (reads_explicitSide (by decide) (by rw [abs_zero]; omega)).field ?_
  exact Reads.last
    ((reads_explicitSide (by decide) (by rw [abs_zero]; omega)).map _)

theorem reads_interSet {earlier : List ReferenceSet} {inSlice : Bool}
    {count deltaIdxMinus1 : ℕ} {flags : ℕ → Bool × Bool} (negative : Bool)
    (magnitude : PocStep) (hslice : earlier.length = count ↔ inSlice)
    (hearlier : ∀ set ∈ earlier, set.Reaches earlier.length)
    (hcount : earlier.length ≤ 64)
    (hlag : lag deltaIdxMinus1 inSlice < earlier.length) :
    (interSet earlier.length count earlier).Reads
      [if inSlice then golomb deltaIdxMinus1 else [], [negative],
        golomb magnitude,
        (List.range (((reference earlier deltaIdxMinus1 inSlice).elim 0
          ReferenceSet.len) + 1)).flatMap fun index =>
            flagBits (flags index)].flatten
      ((inter deltaIdxMinus1 negative magnitude flags).derived earlier
        inSlice) := by
  obtain ⟨set, hset, hreference⟩ := exists_reference hlag
  have hcode : (if earlier.length = count then deltaIdxMinus1 else 0) =
      lag deltaIdxMinus1 inSlice := by
    unfold lag
    simp only [hslice]
  refine (reads_optional hslice fun hhere => reads_ue ?_).field ?_
  · rw [← hcode, if_pos hhere] at hlag
    omega
  rw [hcode]
  refine (reads_ofExcept (a := set) ?_).after ?_
  · rw [checkedSub, if_pos (Nat.succ_le_of_lt hlag), Option.bind_some]
    exact (congrArg (okOr · _) hreference).trans (okOr_some _ _)
  refine (reads_bit negative).field ?_
  refine (reads_pocStep magnitude).field ?_
  have hdelta : (if negative = true then -((magnitude.1 : ℤ) + 1)
      else magnitude.1 + 1) = deltaRps negative magnitude := by
    unfold deltaRps
    cases negative <;> simp
  rw [hdelta]
  have hflags := @reads_times _ _ _ keepFlags
    (fun index => flagBits (flags index)) (fun index => kept (flags index))
    (List.range (set.len + 1)) fun index _ => reads_keepFlags (flags index)
  rw [List.length_range] at hflags
  rw [hreference, Option.elim_some, derived, hreference, Option.elim_some,
    ← predictedSet_eq flags (hearlier set hset) hcount
      (abs_deltaRps_le negative magnitude)]
  exact Reads.last (hflags.map _)

theorem reads_setAt {set : SetSyntax} {earlier : List ReferenceSet}
    {inSlice : Bool} {count : ℕ} (hslice : earlier.length = count ↔ inSlice)
    (hearlier : ∀ set ∈ earlier, set.Reaches earlier.length)
    (hcount : earlier.length ≤ 64) (hfits : set.Fits earlier inSlice) :
    (setAt earlier.length count earlier).Reads (set.bits earlier inSlice)
      (set.derived earlier inSlice) := by
  cases set with
  | explicit before after =>
      refine (reads_present (a := false) (fun _ => reads_bit false)
        fun _ => rfl).field ?_
      rw [if_neg Bool.false_ne_true]
      exact reads_explicitSet hfits.1 hfits.2
  | inter deltaIdxMinus1 negative absDeltaRpsMinus1 flags =>
      have hthere : earlier.length ≠ 0 := by
        unfold Fits at hfits
        omega
      refine (reads_there hthere (reads_bit true)).field ?_
      rw [if_pos rfl]
      exact reads_interSet negative absDeltaRpsMinus1 hslice hearlier hcount
        hfits

theorem reaches_concat {earlier : List ReferenceSet} {set : SetSyntax}
    (hearlier : ∀ set ∈ earlier, set.Reaches earlier.length)
    (hfits : set.Fits earlier false) :
    ∀ listed ∈ earlier ++ [set.derived earlier false],
      listed.Reaches (earlier ++ [set.derived earlier false]).length := by
  intro listed hlisted
  rw [List.length_append, List.length_singleton]
  rcases List.mem_append.mp hlisted with h | h
  · exact (hearlier listed h).mono (Nat.le_succ _)
  · rw [List.mem_singleton.mp h]
    exact derived_reaches hearlier hfits

end SetSyntax

theorem length_derivedSets (earlier : List ReferenceSet)
    (sets : List SetSyntax) :
    (derivedSets earlier sets).length = earlier.length + sets.length := by
  induction sets generalizing earlier with
  | nil => rfl
  | cons set sets ih =>
      rw [derivedSets, ih, List.length_append, List.length_singleton,
        List.length_cons, Nat.add_assoc, Nat.add_comm 1]

theorem derivedSets_reaches {earlier : List ReferenceSet}
    {sets : List SetSyntax}
    (hearlier : ∀ set ∈ earlier, set.Reaches earlier.length)
    (hfit : SetsFit earlier sets) :
    ∀ set ∈ derivedSets earlier sets,
      set.Reaches (derivedSets earlier sets).length := by
  induction sets generalizing earlier with
  | nil => exact hearlier
  | cons set sets ih =>
      exact ih (SetSyntax.reaches_concat hearlier hfit.1) hfit.2

theorem reads_setsAfter {earlier : List ReferenceSet} {sets : List SetSyntax}
    {count : ℕ} (hcount : earlier.length + sets.length = count)
    (hle : count ≤ 64)
    (hearlier : ∀ set ∈ earlier, set.Reaches earlier.length)
    (hfit : SetsFit earlier sets) :
    (setsAfter count sets.length earlier).Reads (setsBits earlier sets)
      (derivedSets earlier sets) := by
  induction sets generalizing earlier with
  | nil => exact reads_pure earlier
  | cons set sets ih =>
      rw [List.length_cons] at hcount
      refine (SetSyntax.reads_setAt (iff_of_false (by omega)
        Bool.false_ne_true) hearlier (by omega) hfit.1).bind ?_
      refine ih ?_ (SetSyntax.reaches_concat hearlier hfit.1) hfit.2
      rw [List.length_append, List.length_singleton]
      omega

/-! ## Scaling lists -/

theorem reads_scalingList (sizeId : ℕ) (list : ScalingList) :
    (scalingList sizeId).Reads (list.bits sizeId) () := by
  cases list with
  | copied matrixIdDelta =>
      refine (reads_bit false).field ?_
      rw [if_neg Bool.false_ne_true]
      exact Reads.last ((reads_ueValue matrixIdDelta).map _)
  | own dcCoef deltas =>
      refine (reads_bit true).field ?_
      rw [if_pos rfl]
      refine (reads_optional Iff.rfl fun _ => reads_seValue dcCoef).field ?_
      exact Reads.last
        ((reads_times_range fun index _ => reads_seValue (deltas index)).map _)

theorem reads_scalingListData (lists : ScalingLists) :
    scalingListData.Reads (scalingListDataBits lists) () := by
  refine reads_forEach fun sizeId _ => ?_
  exact (reads_times_range fun index _ =>
    reads_scalingList sizeId (lists sizeId index)).map _

/-! ## Sequence parameter sets -/

theorem reads_subLayer (layer : SubLayer) :
    (do
      present layer.profile.isSome (skip 88) ()
      present layer.level.isSome (skip 8) () : BitReading Unit).Reads
      (layer.profile.elim [] (fun profile => toBits 88 profile) ++
        layer.level.elim [] fun level => toBits 8 level) () := by
  have hskip : ∀ {width : ℕ} (value : Option (Fin (2 ^ width))),
      (present value.isSome (skip width) ()).Reads
        (value.elim [] fun field => toBits width field) () := fun value =>
    @reads_elim _ _ _ _ _ (fun field => toBits _ field.1) (fun _ => ()) _ _
      value Iff.rfl fun field _ => reads_skip (length_toBits _ field)
  exact (hskip layer.profile).bind (hskip layer.level)

theorem reads_profileTierLevel (ptl : ProfileTierLevel)
    (maxSubLayersMinus1 : ℕ) :
    (profileTierLevel maxSubLayersMinus1).Reads (ptl.bits maxSubLayersMinus1)
      () := by
  refine (reads_skip (length_toBits 3 _)).field ?_
  refine (reads_finBits ptl.profileIdc (by decide)).field ?_
  rw [if_neg ptl.supported]
  refine (reads_skip (length_toBits 88 _)).field ?_
  refine (reads_times_range fun layer _ =>
    (reads_bit (ptl.subLayers layer).profile.isSome).bind
      ((reads_bit (ptl.subLayers layer).level.isSome).map _)).field ?_
  refine (reads_optional Iff.rfl
    fun _ => reads_skip List.length_replicate).field ?_
  rw [forEach_map]
  exact Reads.last (reads_forEach fun layer _ =>
    reads_subLayer (ptl.subLayers layer))

theorem reads_fieldsBits {count : ℕ} (values : Fin count → UeValue) :
    (times count ue).Reads (fieldsBits values)
      ((List.finRange count).map fun index => (values index).1) := by
  have hall := @reads_times _ _ _ ue (fun index => (values index).bits)
    (fun index => (values index).1) (List.finRange count)
    fun index _ => reads_ueValue (values index)
  rwa [List.length_finRange] at hall

theorem reads_widthBetween {code least most : ℕ} (h : code + least ≤ most)
    (hmost : most < 2 ^ 31) :
    (widthBetween least most).Reads (golomb code) (code + least) := by
  refine (reads_ue (by omega)).before (reads_ofExcept ?_)
  have hsum : checkedAdd (2 ^ 32) code least = some (code + least) :=
    if_pos (by omega)
  rw [hsum, Option.filter_some, if_pos (decide_eq_true h), okOr_some]

theorem reads_pcm (pcm : PcmSyntax) :
    (do
      skip 8
      let _ ← times 2 ue
      skip 1 : BitReading Unit).Reads pcm.bits () := by
  refine (reads_skip (length_toBits 8 _)).field ?_
  refine (reads_twoUe pcm.log2MinSize pcm.log2DiffSize).field ?_
  exact Reads.last (reads_skip rfl)

/-- Whether scaling lists are used, and whether those of the sequence. -/
theorem reads_scaling {γ : Type} {f : BitReading γ}
    {fields : List (List Bool)} {c : γ} (scaling : Option (Option ScalingLists))
    (hf : f.Reads fields.flatten c) :
    (do
      let enabled ← bit
      let there ← present enabled bit false
      present there scalingListData ()
      f : BitReading γ).Reads
      (announced (announced scalingListDataBits) scaling :: fields).flatten
      c := by
  rw [List.flatten_cons]
  cases scaling with
  | none =>
      exact (reads_bit false).bind ((reads_absent Bool.false_ne_true).after
        ((reads_absent Bool.false_ne_true).after hf))
  | some lists =>
      rw [announced, List.append_assoc]
      refine (reads_bit true).bind ?_
      cases lists with
      | none =>
          exact (reads_there rfl (reads_bit false)).bind
            ((reads_absent Bool.false_ne_true).after hf)
      | some lists =>
          rw [announced, List.append_assoc]
          exact (reads_there rfl (reads_bit true)).bind
            ((reads_there rfl (reads_scalingListData lists)).bind hf)

section Sequences

variable (sps : SpsSyntax)

/-- The fields between the id and the reference picture sets. -/
def SpsSyntax.front : SpsFront where
  chromaFormatIdc := sps.chromaFormatIdc
  separateColourPlane := sps.separate
  width := sps.width.1
  height := sps.height.1
  log2MaxPocLsb := sps.log2MaxPocLsb
  log2Ctb := sps.log2DiffCb + (sps.log2MinCbMinus3 + 3)
  sampleAdaptiveOffset := sps.sampleAdaptiveOffset

def SpsSyntax.value : Sps where
  chromaArrayType := sps.chromaArrayType
  separateColourPlane := sps.separate
  picSizeInCtbs := sps.picSizeInCtbs
  log2MaxPocLsb := sps.log2MaxPocLsb
  sampleAdaptiveOffset := sps.sampleAdaptiveOffset
  referenceSets := sps.sets
  longTermPresent := sps.longTerm.isSome
  longTermUsed := sps.longTermUsed
  temporalMvp := sps.temporalMvp

theorem reads_spsFront :
    (spsFront sps.maxSubLayersMinus1).Reads sps.frontFields.flatten
      sps.front := by
  refine (reads_finUe sps.chromaFormatIdc (by decide)).field ?_
  rw [if_neg (by omega)]
  refine Reads.field (a := sps.separate) (reads_present (fun hthree => ?_)
    fun hthree => ?_) ?_
  · unfold SpsSyntax.separate
    rw [decide_eq_true hthree, Bool.true_and]
    exact reads_bit _
  · unfold SpsSyntax.separate
    rw [decide_eq_false hthree, Bool.false_and]
  refine (reads_ueValue sps.width).field ?_
  refine (reads_ueValue sps.height).field ?_
  refine reads_announcedField sps.conformanceWindow
    (fun window _ => reads_fieldsBits window) ?_
  refine (reads_ueValue sps.bitDepthLuma).field ?_
  refine (reads_ueValue sps.bitDepthChroma).field ?_
  refine (reads_widthBetween (by omega) (by decide)).field ?_
  refine (reads_bit sps.orderingInfoPresent).field ?_
  have hlayers : sps.maxSubLayersMinus1.1 + 1 -
      (if sps.orderingInfoPresent = true then 0
        else sps.maxSubLayersMinus1.1) = sps.orderedLayers := by
    unfold SpsSyntax.orderedLayers
    split <;> omega
  dsimp only
  rw [hlayers]
  refine (reads_times_range fun layer _ =>
    reads_fieldsBits (sps.orderingInfo layer)).field ?_
  have hctb := sps.ctb_le
  refine (reads_widthBetween (by omega) (by decide)).field ?_
  refine (reads_widthBetween (by omega) (by decide)).field ?_
  refine (reads_fieldsBits sps.transformSizes).field ?_
  refine reads_scaling sps.scaling ?_
  refine (reads_skip rfl).field ?_
  refine (reads_bit sps.sampleAdaptiveOffset).field ?_
  refine reads_announcedField (f := fun _ _ => pure sps.front) sps.pcm
    (fun pcm _ => reads_pcm pcm) ?_
  exact reads_pure _

theorem reads_longTermListed (listed : List (ℕ × Bool))
    (hlisted : listed.length ≤ 32) :
    (longTermListed sps.log2MaxPocLsb).Reads (sps.longTermBits listed)
      (listed.map Prod.snd) := by
  refine (reads_ue (by omega)).bind ?_
  refine (reads_bounded hlisted).after ?_
  exact reads_times fun picture _ =>
    (reads_skip (length_toBits _ _)).bind (reads_bit picture.2)

theorem reads_sps : spsFields.Reads sps.bits (sps.id.1, sps.value) := by
  refine (reads_skip (length_nalHeader 33 sps.temporalId)).field ?_
  refine (reads_skip (length_toBits 4 _)).field ?_
  refine (reads_bits (by decide)).field ?_
  rw [Nat.mod_eq_of_lt (by omega)]
  refine (reads_skip rfl).field ?_
  refine (reads_profileTierLevel sps.profileTierLevel _).field ?_
  refine (reads_ueValue sps.id).field ?_
  refine (reads_spsFront sps).field ?_
  have hcount := sps.referenceSets_le
  refine (reads_ue (by omega)).field ?_
  refine (reads_bounded hcount).after ?_
  refine (reads_setsAfter (Nat.zero_add _) hcount (List.forall_mem_nil _)
    sps.referenceSets_fit).field ?_
  refine reads_announcedField sps.longTerm (fun listed hlisted =>
    reads_longTermListed sps listed (sps.longTerm_le listed hlisted)) ?_
  have hsize : divCeil sps.width.1 (2 ^ (sps.log2DiffCb +
        (sps.log2MinCbMinus3 + 3))) * divCeil sps.height.1
        (2 ^ (sps.log2DiffCb + (sps.log2MinCbMinus3 + 3))) =
      sps.picSizeInCtbs := by
    rw [Nat.add_comm sps.log2DiffCb]
    rfl
  refine Reads.last ((reads_bit sps.temporalMvp).before ?_)
  dsimp only [SpsSyntax.front]
  rw [hsize]
  exact reads_pure _

end Sequences

/-! ## Picture parameter sets -/

theorem not_isNone_iff {α : Type} (value : Option α) :
    ¬ value.isNone ↔ value.isSome := by
  cases value <;> simp

theorem reads_tiles (tiles : TileSyntax) :
    tileFields.Reads tiles.bits () := by
  refine (reads_finUe tiles.columnsMinus1 (by decide)).field ?_
  refine (reads_bounded (by omega)).after ?_
  refine (reads_finUe tiles.rowsMinus1 (by decide)).field ?_
  refine (reads_bounded (by omega)).after ?_
  refine (reads_bit tiles.sizes.isNone).field ?_
  refine (reads_elim (not_isNone_iff _) fun sizes _ =>
    reads_times_range fun index _ => reads_ueValue (sizes index)).field ?_
  exact Reads.last (reads_skip rfl)

theorem reads_deblockingControl (deblocking : DeblockingSyntax) :
    deblockingControl.Reads deblocking.bits
      (deblocking.overrideEnabled, deblocking.offsets.isNone) := by
  refine (reads_bit deblocking.overrideEnabled).bind ?_
  refine (reads_bit deblocking.offsets.isNone).bind ?_
  exact (reads_elim (not_isNone_iff _) fun offsets _ =>
    reads_twoSe offsets.1 offsets.2).map _

section Pictures

variable (pps : PpsSyntax)

def PpsSyntax.value : Pps where
  spsId := pps.spsId.1
  dependentSliceSegments := pps.dependentSliceSegmentsEnabled
  outputFlagPresent := pps.outputFlagPresent
  extraSliceHeaderBits := pps.numExtraSliceHeaderBits
  cabacInitPresent := pps.cabacInitPresent
  numRefIdxL0Default := pps.numRefIdxL0DefaultMinus1 + 1
  numRefIdxL1Default := pps.numRefIdxL1DefaultMinus1 + 1
  weightedPred := pps.weightedPred
  weightedBipred := pps.weightedBipred
  sliceChromaQpOffsetsPresent := pps.sliceChromaQpOffsetsPresent
  chromaQpOffsetListEnabled := pps.chromaQpOffsetListEnabled
  deblockingOverrideEnabled := pps.deblockingOverrideEnabled
  deblockingDisabled := pps.deblockingDisabled
  loopFilterAcrossSlices := pps.loopFilterAcrossSlices
  listsModificationPresent := pps.listsModificationPresent
  entryPoints := pps.tiles.isSome || pps.entropyCodingSync
  headerExtensionPresent := pps.sliceHeaderExtensionPresent

theorem reads_range (range : RangeExtension) :
    (do
      let _ ← present pps.transformSkip ue 0
      skip 1
      bit : BitReading Bool).Reads (pps.rangeBits range)
      range.chromaQpOffsetListEnabled := by
  refine (reads_optional Iff.rfl
    fun _ => reads_ueValue range.log2MaxTransformSkipSize).field ?_
  refine (reads_skip rfl).field ?_
  exact Reads.last (reads_bit range.chromaQpOffsetListEnabled)

theorem reads_ppsExtension (extension : PpsExtension) :
    (ppsExtension pps.transformSkip).Reads (pps.extensionBits extension)
      (extension.range.elim false
        RangeExtension.chromaQpOffsetListEnabled) := by
  refine (reads_bit extension.range.isSome).field ?_
  refine (reads_bit false).field ?_
  refine (reads_bit false).field ?_
  refine (reads_bit false).field ?_
  refine (reads_skip (length_toBits 4 _)).field ?_
  rw [if_neg (by decide)]
  exact Reads.last (reads_elim Iff.rfl fun range _ => reads_range pps range)

theorem reads_pps : ppsFields.Reads pps.bits (pps.id.1, pps.value) := by
  refine (reads_skip (length_nalHeader 34 pps.temporalId)).field ?_
  refine (reads_ueValue pps.id).field ?_
  refine (reads_ueValue pps.spsId).field ?_
  refine (reads_bit pps.dependentSliceSegmentsEnabled).field ?_
  refine (reads_bit pps.outputFlagPresent).field ?_
  refine (reads_finBits pps.numExtraSliceHeaderBits (by decide)).field ?_
  refine (reads_skip rfl).field ?_
  refine (reads_bit pps.cabacInitPresent).field ?_
  refine (reads_refCount pps.numRefIdxL0DefaultMinus1).field ?_
  refine (reads_refCount pps.numRefIdxL1DefaultMinus1).field ?_
  refine (reads_seValue pps.initQp).field ?_
  refine (reads_skip rfl).field ?_
  refine (reads_bit pps.transformSkip).field ?_
  refine reads_announcedField pps.cuQpDeltaDepth
    (fun depth _ => reads_ueValue depth) ?_
  refine (reads_twoSe pps.cbQpOffset pps.crQpOffset).field ?_
  refine (reads_bit pps.sliceChromaQpOffsetsPresent).field ?_
  refine (reads_bit pps.weightedPred).field ?_
  refine (reads_bit pps.weightedBipred).field ?_
  refine (reads_skip rfl).field ?_
  refine (reads_bit pps.tiles.isSome).field ?_
  refine (reads_bit pps.entropyCodingSync).field ?_
  refine (@reads_elim _ _ _ _ _ TileSyntax.bits (fun _ => ()) _ _ pps.tiles
    Iff.rfl fun tiles _ => reads_tiles tiles).field ?_
  refine (reads_bit pps.loopFilterAcrossSlices).field ?_
  refine reads_announcedField pps.deblocking
    (fun deblocking _ => reads_deblockingControl deblocking) ?_
  have hdeblocking : (pps.deblocking.elim (false, false) fun deblocking =>
      (deblocking.overrideEnabled, deblocking.offsets.isNone)) =
      (pps.deblockingOverrideEnabled, pps.deblockingDisabled) := by
    unfold PpsSyntax.deblockingOverrideEnabled PpsSyntax.deblockingDisabled
    cases pps.deblocking <;> rfl
  rw [hdeblocking]
  refine reads_announcedField pps.scaling
    (fun lists _ => reads_scalingListData lists) ?_
  refine (reads_bit pps.listsModificationPresent).field ?_
  refine (reads_ueValue pps.log2ParallelMergeLevel).field ?_
  refine (reads_bit pps.sliceHeaderExtensionPresent).field ?_
  refine reads_announcedField pps.extension
    (fun extension _ => reads_ppsExtension pps extension) ?_
  exact reads_pure _

end Pictures

/-! ## Slice segment headers -/

theorem reads_listModification {active total : ℕ}
    (modification : Option (ℕ → ℕ)) :
    (listModification active (ceilLog2 total)).Reads
      (SliceSyntax.modificationBits active total modification) () := by
  rw [ceilLog2_eq_clog, ← List.append_nil (SliceSyntax.modificationBits _ _ _)]
  exact reads_announced_append modification
    (fun entries _ => reads_times_range fun index _ =>
      reads_skip (length_toBits _ (entries index))) (reads_pure ())

theorem reads_referenceWeights (weights : Weights) {chroma : ℕ} {flag : Bool}
    (hflag : flag ↔ chroma ≠ 0 ∧ weights.chroma.isSome) :
    (do
      let _ ← present weights.luma.isSome (times 2 se) []
      let _ ← present flag (times 4 se) []
      pure () : BitReading Unit).Reads (weights.bits chroma) () := by
  refine (reads_elim Iff.rfl fun pair _ => reads_twoSe pair.1 pair.2).bind ?_
  by_cases hchroma : chroma ≠ 0
  · rw [if_pos hchroma]
    refine (reads_elim (hflag.trans (and_iff_right hchroma))
      fun pairs _ => reads_fourSe pairs.1.1 pairs.1.2 pairs.2.1
        pairs.2.2).map _
  · rw [if_neg hchroma]
    exact (reads_absent fun hset => hchroma (hflag.mp hset).1).after
      (reads_pure ())

theorem zipIdx_map_range {α : Type} (f : ℕ → α) (count : ℕ) :
    ((List.range count).map f).zipIdx =
      (List.range count).map fun index => (f index, index) := by
  refine List.ext_getElem? fun index => ?_
  rw [List.getElem?_zipIdx, List.getElem?_map, List.getElem?_map]
  by_cases hindex : index < count
  · rw [List.getElem?_range hindex]
    simp
  · rw [List.getElem?_eq_none (by rw [List.length_range]; omega)]
    rfl

theorem reads_listWeights (weights : ℕ → Weights) (chroma count : ℕ) :
    (listWeights chroma count).Reads (listWeightsBits weights chroma count)
      () := by
  refine (reads_times_range fun index _ =>
    reads_bit (weights index).luma.isSome).field ?_
  refine (reads_optional Iff.rfl fun _ => reads_times_range fun index _ =>
    reads_bit (weights index).chroma.isSome).field ?_
  rw [zipIdx_map_range, forEach_map]
  refine Reads.last (reads_forEach fun index hindex => ?_)
  refine reads_referenceWeights (weights index) ?_
  by_cases hchroma : chroma ≠ 0
  · rw [if_pos hchroma, List.getElem?_map,
      List.getElem?_range (List.mem_range.mp hindex)]
    exact (and_iff_right hchroma).symm
  · rw [if_neg hchroma]
    exact iff_of_false Bool.false_ne_true fun h => hchroma h.1

theorem reads_predWeightTable (table : WeightTable) (chroma l0 l1 : ℕ) :
    (predWeightTable chroma l0 l1).Reads (table.bits chroma l0 l1) () := by
  refine (reads_ueValue table.lumaLog2Denom).field ?_
  refine (reads_optional Iff.rfl
    fun _ => reads_seValue table.deltaChromaLog2Denom).field ?_
  refine (reads_listWeights table.l0 chroma l0).field ?_
  exact Reads.last (reads_listWeights table.l1 chroma l1)

theorem reads_entryPoints (points : EntryPoints) :
    entryPoints.Reads points.bits () := by
  refine (reads_ue points.offsets_lt).field ?_
  refine Reads.last (reads_optional (a := ()) Iff.rfl fun _ => ?_)
  have hwidth : checkedAdd (2 ^ 32) points.offsetLenMinus1.1 1 =
      some (points.offsetLenMinus1.1 + 1) := if_pos (by omega)
  refine Reads.bind (a := points.offsetLenMinus1.1 + 1)
    ((reads_finUe points.offsetLenMinus1 (by decide)).before
      (reads_ofExcept ?_)) ?_
  · rw [hwidth, Option.filter_some, if_pos (decide_eq_true (by omega)),
      okOr_some]
  · exact (reads_times fun offset _ => reads_skip (length_toBits _ _)).map _

section Slices

variable (slice : SliceSyntax) (sps : SpsSyntax) (pps : PpsSyntax)

theorem SpsSyntax.length_sets : sps.sets.length = sps.referenceSets.length := by
  rw [sets, length_derivedSets, List.length_nil, Nat.zero_add]

theorem SpsSyntax.sets_reach : ∀ set ∈ sps.sets, set.Reaches sps.sets.length :=
  derivedSets_reaches (List.forall_mem_nil _) sps.referenceSets_fit

/-- A choice among `count`, which takes no bits where there is none. -/
theorem reads_choice {index count : ℕ} (hindex : index < 2 ^ Nat.clog 2 count)
    (hcount : count ≤ 2 ^ 32) :
    (present (1 < count) (bits (ceilLog2 count)) 0 : BitReading ℕ).Reads
      (if 1 < count then toBits (Nat.clog 2 count) index else []) index := by
  refine reads_present (fun _ => ?_) fun hfew => ?_
  · rw [ceilLog2_eq_clog]
    have hreads := @reads_bits (Nat.clog 2 count) index
      (Nat.clog_le_of_le_pow hcount)
    rwa [Nat.mod_eq_of_lt hindex] at hreads
  · rw [Nat.clog_of_right_le_one (not_lt.mp hfew)] at hindex
    omega

theorem reads_shortTerm (hfits : slice.Fits sps) :
    (shortTermUsed sps.value).Reads (slice.shortTermBits sps)
      ((slice.currentSet sps).elim 0 ReferenceSet.used) := by
  have hlength := sps.length_sets
  have hle := sps.referenceSets_le
  unfold SliceSyntax.shortTermBits SliceSyntax.currentSet
  cases hset : slice.shortTerm with
  | listed index =>
      have hindex := hfits.listed index hset
      rw [← hlength] at hindex ⊢
      refine (reads_bit true).field ?_
      rw [if_pos rfl]
      refine (reads_choice (hindex.trans_le (Nat.le_pow_clog (by decide) _))
        (by omega)).field ?_
      refine (reads_ofExcept (a := sps.sets[index]) ?_).after ?_
      · exact (congrArg (okOr · _) (List.getElem?_eq_getElem hindex)).trans
          (okOr_some _ _)
      dsimp only
      rw [List.getElem?_eq_getElem hindex]
      exact reads_pure _
  | own set =>
      refine (reads_bit false).field ?_
      rw [if_neg Bool.false_ne_true]
      exact Reads.last ((SetSyntax.reads_setAt (iff_of_true rfl rfl)
        sps.sets_reach (by omega) (hfits.own set hset)).map _)

theorem reads_msbCycle {γ : Type} (msbCycle : Option UeValue) (value : γ) :
    (do
      let there ← bit
      let _ ← present there ue 0
      pure value : BitReading γ).Reads (announced UeValue.bits msbCycle)
      value := by
  rw [← List.append_nil (announced _ _)]
  exact reads_announced_append msbCycle
    (fun cycle _ => reads_ueValue cycle) (reads_pure value)

theorem reads_listedLongTerm {picture : ListedLongTerm}
    (hindex : picture.index < 2 ^ Nat.clog 2 sps.longTermUsed.length)
    (hcount : sps.longTermUsed.length ≤ 32) :
    (listedLongTerm sps.value).Reads (SliceSyntax.listedBits sps picture)
      (sps.longTermUsed[picture.index]?.getD false) := by
  refine (reads_choice hindex (by omega)).field ?_
  exact Reads.last (reads_msbCycle picture.msbCycle _)

theorem reads_ownLongTerm (picture : OwnLongTerm) :
    (ownLongTerm sps.value).Reads (SliceSyntax.ownBits sps picture)
      picture.used := by
  refine (reads_skip (length_toBits _ _)).field ?_
  refine (reads_bit picture.used).field ?_
  exact Reads.last (reads_msbCycle picture.msbCycle _)

theorem SpsSyntax.length_longTermUsed_le : sps.longTermUsed.length ≤ 32 := by
  unfold longTermUsed
  have hle := sps.longTerm_le
  cases hlisted : sps.longTerm with
  | none => exact Nat.zero_le _
  | some listed =>
      rw [Option.elim_some, List.length_map]
      exact hle listed hlisted

theorem SliceSyntax.length_listed_le :
    (slice.listed sps).length + slice.longTermOwn.length ≤ 32 := by
  have hle := slice.longTerm_le
  unfold listed
  split
  · exact hle
  · rw [List.length_nil]
    omega

theorem reads_longTerm (hfits : slice.Fits sps) :
    (longTermUsed sps.value).Reads (slice.longTermBits sps)
      (((slice.listed sps).map (fun picture =>
          sps.longTermUsed[picture.index]?.getD false) ++
        slice.longTermOwn.map OwnLongTerm.used).count true) := by
  have hle := slice.longTerm_le
  have hcounts := slice.length_listed_le sps
  refine Reads.field (a := (slice.listed sps).length)
    (reads_present (fun hsome => ?_) fun hnone => ?_) ?_
  · rw [SliceSyntax.listed, if_pos (show 0 < sps.longTermUsed.length from hsome)]
    exact reads_ue (by omega)
  · rw [SliceSyntax.listed, if_neg (show ¬ 0 < sps.longTermUsed.length from hnone),
      List.length_nil]
  refine (reads_ue (by omega)).field ?_
  refine Reads.after (a := (slice.listed sps).length +
    slice.longTermOwn.length) (reads_ofExcept ?_) ?_
  · have hsum : checkedAdd (2 ^ 32) (slice.listed sps).length
        slice.longTermOwn.length = some ((slice.listed sps).length +
          slice.longTermOwn.length) := if_pos (by omega)
    rw [hsum, Option.filter_some,
      if_pos (decide_eq_true (show _ ≤ maxLongTermPictures from hcounts)),
      okOr_some]
  refine (reads_times fun picture hpicture => reads_listedLongTerm sps
    (hfits.longTerm picture ?_) sps.length_longTermUsed_le).field ?_
  · unfold SliceSyntax.listed at hpicture
    split at hpicture
    · exact hpicture
    · cases hpicture
  exact Reads.last ((reads_times fun picture _ =>
    reads_ownLongTerm sps picture).map _)

theorem reads_pictureReferences (hfits : slice.Fits sps)
    (hidr : slice.isIdr = false) :
    (pictureReferences sps.value).Reads (slice.pictureBits sps)
      (slice.numPicTotalCurr sps, slice.hasTemporalMvp sps) := by
  refine (reads_skip (length_toBits _ _)).field ?_
  refine (reads_shortTerm slice sps hfits).field ?_
  refine (reads_optional Iff.rfl fun _ =>
    reads_longTerm slice sps hfits).field ?_
  refine Reads.field (a := slice.hasTemporalMvp sps)
    (reads_present (fun hmvp => ?_) fun hmvp => ?_) ?_
  · have hthere : sps.temporalMvp = true := hmvp
    unfold SliceSyntax.hasTemporalMvp
    rw [hidr, hthere]
    exact reads_bit slice.temporalMvp
  · have hmissing : sps.temporalMvp = false := Bool.eq_false_of_not_eq_true hmvp
    unfold SliceSyntax.hasTemporalMvp
    rw [hmissing, Bool.and_false, Bool.false_and]
  have htotal : slice.numPicTotalCurr sps =
      (slice.currentSet sps).elim 0 ReferenceSet.used +
        slice.longTermCurr sps := if_neg (by rw [hidr]; decide)
  rw [htotal]
  exact reads_pure _

/-- Where the numbers of references are given, and where the set's hold. -/
theorem reads_numRefIdx {f : ℕ → ℕ → BitReading Unit} {back : List (List Bool)}
    (hf : ∀ l1, (slice.isB → l1 = slice.activeL1 pps) →
      (f (slice.activeL0 pps) l1).Reads back.flatten ()) :
    (do
      let overridden ← bit
      let l0 ← present overridden refCount pps.value.numRefIdxL0Default
      let l1 ← present (overridden ∧ slice.isB) refCount
        pps.value.numRefIdxL1Default
      f l0 l1 : BitReading Unit).Reads
      (slice.numRefIdxBits :: back).flatten () := by
  rw [List.flatten_cons]
  unfold SliceSyntax.numRefIdxBits
  unfold SliceSyntax.activeL0 SliceSyntax.activeL1 at hf
  cases hoverride : slice.numRefIdxOverride with
  | none =>
      rw [hoverride] at hf
      exact (reads_bit false).bind ((reads_absent Bool.false_ne_true).after
        ((reads_absent fun h => Bool.false_ne_true h.1).after
          (hf _ fun _ => rfl)))
  | some counts =>
      rw [hoverride] at hf
      rw [announced, List.append_assoc, List.append_assoc]
      refine (reads_bit true).bind ?_
      refine (reads_there rfl (reads_refCount counts.1)).bind ?_
      refine Reads.bind (reads_optional (a := counts.2.1 + 1)
        (by simp) fun _ => reads_refCount counts.2) ?_
      exact hf _ fun hb => if_pos ⟨rfl, hb⟩

theorem reads_interFields :
    (interFields sps.value pps.value slice.isB (slice.numPicTotalCurr sps)
      (slice.hasTemporalMvp sps)).Reads (slice.interFields sps pps).flatten
      () := by
  refine reads_numRefIdx slice pps fun l1 hl1 => ?_
  have hmodified : decide (pps.value.listsModificationPresent ∧
      1 < slice.numPicTotalCurr sps) = true ↔
      pps.listsModificationPresent ∧ 1 < slice.numPicTotalCurr sps :=
    decide_eq_true_iff
  refine (reads_optional hmodified fun _ =>
    reads_listModification slice.modificationL0).field ?_
  refine (reads_optional (a := ()) (and_congr hmodified Iff.rfl)
    fun hb => ?_).field ?_
  · rw [hl1 hb.2]
    exact reads_listModification slice.modificationL1
  refine (reads_skipOptional rfl).field ?_
  refine (reads_skipOptional rfl).field ?_
  refine (reads_optional Iff.rfl
    fun _ => reads_bit slice.collocatedFromL0).field ?_
  have hfromL0 : (if slice.hasTemporalMvp sps ∧ slice.isB then
      slice.collocatedFromL0 else true) = slice.fromL0 sps := rfl
  rw [hfromL0]
  have hactive : (¬ slice.fromL0 sps ∧ 1 < l1) ↔
      (¬ slice.fromL0 sps ∧ 1 < slice.activeL1 pps) := by
    refine and_congr_right fun hother => ?_
    have hb : slice.isB := by
      by_contra hb
      exact hother (if_neg fun h => hb h.2)
    rw [hl1 hb]
  refine (reads_optional (and_congr Iff.rfl (or_congr Iff.rfl hactive))
    fun _ => reads_ueValue slice.collocatedRefIdx).field ?_
  have hcount : (if slice.isB then l1 else 0) =
      if slice.isB then slice.activeL1 pps else 0 := by
    by_cases hb : slice.isB
    · rw [if_pos hb, if_pos hb, hl1 hb]
    · rw [if_neg hb, if_neg hb]
  rw [hcount]
  refine (reads_optional Iff.rfl
    fun _ => reads_predWeightTable slice.weights _ _ _).field ?_
  exact Reads.last ((reads_ueValue slice.fiveMinusMaxNumMergeCand).map _)

theorem reads_sliceDeblocking :
    (sliceDeblocking pps.value).Reads
      (if pps.deblockingOverrideEnabled then
        announced offsetsBits slice.deblockingOverride else [])
      (slice.deblockingDisabled pps) := by
  unfold sliceDeblocking SliceSyntax.deblockingDisabled
  by_cases henabled : pps.deblockingOverrideEnabled
  · rw [if_pos henabled, if_pos henabled]
    cases slice.deblockingOverride with
    | none =>
        exact (reads_there henabled (reads_bit false)).before
          ((reads_absent Bool.false_ne_true).after
            ((reads_absent fun h => Bool.false_ne_true h.1).map _))
    | some offsets =>
        refine (reads_there henabled (reads_bit true)).bind ?_
        refine (reads_there rfl (reads_bit offsets.isNone)).bind ?_
        exact (reads_elim ((and_iff_right rfl).trans (not_isNone_iff _))
          fun pair _ => reads_twoSe pair.1 pair.2).map _
  · rw [if_neg henabled, if_neg henabled]
    exact (reads_absent henabled).after
      ((reads_absent Bool.false_ne_true).after
        ((reads_absent fun h => Bool.false_ne_true h.1).map _))

theorem ite_false_iff {condition : Prop} [Decidable condition] (flag : Bool) :
    (if condition then flag else false) = true ↔ condition ∧ flag = true := by
  by_cases hcondition : condition
  · rw [if_pos hcondition, and_iff_right hcondition]
  · rw [if_neg hcondition]
    exact iff_of_false Bool.false_ne_true fun h => hcondition h.1

theorem reads_sliceFields (hfits : slice.Fits sps) :
    (sliceFields sps.value pps.value slice.isIdr).Reads
      (slice.independentFields sps pps).flatten () := by
  refine (reads_skip (length_toBits _ _)).field ?_
  refine (reads_finUe slice.sliceType (by decide)).field ?_
  rw [if_neg (by omega)]
  refine (reads_skipOptional rfl).field ?_
  refine (reads_optional Iff.rfl fun _ => reads_skip (length_toBits 2 _)).field
    ?_
  refine Reads.field (a := (slice.numPicTotalCurr sps, slice.hasTemporalMvp sps))
    (reads_present (fun hidr => ?_) fun hidr => ?_) ?_
  · exact reads_pictureReferences slice sps hfits
      (Bool.eq_false_of_not_eq_true hidr)
  · have hthere := not_not.mp hidr
    unfold SliceSyntax.numPicTotalCurr SliceSyntax.hasTemporalMvp
    rw [hthere]
    rfl
  refine (reads_optional Iff.rfl fun _ => reads_bit slice.saoLuma).field ?_
  refine (reads_optional Iff.rfl fun _ => reads_bit slice.saoChroma).field ?_
  refine (reads_optional Iff.rfl
    fun _ => reads_interFields slice sps pps).field ?_
  refine (reads_seValue slice.sliceQpDelta).field ?_
  refine (reads_optional Iff.rfl
    fun _ => reads_twoSe slice.cbQpOffset slice.crQpOffset).field ?_
  refine (reads_skipOptional rfl).field ?_
  refine (reads_sliceDeblocking slice pps).field ?_
  refine Reads.last (reads_optional (and_congr Iff.rfl ?_)
    fun _ => reads_skip rfl)
  exact or_congr (ite_false_iff _) (or_congr (ite_false_iff _) Iff.rfl)

theorem reads_headerExtension :
    headerExtension.Reads slice.headerExtensionBits () := by
  refine (reads_ue slice.headerExtension_lt).field ?_
  refine Reads.last (reads_skip ?_)
  rw [List.length_flatMap, List.map_congr_left fun byte _ => length_toBits 8 _,
    List.map_const', List.sum_replicate, smul_eq_mul, Nat.mul_comm]

theorem reads_sliceFront :
    sliceFront.Reads (slice.frontFields pps).flatten
      { nalType := slice.nalUnitType
        firstSliceSegment := slice.firstSliceSegment
        ppsId := pps.id.1 } := by
  have htype := slice.supported
  unfold SliceSyntax.frontFields nalHeader
  rw [List.flatten_cons, List.append_assoc, List.append_assoc,
    List.append_assoc]
  refine (reads_skip rfl).bind ?_
  refine (reads_bits (by decide)).bind ?_
  rw [Nat.mod_eq_of_lt (by omega)]
  refine (reads_bits (by decide)).bind ?_
  refine (reads_skip (length_toBits 3 _)).bind ?_
  rw [if_neg (not_not_intro htype), if_neg (by decide)]
  refine (reads_bit slice.firstSliceSegment).field ?_
  refine (reads_skipOptional rfl).field ?_
  exact Reads.last ((reads_ueValue pps.id).map _)

theorem reads_sliceBack (hfits : slice.Fits sps) :
    (sliceBack sps.value pps.value
      { nalType := slice.nalUnitType
        firstSliceSegment := slice.firstSliceSegment
        ppsId := pps.id.1 }).Reads (slice.backFields sps pps).flatten () := by
  refine Reads.field (a := slice.isDependent pps)
    (reads_present (fun hthere => ?_) fun hmissing => ?_) ?_
  · have hfirst : slice.firstSliceSegment = false :=
      Bool.eq_false_of_not_eq_true hthere.1
    have henabled : pps.dependentSliceSegmentsEnabled = true := hthere.2
    unfold SliceSyntax.isDependent
    rw [hfirst, henabled]
    exact reads_bit slice.dependent
  · unfold SliceSyntax.isDependent
    have hneither : (!slice.firstSliceSegment &&
        pps.dependentSliceSegmentsEnabled) = false := by
      rw [← Bool.not_eq_true, Bool.and_eq_true, Bool.not_eq_true']
      rwa [Bool.not_eq_true] at hmissing
    rw [hneither, Bool.false_and]
  refine (reads_optional Iff.rfl fun _ => reads_skip ?_).field ?_
  · rw [length_toBits, ceilLog2_eq_clog]
    rfl
  refine (reads_optional Iff.rfl
    fun _ => reads_sliceFields slice sps pps hfits).field ?_
  refine (reads_optional Bool.or_eq_true_iff
    fun _ => reads_entryPoints slice.entryPoints).field ?_
  exact Reads.last (reads_optional Iff.rfl
    fun _ => reads_headerExtension slice)

theorem reads_sliceHeader {parameters : Parameters}
    (hsets : parameters.sets pps.id.1 = .ok (sps.value, pps.value))
    (hfits : slice.Fits sps) :
    (sliceHeader parameters).Reads (slice.bits sps pps) () := by
  unfold SliceSyntax.bits
  rw [List.flatten_append]
  exact (reads_sliceFront slice pps).bind
    ((reads_ofExcept hsets).after (reads_sliceBack slice sps pps hfits))

end Slices

end Segmentor.Hevc
