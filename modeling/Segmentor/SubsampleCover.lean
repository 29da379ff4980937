import Segmentor.Subsamples

/-!
# What subsample maps cover

The map of a sample is read back as a cover of the sample.  Its clear and
protected counts come one after another, and they protect the slices behind
their headers and nothing else.
-/

namespace Segmentor

open General

/-! ## Covers -/

/-- The bytes a map counts. -/
def SubsampleMap.total (map : SubsampleMap) : ℕ :=
  (map.map fun entry => entry.1 + entry.2).sum

/-- The protected ranges of a map from `place` on, those without bytes left
out. -/
def SubsampleMap.ranges : ℕ → SubsampleMap → List (ℕ × ℕ)
  | _, [] => []
  | place, (clear, size) :: map =>
      (if size = 0 then []
        else [(place + clear, place + clear + size)]) ++
        ranges (place + clear + size) map

/-- A NAL unit and, for a slice, how many of its bytes stay clear. -/
structure MeasuredNal where
  bytes : List UInt8
  header : Option ℕ

/-- A NAL unit behind its length. -/
def framed (lengthSize : ℕ) (nal : List UInt8) : List UInt8 :=
  encode lengthSize nal.length ++ nal

/-- What slices have behind their headers, for NAL units framed from `place`
on. -/
def sliceData (lengthSize : ℕ) : ℕ → List MeasuredNal → List (ℕ × ℕ)
  | _, [] => []
  | place, unit :: units =>
      let start := place + lengthSize
      let stop := start + unit.bytes.length
      (unit.header.elim [] fun header =>
        if unit.bytes.length = header then [] else [(start + header, stop)]) ++
        sliceData lengthSize stop units

namespace SliceCodec

variable {Sets : Type} (codec : SliceCodec Sets)

/-- The parameter sets after one more NAL unit. -/
def takeIn (sets : Sets) (nal : List UInt8) : Result Sets :=
  match nal.head?.map codec.role with
  | some .parameterSet => codec.update sets nal
  | _ => .ok sets

/-- The parameter sets after some NAL units. -/
def inForce (sets : Sets) (nals : List (List UInt8)) : Result Sets :=
  nals.foldlM codec.takeIn sets

/-- A slice measured with `sets`, or a NAL unit without a clear header. -/
def Measures (sets : Sets) (unit : MeasuredNal) : Prop :=
  ∃ first, unit.bytes.head? = some first ∧
    match codec.role first with
    | .slice => ∃ header, unit.header = some header ∧
        codec.clearBytes sets unit.bytes = .ok header ∧
        header ≤ unit.bytes.length
    | .refused _ => False
    | _ => unit.header = none

/-- Every NAL unit is measured with the sets of the sample entry and of the
units in front of it. -/
def MeasuresAll (parameters : Sets) (units : List MeasuredNal) : Prop :=
  ∀ index unit, units[index]? = some unit →
    ∃ sets, codec.inForce parameters
        ((units.take index).map MeasuredNal.bytes) = .ok sets ∧
      codec.Measures sets unit

/-- The map accounts for the sample: its NAL units one after another, every
byte once, the slices protected from behind their headers to their ends. -/
structure Covers (parameters : Sets) (sample : List UInt8)
    (map : SubsampleMap) : Prop where
  covered : ∃ units : List MeasuredNal,
    sample = units.flatMap (fun unit =>
      framed (codec.nalLengthSize parameters) unit.bytes) ∧
    codec.MeasuresAll parameters units ∧
    map.ranges 0 = sliceData (codec.nalLengthSize parameters) 0 units
  total : map.total = sample.length
  short : map.length ≤ MAX_SUBSAMPLES
  clear_lt : ∀ entry ∈ map, entry.1 < 2 ^ 16

end SliceCodec

/-! ## Adding to a map -/

namespace SubsampleMap

@[simp] theorem total_nil : total [] = 0 := rfl

theorem total_append (map others : SubsampleMap) :
    total (map ++ others) = total map + total others := by
  unfold total
  rw [List.map_append, List.sum_append]

theorem ranges_append (place : ℕ) (map others : SubsampleMap) :
    ranges place (map ++ others) =
      ranges place map ++ ranges (place + total map) others := by
  induction map generalizing place with
  | nil => rfl
  | cons entry map ih =>
      obtain ⟨clear, size⟩ := entry
      have htotal : total ((clear, size) :: map) = clear + size + total map := by
        unfold total
        rw [List.map_cons, List.sum_cons]
      rw [List.cons_append, ranges, ranges, ih, htotal, List.append_assoc]
      congr 3
      omega

end SubsampleMap

/-- Runs are clear, and they and what is left of them are the clear bytes. -/
theorem clearRuns_spec {turns clear : ℕ} (hturns : clear ≤ turns) :
    SubsampleMap.total (clearRuns turns clear).1 + (clearRuns turns clear).2 =
        clear ∧
      (∀ place, SubsampleMap.ranges place (clearRuns turns clear).1 = []) ∧
      (clearRuns turns clear).2 < 2 ^ 16 ∧
      ∀ entry ∈ (clearRuns turns clear).1, entry.1 < 2 ^ 16 := by
  induction turns generalizing clear with
  | zero =>
      obtain rfl : clear = 0 := by omega
      exact ⟨rfl, fun _ => rfl, by decide, by simp [clearRuns]⟩
  | succ turns ih =>
      rw [clearRuns]
      by_cases hlong : 2 ^ 16 - 1 < clear
      · rw [if_pos hlong]
        obtain ⟨htotal, hranges, hrest, hruns⟩ :=
          @ih (clear - (2 ^ 16 - 1)) (by omega)
        dsimp only
        refine ⟨?_, fun place => ?_, hrest, ?_⟩
        · unfold SubsampleMap.total at htotal ⊢
          rw [List.map_cons, List.sum_cons]
          omega
        · rw [SubsampleMap.ranges, hranges]
          rfl
        · rw [List.forall_mem_cons]
          exact ⟨by decide, hruns⟩
      · rw [if_neg hlong]
        exact ⟨by simp, fun _ => rfl, by omega, by simp⟩

/-- What is pushed is the clear bytes and then the protected ones. -/
theorem pushSubsample_spec {map pushed : SubsampleMap} {clear size : ℕ}
    (h : pushSubsample map clear size = .ok pushed) :
    pushed.total = map.total + (clear + size) ∧
      (∀ place, pushed.ranges place = map.ranges place ++
        if size = 0 then []
        else [(place + map.total + clear, place + map.total + clear + size)]) ∧
      ((∀ entry ∈ map, entry.1 < 2 ^ 16) →
        ∀ entry ∈ pushed, entry.1 < 2 ^ 16) := by
  obtain ⟨htotal, hranges, hrest, hruns⟩ := @clearRuns_spec clear clear le_rfl
  unfold pushSubsample at h
  dsimp only at h
  split at h
  · obtain rfl := Except.ok.inj h
    have hlast : SubsampleMap.total [((clearRuns clear clear).2, size)] =
        (clearRuns clear clear).2 + size := by
      simp [SubsampleMap.total]
    refine ⟨?_, fun place => ?_, fun hmap => ?_⟩
    · rw [SubsampleMap.total_append, SubsampleMap.total_append, hlast]
      omega
    · rw [SubsampleMap.ranges_append, SubsampleMap.ranges_append, hranges,
        List.append_nil, SubsampleMap.total_append, SubsampleMap.ranges,
        SubsampleMap.ranges, List.append_nil]
      have hplace : place + (map.total +
          SubsampleMap.total (clearRuns clear clear).1) +
            (clearRuns clear clear).2 = place + map.total + clear := by
        omega
      rw [hplace]
    · rw [List.forall_mem_append, List.forall_mem_append,
        List.forall_mem_singleton]
      exact ⟨⟨hmap, hruns⟩, hrest⟩
  · cases h

/-! ## Adding to a walk -/

theorem sliceData_append (lengthSize place : ℕ) (units : List MeasuredNal)
    (unit : MeasuredNal) :
    sliceData lengthSize place (units ++ [unit]) =
      sliceData lengthSize place units ++
        sliceData lengthSize (place + (units.flatMap fun unit =>
          framed lengthSize unit.bytes).length) [unit] := by
  induction units generalizing place with
  | nil => rfl
  | cons first units ih =>
      rw [List.cons_append, sliceData, sliceData, ih, List.append_assoc,
        List.flatMap_cons, List.length_append]
      congr 3
      unfold framed
      rw [List.length_append, length_encode]
      omega

/-- A NAL unit found behind its length is framed there. -/
theorem nalAt_spec {lengthSize place : ℕ} {sample nal : List UInt8}
    (h : nalAt lengthSize sample place = .ok nal) :
    place + lengthSize + nal.length ≤ sample.length ∧
      sample.take (place + lengthSize + nal.length) =
        sample.take place ++ framed lengthSize nal := by
  unfold nalAt at h
  split at h
  · cases h
  · dsimp only at h
    split at h
    · cases h
    · rename_i hprefix hlength
      obtain rfl := Except.ok.inj h
      have hnal : ((sample.drop (place + lengthSize)).take
          (decode ((sample.drop place).take lengthSize))).length =
            decode ((sample.drop place).take lengthSize) := by
        rw [List.length_take, List.length_drop]
        omega
      have hencoded : encode lengthSize
          (decode ((sample.drop place).take lengthSize)) =
            (sample.drop place).take lengthSize := by
        have hwidth : ((sample.drop place).take lengthSize).length =
            lengthSize := by
          rw [List.length_take, List.length_drop]
          omega
        have hback := encode_decode ((sample.drop place).take lengthSize)
        rwa [hwidth] at hback
      rw [hnal]
      refine ⟨by omega, ?_⟩
      unfold framed
      rw [hnal, hencoded, List.take_add, List.take_add, List.append_assoc]

namespace SliceCodec

variable {Sets : Type} {codec : SliceCodec Sets} {parameters : Sets}
  {sample : List UInt8}

/-- What holds of a walk that has come over `units`. -/
structure Holds (codec : SliceCodec Sets) (parameters : Sets)
    (sample : List UInt8) (walk : NalWalk Sets) (units : List MeasuredNal) :
    Prop where
  place_le : walk.place ≤ sample.length
  walked : sample.take walk.place = units.flatMap fun unit =>
    framed (codec.nalLengthSize parameters) unit.bytes
  measured : codec.MeasuresAll parameters units
  sets : codec.inForce parameters (units.map MeasuredNal.bytes) =
    .ok (walk.inBand.getD parameters)
  total : walk.map.total + walk.clear = walk.place
  ranges : walk.map.ranges 0 =
    sliceData (codec.nalLengthSize parameters) 0 units
  clear_lt : ∀ entry ∈ walk.map, entry.1 < 2 ^ 16

theorem holds_start : Holds codec parameters sample (.start Sets) [] where
  place_le := Nat.zero_le _
  walked := rfl
  measured := by
    intro index unit hunit
    cases hunit
  sets := rfl
  total := rfl
  ranges := rfl
  clear_lt := by simp [NalWalk.start]

theorem MeasuresAll.append {units : List MeasuredNal} {unit : MeasuredNal}
    {sets : Sets} (h : codec.MeasuresAll parameters units)
    (hsets : codec.inForce parameters (units.map MeasuredNal.bytes) = .ok sets)
    (hunit : codec.Measures sets unit) :
    codec.MeasuresAll parameters (units ++ [unit]) := by
  intro index other hother
  by_cases hlt : index < units.length
  · rw [List.getElem?_append_left hlt] at hother
    rw [List.take_append_of_le_length (by omega)]
    exact h index other hother
  · rw [List.getElem?_append_right (by omega)] at hother
    have hindex := (List.getElem?_eq_some_iff.mp hother).1
    rw [List.length_singleton] at hindex
    obtain rfl : index = units.length := by omega
    rw [Nat.sub_self, List.getElem?_cons_zero] at hother
    obtain rfl := Option.some.inj hother
    rw [List.take_left]
    exact ⟨sets, hsets, hunit⟩

/-- One NAL unit more. -/
theorem Holds.next {walk after : NalWalk Sets} {units : List MeasuredNal}
    {unit : MeasuredNal} (h : Holds codec parameters sample walk units)
    (hnal : nalAt (codec.nalLengthSize parameters) sample walk.place =
      .ok unit.bytes)
    (hunit : codec.Measures (walk.inBand.getD parameters) unit)
    (hsets : codec.takeIn (walk.inBand.getD parameters) unit.bytes =
      .ok (after.inBand.getD parameters))
    (hplace : after.place = walk.place + codec.nalLengthSize parameters +
      unit.bytes.length)
    (htotal : after.map.total + after.clear = after.place)
    (hranges : after.map.ranges 0 = walk.map.ranges 0 ++
      sliceData (codec.nalLengthSize parameters) walk.place [unit])
    (hclear : ∀ entry ∈ after.map, entry.1 < 2 ^ 16) :
    Holds codec parameters sample after (units ++ [unit]) := by
  obtain ⟨hle, htake⟩ := nalAt_spec hnal
  have hwalked := h.walked
  constructor
  · rw [hplace]
    exact hle
  · rw [hplace, htake, hwalked, List.flatMap_append, List.flatMap_singleton]
  · exact h.measured.append h.sets hunit
  · unfold inForce
    rw [List.map_append, List.map_singleton, List.foldlM_append]
    have hbefore := h.sets
    unfold inForce at hbefore
    rw [hbefore, ok_bind, List.foldlM_cons, hsets, ok_bind]
    rfl
  · exact htotal
  · have hlength : (units.flatMap fun unit =>
        framed (codec.nalLengthSize parameters) unit.bytes).length =
          walk.place := by
      rw [← hwalked, List.length_take, Nat.min_eq_left h.place_le]
    rw [hranges, h.ranges, sliceData_append, hlength, Nat.zero_add]
  · exact hclear

/-- A turn of the walk comes over one NAL unit, and makes headway. -/
theorem Holds.step {walk after : NalWalk Sets} {units : List MeasuredNal}
    (h : Holds codec parameters sample walk units)
    (hstep : codec.step parameters sample walk = .ok after) :
    walk.place < after.place ∧
      ∃ unit, Holds codec parameters sample after (units ++ [unit]) := by
  unfold SliceCodec.step at hstep
  obtain ⟨nal, hnal, hstep⟩ := bind_eq_ok_iff.mp hstep
  obtain ⟨first, hfirst, hstep⟩ := bind_eq_ok_iff.mp hstep
  rw [okOr_eq_ok_iff] at hfirst
  have hpos : 0 < nal.length := List.length_pos_of_mem (List.mem_of_head? hfirst)
  cases hrole : codec.role first with
  | slice =>
      rw [hrole] at hstep
      obtain ⟨header, hheader, hstep⟩ := bind_eq_ok_iff.mp hstep
      obtain ⟨map, hmap, hstep⟩ := bind_eq_ok_iff.mp hstep
      obtain rfl := Except.ok.inj hstep
      have hle := codec.clearBytes_le hheader
      obtain ⟨htotal, hranges, hclear⟩ := pushSubsample_spec hmap
      have hbefore := h.total
      refine ⟨by dsimp only; omega, ⟨nal, some header⟩, ?_⟩
      refine h.next hnal ⟨first, hfirst, ?_⟩ ?_ rfl ?_ ?_ ?_
      · rw [hrole]
        exact ⟨header, rfl, hheader, hle⟩
      · unfold takeIn
        dsimp only
        rw [hfirst, Option.map_some, hrole]
      · dsimp only
        omega
      · dsimp only
        rw [hranges, Nat.zero_add, sliceData, sliceData, List.append_nil]
        congr 1
        dsimp only
        by_cases hwhole : nal.length = header
        · rw [if_pos (by omega), Option.elim_some, if_pos hwhole]
        · rw [if_neg (by omega), Option.elim_some, if_neg hwhole]
          congr 2 <;> omega
      · exact hclear h.clear_lt
  | refused error =>
      rw [hrole] at hstep
      cases hstep
  | parameterSet =>
      rw [hrole] at hstep
      obtain ⟨sets, hsets, hstep⟩ := bind_eq_ok_iff.mp hstep
      obtain rfl := Except.ok.inj hstep
      have hbefore := h.total
      refine ⟨by dsimp only; omega, ⟨nal, none⟩, ?_⟩
      refine h.next hnal ⟨first, hfirst, ?_⟩ ?_ rfl ?_ ?_ h.clear_lt
      · rw [hrole]
      · unfold takeIn
        dsimp only
        rw [hfirst, Option.map_some, hrole]
        exact hsets
      · dsimp only
        omega
      · exact (List.append_nil _).symm
  | other =>
      rw [hrole] at hstep
      obtain rfl := Except.ok.inj hstep
      have hbefore := h.total
      refine ⟨by dsimp only; omega, ⟨nal, none⟩, ?_⟩
      refine h.next hnal ⟨first, hfirst, ?_⟩ ?_ rfl ?_ ?_ h.clear_lt
      · rw [hrole]
      · unfold takeIn
        dsimp only
        rw [hfirst, Option.map_some, hrole]
      · dsimp only
        omega
      · exact (List.append_nil _).symm

/-- Enough turns walk the sample, and what holds is kept to its end. -/
theorem Holds.walk {turns : ℕ} {walk : NalWalk Sets} {units : List MeasuredNal}
    (h : Holds codec parameters sample walk units)
    (hturns : sample.length ≤ walk.place + turns) :
    ∃ result, codec.walk parameters sample turns walk = some result ∧
      ∀ walked, result = .ok walked → walked.place = sample.length ∧
        ∃ all, Holds codec parameters sample walked all := by
  induction turns generalizing walk units with
  | zero =>
      have hend := h.place_le
      rw [SliceCodec.walk, if_pos (by omega)]
      refine ⟨_, rfl, fun walked hwalked => ?_⟩
      obtain rfl := Except.ok.inj hwalked
      exact ⟨by omega, units, h⟩
  | succ turns ih =>
      have hend := h.place_le
      rw [SliceCodec.walk]
      by_cases hdone : sample.length ≤ walk.place
      · rw [if_pos hdone]
        refine ⟨_, rfl, fun walked hwalked => ?_⟩
        obtain rfl := Except.ok.inj hwalked
        exact ⟨by omega, units, h⟩
      · rw [if_neg hdone]
        cases hstep : codec.step parameters sample walk with
        | error error => exact ⟨_, rfl, fun walked hwalked => by cases hwalked⟩
        | ok after =>
            obtain ⟨hlt, unit, hafter⟩ := h.step hstep
            exact ih hafter (by omega)

/-- At the end of a sample its map is a cover. -/
theorem Holds.finish {walk : NalWalk Sets} {units : List MeasuredNal}
    {map : SubsampleMap} (h : Holds codec parameters sample walk units)
    (hplace : walk.place = sample.length)
    (hfinish : SliceCodec.finish walk = .ok map) :
    codec.Covers parameters sample map := by
  have hunits : sample = units.flatMap fun unit =>
      framed (codec.nalLengthSize parameters) unit.bytes := by
    rw [← h.walked, hplace, List.take_length]
  have htotal := h.total
  unfold SliceCodec.finish at hfinish
  obtain ⟨last, hlast, hfinish⟩ := bind_eq_ok_iff.mp hfinish
  split at hfinish
  · cases hfinish
  · obtain rfl := Except.ok.inj hfinish
    split at hlast
    · obtain ⟨hadded, hranges, hclear⟩ := pushSubsample_spec hlast
      refine ⟨⟨units, hunits, h.measured, ?_⟩, by omega, by omega,
        hclear h.clear_lt⟩
      rw [hranges, if_pos rfl, List.append_nil, h.ranges]
    · obtain rfl := Except.ok.inj hlast
      exact ⟨⟨units, hunits, h.measured, h.ranges⟩, by omega, by omega,
        h.clear_lt⟩

/-- The loop over any sample ends, and its map covers the sample. -/
theorem subsamples_spec (parameters : Sets) (sample : List UInt8) :
    ∃ result, codec.subsamples parameters sample = some result ∧
      ∀ map, result = .ok map → codec.Covers parameters sample map := by
  obtain ⟨walked, hwalk, hholds⟩ :=
    (@holds_start Sets codec parameters sample).walk
      (show sample.length ≤ 0 + sample.length by omega)
  unfold subsamples
  rw [hwalk]
  refine ⟨_, rfl, fun map hmap => ?_⟩
  obtain ⟨last, rfl, hfinish⟩ := bind_eq_ok_iff.mp hmap
  obtain ⟨hplace, units, hunits⟩ := hholds last rfl
  exact hunits.finish hplace hfinish

end SliceCodec

/-- The loop over a sample of either codec ends, and the map of a sample that
is not refused counts every byte of it once, in at most forty-two entries whose
clear counts are words, and protects each slice from behind its header and
nothing else. -/
theorem subsample_maps_cover (sample : List UInt8) :
    (∀ parameters : Avc.Parameters,
      ∃ result, avcSubsamples parameters sample = some result ∧
        ∀ map, result = .ok map → avcCodec.Covers parameters sample map) ∧
    ∀ parameters : Hevc.Parameters,
      ∃ result, hevcSubsamples parameters sample = some result ∧
        ∀ map, result = .ok map → hevcCodec.Covers parameters sample map :=
  ⟨fun parameters => avcCodec.subsamples_spec parameters sample,
    fun parameters => hevcCodec.subsamples_spec parameters sample⟩

end Segmentor
