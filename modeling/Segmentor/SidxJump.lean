import Segmentor.WalkRuns

/-!
# Jumping over a region

A `sidx` says where to look: the walk jumps over the region it lists once
every subsegment is a whole number of boxes with a `moof` among them.  Up to
the jump both walks go through the same boxes, and from its end on they do so
again.  So the jump is seen by what the region's other boxes would have done
to the state, and by boxes whose size is the rest of the file.
-/

namespace Segmentor

open General

variable {source : List UInt8} {limits : LimitsConfig}

/-! ## A walk with and without its `sidx` -/

namespace Walk

variable {walk next final : Walk} {offset stop : ℕ} {box : BoxHeader}
  {l : List (ℕ × BoxHeader)}

/-- The walk without what it may use later. -/
abbrev erase (walk : Walk) : Walk :=
  { walk with pending := none }

@[simp] theorem erase_arrive : (walk.arrive offset).erase = walk.erase := by
  obtain ⟨pending, harrive, -⟩ := arrive_eq walk offset
  rw [harrive]

theorem erase_steady : Steady false walk.erase :=
  ⟨rfl, .inl rfl⟩

theorem countOther_erase :
    walk.countOther.map erase = walk.erase.countOther := by
  unfold countOther
  by_cases h : MAX_OTHER_BOXES < walk.otherBoxes + 1
  · rw [if_pos h, if_pos h]
    rfl
  · rw [if_neg h, if_neg h]
    rfl

/-- A `sidx` is counted like any other box. -/
theorem record_erase :
    (walk.record source limits true offset box).map erase =
      walk.erase.record source limits false offset box := by
  have hname : code 's' 'i' 'd' 'x' ≠ code 'm' 'd' 'a' 't' := by decide
  unfold record
  simp only [Bool.false_eq_true, false_and, and_false, if_false]
  by_cases hmoov : box.name = code 'm' 'o' 'o' 'v'
  · simp only [hmoov, if_true]
    split <;> rfl
  · by_cases hmoof : box.name = code 'm' 'o' 'o' 'f'
    · rw [if_neg hmoov, if_neg hmoov, if_pos hmoof, if_pos hmoof]
      by_cases hmany : limits.maxFragments ≤ walk.fragments.length
      · rw [if_pos hmany, if_pos hmany]
        rfl
      · rw [if_neg hmany, if_neg hmany]
        unfold addMetadataBytes
        dsimp only
        by_cases hbytes : limits.maxMetadataBytes <
            saturatingAdd (2 ^ 64) walk.metadataBytes box.size
        · rw [if_pos hbytes, if_pos hbytes]
          rfl
        · rw [if_neg hbytes, if_neg hbytes]
          rfl
    · simp only [hmoov, hmoof, if_false]
      split
      · rename_i hsidx
        rw [hsidx.1, if_neg hname, ← countOther_erase]
        cases walk.countOther with
        | error error => rfl
        | ok next =>
            simp only [ok_bind, Except.map]
            split <;> rfl
      · split
        · by_cases hmedia : limits.maxFragments + 16 < walk.mediaBoxes + 1
          · rw [if_pos hmedia, if_pos hmedia]
            rfl
          · rw [if_neg hmedia, if_neg hmedia]
            rfl
        · exact countOther_erase

theorem drop_erase {cut : Cut} :
    walk.erase.drop offset cut =
      ((walk.drop offset cut).1.erase, (walk.drop offset cut).2) := by
  unfold drop
  simp only [erase]
  split
  · split <;> rfl
  · rfl

theorem handleCut_erase {error : Error} :
    (walk.handleCut source limits offset error).map erase =
      walk.erase.handleCut source limits offset error := by
  unfold handleCut
  simp only [drop_erase]
  by_cases hnil : walk.fragments = []
  · rw [if_pos hnil, if_pos hnil]
    rfl
  · rw [if_neg hnil, if_neg hnil]
    cases cutBox source offset with
    | none => rfl
    | some cut =>
        dsimp only
        split
        · rfl
        · by_cases hleft : (walk.drop offset cut).1.fragments = []
          · rw [if_pos hleft, if_pos hleft]
            rfl
          · rw [if_neg hleft, if_neg hleft]
            rfl

/-- The rounds of a walk that go past a box, from one state and offset to
another. -/
inductive Steps (source : List UInt8) (limits : LimitsConfig) :
    Walk → ℕ → Walk → ℕ → Prop
  | refl (walk : Walk) (offset : ℕ) : Steps source limits walk offset walk offset
  | box {walk next final : Walk} {offset stop : ℕ} {box : BoxHeader}
      (hregion : walk.region source offset = none)
      (hbox : boxAt source source.length offset = some box)
      (hrecord : (walk.arrive offset).record source limits true offset box =
        .ok next)
      (hrest : Steps source limits next (offset + box.size) final stop) :
      Steps source limits walk offset final stop

theorem Steps.run_eq (h : Steps source limits walk offset final stop) :
    run source limits true walk offset = run source limits true final stop := by
  induction h with
  | refl => rfl
  | box hregion hbox hrecord _ ih =>
      rw [run_box hregion hbox, hrecord, ok_bind, ih]

theorem record_erase_of_ok
    (h : (walk.arrive offset).record source limits true offset box = .ok next) :
    walk.erase.record source limits false offset box = .ok next.erase := by
  rw [← @Walk.erase_arrive _ offset, ← record_erase, h]
  rfl

/-- The same rounds of the walk that uses no `sidx`. -/
theorem Steps.erase (h : Steps source limits walk offset final stop)
    (hwithin : Within limits walk.erase) :
    Within limits final.erase ∧
      run source limits false walk.erase offset =
        run source limits false final.erase stop ∧
      ∃ l, Boxes source source.length offset l stop ∧
        final.erase = keepAll source walk.erase l := by
  induction h with
  | refl walk offset => exact ⟨hwithin, rfl, [], .nil offset, rfl⟩
  | @box walk next final offset stop box hregion hbox hrecord hrest ih =>
      have hsequential := record_erase_of_ok hrecord
      obtain ⟨hkeep, hnext, -⟩ :=
        (@Walk.record_eq_ok_iff _ _ _ _ (offset, box) _ erase_steady hwithin).mp
        hsequential
      obtain ⟨hfinal, hrun, l, hl, heq⟩ := ih hnext
      refine ⟨hfinal, ?_, (offset, box) :: l, .cons hbox hl, ?_⟩
      · rw [run_box (region_of_pending rfl) hbox, arrive_of_pending rfl,
          hsequential, ok_bind, hrun]
      · rw [heq, hkeep, keepAll_cons]

/-- A walk either jumps somewhere, or is the walk that uses no `sidx`. -/
theorem run_or_jump (walk : Walk) (offset : ℕ) :
    (run source limits true walk offset).map Walk.erase =
        run source limits false walk.erase offset ∨
      ∃ before start, Steps source limits walk offset before start ∧
        start < source.length ∧
          ∃ region, before.region source start = some region := by
  induction hremaining : source.length - offset using Nat.strongRecOn
    generalizing walk offset with
  | ind remaining ih =>
      by_cases hlt : offset < source.length
      · cases hregion : walk.region source offset with
        | some region =>
            exact .inr ⟨walk, offset, .refl walk offset, hlt, region, hregion⟩
        | none =>
            cases hbox : boxAt source source.length offset with
            | none =>
                refine .inl ?_
                rw [run_end hregion hbox,
                  run_end (region_of_pending rfl) hbox, if_pos hlt,
                  if_pos hlt, @Walk.arrive_of_pending walk.erase _ rfl]
                unfold finish
                rw [if_pos hlt, if_pos hlt, handleCut_erase, erase_arrive]
            | some box =>
                have hpos := (boxAt_advances source source.length).pos hbox
                rw [run_box hregion hbox,
                  run_box (region_of_pending rfl) hbox,
                  @Walk.arrive_of_pending walk.erase _ rfl,
                  ← @Walk.erase_arrive _ offset, ← record_erase]
                cases hrecord : (walk.arrive offset).record source limits
                    true offset box with
                | error error => exact .inl rfl
                | ok next =>
                    rcases ih (source.length - (offset + box.size)) (by omega)
                        next (offset + box.size) rfl with
                      hsame | ⟨before, start, hsteps, hjump⟩
                    · exact .inl hsame
                    · exact .inr ⟨before, start,
                        .box hregion hbox hrecord hsteps, hjump⟩
      · refine .inl ?_
        rw [run_of_le (by omega), run_of_le (by omega)]
        rfl

end Walk

/-! ## The boxes of a region -/

/-- The boxes of a subsegment are the ones the walk goes through, unless the
last of them stands for the rest of the file. -/
theorem boxes_extend {start stop final : ℕ} {l : List (ℕ × BoxHeader)}
    (h : Boxes source stop start l final) (hstop : stop ≤ source.length) :
    Boxes source source.length start l final ∨
      ∃ before last box, l = before ++ [(last, box)] ∧
        Boxes source source.length start before last ∧
          size32 source last = 0 ∧
            boxAt source source.length last =
                some ⟨box.name, source.length - last⟩ ∧
              last + box.size = final ∧ final = stop ∧
                stop < source.length := by
  induction h with
  | nil start => exact .inl (.nil start)
  | @cons start final box rest hitem hrest ih =>
      rcases boxAt_extend hstop hitem with hsame | ⟨hzero, hsize, hwhole⟩
      · rcases ih with hl | ⟨before, last, box', rfl, hbefore, hlast⟩
        · exact .inl (.cons hsame hl)
        · exact .inr ⟨(start, box) :: before, last, box', rfl,
            .cons hsame hbefore, hlast⟩
      · have hlt := Walk.lt_of_boxAt hitem
        have hname : box.name = boxName source start :=
          (header_eq_ok_iff.mp (boxAt_eq_some_iff.mp hitem)).2.2.2
        have hrest' : rest = [] ∧ final = stop := by
          cases hrest with
          | nil => exact ⟨rfl, by omega⟩
          | cons hnext _ =>
              rw [boxAt_of_le (by omega)] at hnext
              simp at hnext
        obtain ⟨rfl, rfl⟩ := hrest'
        rcases hstop.lt_or_eq with hlt' | heq
        · refine .inr ⟨[], start, box, rfl, .nil start, hzero, ?_, by omega,
            rfl, hlt'⟩
          rw [hwhole, hname]
        · refine .inl (.cons ?_ (Scan.nil_iff.mpr (Scan.nil_iff.mp hrest)))
          rw [← heq]
          exact hitem

theorem Subsegments.eq_nil {start : ℕ} {l : List (ℕ × BoxHeader)}
    (h : Subsegments source start [] l) : l = [] := by
  cases h
  rfl

theorem Subsegments.sum_pos {start : ℕ} {sizes : List ℕ}
    {l : List (ℕ × BoxHeader)} (h : Subsegments source start sizes l)
    (hsizes : sizes ≠ []) : 0 < sizes.sum := by
  cases h with
  | nil => exact absurd rfl hsizes
  | @cons _ size _ l _ hboxes hmoof _ =>
      have hsize : size ≠ 0 := by
        rintro rfl
        cases hboxes with
        | nil => simp at hmoof
        | cons hitem _ => simp [boxAt_of_le] at hitem
      rw [List.sum_cons]
      omega

/-- The boxes of a region are the ones the walk goes through, and a box that
stands for the rest of the file is in the last subsegment; or one of them
stands for the rest of the file before the file ends. -/
theorem Subsegments.boxes {start : ℕ} {sizes : List ℕ}
    {l : List (ℕ × BoxHeader)} (h : Subsegments source start sizes l)
    (hle : start + sizes.sum ≤ source.length) :
    (Boxes source source.length start l (start + sizes.sum) ∧
        ∀ entry ∈ l, size32 source entry.1 = 0 →
          start + sizes.dropLast.sum ≤ entry.1) ∨
      ∃ before last box rest, l = before ++ (last, box) :: rest ∧
        Boxes source source.length start before last ∧
          size32 source last = 0 ∧
            boxAt source source.length last =
                some ⟨box.name, source.length - last⟩ ∧
              last + box.size < source.length ∧
              last < start + sizes.sum ∧
                ((rest = [] ∧ last + box.size = start + sizes.sum ∧
                    start + sizes.dropLast.sum ≤ last) ∨
                  (ofKind .moof rest ≠ [] ∧
                    last < start + sizes.dropLast.sum)) := by
  induction h with
  | nil start => exact .inl ⟨by simp, by simp⟩
  | @cons start size sizes l rest hboxes hmoof hrest ih =>
      rw [List.sum_cons, ← Nat.add_assoc] at hle ⊢
      have hdrop : sizes ≠ [] →
          (size :: sizes).dropLast.sum = size + sizes.dropLast.sum := by
        intro hsizes
        rw [List.dropLast_cons_of_ne_nil hsizes, List.sum_cons]
      rcases boxes_extend hboxes (by omega) with
        hl | ⟨before, last, box, rfl, hbefore, hzero, hbox, hsize, -, hlt⟩
      · rcases ih hle with ⟨hrest', hzeros⟩ |
          ⟨before, last, box, more, rfl, hbefore, hzero, hbox, hlt, hlast,
            hwhere⟩
        · refine .inl ⟨hl.append hrest', ?_⟩
          intro entry hentry hzero
          by_cases hsizes : sizes = []
          · subst hsizes
            have : start ≤ entry.1 := by
              rcases List.mem_append.mp hentry with hmem | hmem
              · exact (hboxes.mem_bounds hmem).2.1
              · exact (Nat.le_add_right _ _).trans
                  (hrest'.mem_bounds hmem).2.1
            simpa using this
          · rw [hdrop hsizes]
            rcases List.mem_append.mp hentry with hmem | hmem
            · -- It would end with its subsegment and with the file.
              have hpos := hrest.sum_pos hsizes
              obtain ⟨hinner, -, hstop⟩ := hboxes.mem_bounds hmem
              have hin := header_eq_ok_iff.mp (boxAt_eq_some_iff.mp hinner)
              have hout := header_eq_ok_iff.mp
                (boxAt_eq_some_iff.mp (hl.mem_bounds hmem).1)
              unfold Declares at hin hout
              omega
            · have := hzeros entry hmem hzero
              omega
        · have hsizes : sizes ≠ [] := by
            rintro rfl
            simpa using hrest.eq_nil
          rw [hdrop hsizes]
          refine .inr ⟨l ++ before, last, box, more, by simp,
            hl.append hbefore, hzero, hbox, hlt, hlast, ?_⟩
          rcases hwhere with ⟨hnil, hstop, hle'⟩ | ⟨hmore, hlt'⟩
          · exact .inl ⟨hnil, hstop, by omega⟩
          · exact .inr ⟨hmore, by omega⟩
      · have hpos := (boxAt_advances source source.length).pos hbox
        have hitem := hboxes.mem_bounds
          (List.mem_append_right before (List.mem_singleton_self (last, box)))
        have hinner : 0 < box.size := (boxAt_advances source _).pos hitem.1
        refine .inr ⟨before, last, box, rest, by simp, hbefore, hzero, hbox,
          by omega, by omega, ?_⟩
        by_cases hsizes : sizes = []
        · subst hsizes
          cases hrest
          have := hbefore.le
          exact .inl ⟨rfl, by simpa using hsize, by simpa using this⟩
        · rw [hdrop hsizes]
          exact .inr ⟨hrest.ne_nil hsizes, by omega⟩

/-! ## What is pending -/

/-- A `sidx` that can be used lists a subsegment. -/
theorem parseSidx_sizes {payload : List UInt8} {sidxEnd maxReferences : ℕ}
    {coverage : Coverage}
    (h : parseSidx payload sidxEnd maxReferences = some coverage) :
    coverage.sizes ≠ [] := by
  simp only [parseSidx, Option.bind_eq_bind, Option.bind_eq_some_iff] at h
  obtain ⟨_, -, _, -, count, -, h⟩ := h
  split at h
  · simp at h
  · rename_i hcount
    simp only [Option.bind_eq_some_iff, Option.some.injEq] at h
    obtain ⟨sizes, hsizes, _, -, rfl⟩ := h
    have hlength := mapM_length hsizes
    rintro rfl
    simp only [List.length_nil, List.length_range] at hlength
    unfold MIN_PARALLEL_REFERENCES at hcount
    omega

namespace Walk

variable {walk next final : Walk} {offset stop : ℕ} {box : BoxHeader}

/-- What is pending lists a subsegment. -/
def Usable (walk : Walk) : Prop :=
  ∀ coverage, walk.pending = some coverage → coverage.sizes ≠ []

theorem Usable.arrive (h : walk.Usable) : (walk.arrive offset).Usable := by
  obtain ⟨pending, harrive, heq | heq⟩ := arrive_eq walk offset
  · rw [harrive, heq]
    exact h
  · rw [harrive, heq]
    intro coverage hcoverage
    simp at hcoverage

theorem Usable.record {useSidx : Bool} (h : walk.Usable)
    (hrecord : walk.record source limits useSidx offset box = .ok next) :
    next.Usable := by
  unfold Walk.record at hrecord
  split_ifs at hrecord
  · obtain rfl := Except.ok.inj hrecord
    exact h
  · simp only [bind_eq_ok_iff, addMetadataBytes_eq_ok_iff] at hrecord
    obtain ⟨_, ⟨-, rfl⟩, hnext⟩ := hrecord
    obtain rfl := Except.ok.inj hnext
    exact h
  · simp only [bind_eq_ok_iff, countOther_eq_ok_iff] at hrecord
    obtain ⟨_, ⟨-, rfl⟩, hnext⟩ := hrecord
    obtain rfl := Except.ok.inj hnext
    exact fun coverage hcoverage => parseSidx_sizes hcoverage
  · simp only [bind_eq_ok_iff, countOther_eq_ok_iff] at hrecord
    obtain ⟨_, ⟨-, rfl⟩, hnext⟩ := hrecord
    obtain rfl := Except.ok.inj hnext
    exact h
  · obtain rfl := Except.ok.inj hrecord
    exact h
  · obtain ⟨-, rfl⟩ := countOther_eq_ok_iff.mp hrecord
    exact h

theorem Steps.usable (h : Steps source limits walk offset final stop)
    (hwalk : walk.Usable) : final.Usable := by
  induction h with
  | refl => exact hwalk
  | box _ _ hrecord _ ih => exact ih (hwalk.arrive.record hrecord)

/-! ## The last fragment -/

/-- The last `moof` seen is the last fragment kept. -/
def Current (walk : Walk) : Prop :=
  walk.lastMoof = walk.fragments.getLast?.map Fragment.offset

theorem Current.keepAll {l : List (ℕ × BoxHeader)} (h : walk.Current) :
    (keepAll source walk l).Current := by
  unfold Current at *
  rw [keepAll_lastMoof, keepAll_fragments, h, List.getLast?_append]
  unfold fragmentsOf
  rw [List.getLast?_map]
  cases (ofKind .moof l).getLast? <;> rfl

/-- A `moof` read box by box is the last fragment. -/
theorem current_of_moof {l : List (ℕ × BoxHeader)} (h : ofKind .moof l ≠ []) :
    (Walk.keepAll source walk l).Current := by
  have hentry := List.getLast?_eq_some_getLast h
  unfold Current
  rw [keepAll_lastMoof, keepAll_fragments, List.getLast?_append]
  unfold fragmentsOf
  rw [List.getLast?_map, hentry]
  rfl

theorem drop_of_current (h : walk.Current) {fragment : Fragment}
    (hlast : walk.fragments.getLast? = some fragment) :
    walk.drop offset .mdat =
      ({ walk with
        fragments := walk.fragments.dropLast
        lastMoof := none }, fragment.offset, 1) := by
  unfold Current at h
  rw [hlast, Option.map_some] at h
  simp [drop, h, hlast]

theorem drop_of_stale {fragment : Fragment}
    (hlast : walk.fragments.getLast? = some fragment)
    (hstale : walk.lastMoof ≠ some fragment.offset) {cut : Cut} :
    walk.drop offset cut = (walk, offset, 0) := by
  unfold drop
  split
  · rename_i moof hmoof
    rw [hlast, if_neg]
    intro heq
    rw [hmoof] at hstale
    simp only [Option.any_some, beq_iff_eq] at heq
    exact hstale (congrArg some heq.symm)
  · rfl

theorem drop_of_ne_mdat {cut : Cut} (h : cut ≠ .mdat) :
    walk.drop offset cut = (walk, offset, 0) := by
  unfold drop
  split
  · exact absurd rfl h
  · rfl

end Walk

end Segmentor
