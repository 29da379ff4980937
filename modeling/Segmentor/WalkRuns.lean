import Segmentor.WalkBoxes

/-!
# Runs of the walk

A round of the walk jumps over a region, goes past one box, or stops at the
end or at a cut.  Where no `sidx` is in use the run is the boxes up to the end
of the file, taken one after another, and then the cut, if there is one.
-/

namespace Segmentor

open General

namespace Walk

variable {source : List UInt8} {limits : LimitsConfig} {useSidx : Bool}
  {walk next final : Walk} {offset stop : ℕ} {box : BoxHeader}
  {l : List (ℕ × BoxHeader)}

/-! ## Arriving at a region -/

theorem region_eq_some_iff {found : List Fragment} :
    walk.region source offset = some (found, stop) ↔
      ∃ coverage, walk.pending = some coverage ∧ offset = coverage.start ∧
        coverage.stop = some stop ∧ stop ≤ source.length ∧
          ∃ l, Subsegments source coverage.start coverage.sizes l ∧
            found = fragmentsOf source l := by
  simp only [region, Option.bind_eq_bind, Option.bind_eq_some_iff, ne_eq,
    ite_not]
  refine exists_congr fun coverage => and_congr_right fun _ => ?_
  by_cases hstart : offset = coverage.start
  · simp only [hstart, if_true, Option.bind_eq_some_iff,
      Option.filter_eq_some_iff, decide_eq_true_eq, fetchBySidx,
      fetchSubsegments_eq_some_iff, Option.some.injEq, Prod.mk.injEq,
      true_and]
    constructor
    · rintro ⟨_, ⟨hstop, hle⟩, _, hfound, rfl, rfl⟩
      exact ⟨hstop, hle, hfound⟩
    · rintro ⟨hstop, hle, hfound⟩
      exact ⟨_, ⟨hstop, hle⟩, _, hfound, rfl, rfl⟩
  · simp [hstart]

theorem region_of_pending (h : walk.pending = none) :
    walk.region source offset = none := by
  simp [region, h]

@[simp] theorem arrive_of_pending (h : walk.pending = none) :
    walk.arrive offset = walk := by
  simp [arrive, h]

theorem arrive_eq (walk : Walk) (offset : ℕ) :
    ∃ pending, walk.arrive offset = { walk with pending := pending } ∧
      (pending = walk.pending ∨ pending = none) := by
  unfold arrive
  split
  · split
    · exact ⟨none, rfl, .inr rfl⟩
    · exact ⟨walk.pending, rfl, .inl rfl⟩
  · exact ⟨walk.pending, rfl, .inl rfl⟩

theorem tryJump_of_region (h : walk.region source offset = none) :
    walk.tryJump source limits offset = .ok (walk.arrive offset, none) := by
  simp [tryJump, h]

/-- The state after a jump over a region that holds `found`. -/
def jumped (walk : Walk) (found : List Fragment) : Walk :=
  { walk with
    fragments := walk.fragments ++ found
    metadataBytes := saturatingAdd (2 ^ 64) walk.metadataBytes
      (found.map fun fragment => fragment.bytes.length).sum
    discovery := .sidx
    pending := none }

theorem tryJump_eq_ok_iff {found : List Fragment} {result : Walk × Option ℕ}
    (h : walk.region source offset = some (found, stop)) :
    walk.tryJump source limits offset = .ok result ↔
      result = (walk.jumped found, some stop) ∧
        (walk.jumped found).fragments.length ≤ limits.maxFragments ∧
        (walk.jumped found).metadataBytes ≤ limits.maxMetadataBytes := by
  obtain ⟨coverage, hpending, rfl, -⟩ := region_eq_some_iff.mp h
  have harrive : walk.arrive coverage.start = { walk with pending := none } := by
    simp [arrive, hpending]
  simp only [tryJump, h, harrive]
  split
  · simp only [reduceCtorEq, false_iff, jumped]
    omega
  · simp only [bind_eq_ok_iff, addMetadataBytes_eq_ok_iff, jumped,
      Except.ok.injEq]
    constructor
    · rintro ⟨_, ⟨hle, rfl⟩, rfl⟩
      exact ⟨rfl, by omega, hle⟩
    · rintro ⟨rfl, -, hle⟩
      exact ⟨_, ⟨hle, rfl⟩, rfl⟩

/-! ## One round -/

/-- What is left of the file, and one more while a `sidx` is pending. -/
def measure (source : List UInt8) (walk : Walk) (offset : ℕ) : ℕ :=
  source.length - offset + if walk.pending.isSome then 1 else 0

theorem measure_le : measure source walk offset ≤ source.length - offset + 1 := by
  unfold measure
  split <;> omega

theorem measure_jump {result : Walk}
    (h : walk.tryJump source limits offset = .ok (result, some stop)) :
    measure source result stop < measure source walk offset := by
  cases hregion : walk.region source offset with
  | none => simp [tryJump_of_region hregion] at h
  | some region =>
      obtain ⟨found, stop'⟩ := region
      obtain ⟨heq, -⟩ := (tryJump_eq_ok_iff hregion).mp h
      obtain ⟨rfl, hstop⟩ := Prod.mk.inj heq
      obtain rfl := Option.some.inj hstop
      obtain ⟨coverage, hpending, rfl, hcoverage, -⟩ :=
        region_eq_some_iff.mp hregion
      have := Coverage.stop_eq hcoverage
      simp only [measure, jumped, hpending, Option.isSome_none,
        Option.isSome_some, Bool.false_eq_true, if_false, if_true]
      omega

theorem runFuel_congr {fuel fuel' : ℕ}
    (h : measure source walk offset ≤ fuel)
    (h' : measure source walk offset ≤ fuel') :
    walk.runFuel source limits useSidx fuel offset =
      walk.runFuel source limits useSidx fuel' offset := by
  induction fuel generalizing fuel' walk offset with
  | zero =>
      have hend : ¬ offset < source.length := by
        unfold measure at h
        omega
      cases fuel' with
      | zero => rfl
      | succ fuel' => rw [runFuel, runFuel, if_neg hend]
  | succ fuel ih =>
      cases fuel' with
      | zero =>
          have hend : ¬ offset < source.length := by
            unfold measure at h'
            omega
          rw [runFuel, runFuel, if_neg hend]
      | succ fuel' =>
          rw [runFuel, runFuel]
          split
          · cases hjump : walk.tryJump source limits offset with
            | error error => rfl
            | ok result =>
                obtain ⟨result, stop | stop⟩ := result
                · simp only [ok_bind]
                  cases hheader : header source offset source.length with
                  | error error => rfl
                  | ok box =>
                      have hsize := (header_eq_ok_iff.mp hheader).2
                      dsimp only
                      refine congrArg _ (funext fun next => ih ?_ ?_) <;>
                      · have := @Walk.measure_le source next (offset + box.size)
                        unfold measure at h h'
                        omega
                · simp only [ok_bind]
                  have := measure_jump hjump
                  exact ih (by omega) (by omega)
          · rfl

theorem run_eq :
    run source limits useSidx walk offset =
      if offset < source.length then do
        let (walk, jumped) ← walk.tryJump source limits offset
        match jumped with
        | some stop => run source limits useSidx walk stop
        | none =>
            match header source offset source.length with
            | .error error => walk.handleCut source limits offset error
            | .ok box => do
                let walk ← walk.record source limits useSidx offset box
                run source limits useSidx walk (offset + box.size)
      else .ok walk := by
  unfold run
  rw [runFuel]
  split
  · cases hjump : walk.tryJump source limits offset with
    | error error => rfl
    | ok result =>
        obtain ⟨result, stop | stop⟩ := result
        · simp only [ok_bind]
          cases hheader : header source offset source.length with
          | error error => rfl
          | ok box =>
              have hsize := (header_eq_ok_iff.mp hheader).2
              dsimp only
              refine congrArg _ (funext fun next => ?_)
              have := @Walk.measure_le source next (offset + box.size)
              exact runFuel_congr (by omega) measure_le
        · simp only [ok_bind]
          have := measure_jump hjump
          have := @Walk.measure_le source walk offset
          exact runFuel_congr (by omega) measure_le
  · rfl

theorem run_of_le (h : source.length ≤ offset) :
    run source limits useSidx walk offset = .ok walk := by
  rw [run_eq, if_neg h.not_gt]

theorem run_jump_eq_ok_iff {found : List Fragment}
    (hlt : offset < source.length)
    (h : walk.region source offset = some (found, stop)) :
    run source limits useSidx walk offset = .ok final ↔
      (walk.jumped found).fragments.length ≤ limits.maxFragments ∧
        (walk.jumped found).metadataBytes ≤ limits.maxMetadataBytes ∧
          run source limits useSidx (walk.jumped found) stop = .ok final := by
  rw [run_eq, if_pos hlt, bind_eq_ok_iff]
  simp only [tryJump_eq_ok_iff h]
  constructor
  · rintro ⟨_, ⟨rfl, hfragments, hbytes⟩, hrun⟩
    exact ⟨hfragments, hbytes, hrun⟩
  · rintro ⟨hfragments, hbytes, hrun⟩
    exact ⟨_, ⟨rfl, hfragments, hbytes⟩, hrun⟩

theorem lt_of_boxAt (h : boxAt source stop offset = some box) :
    offset < stop := by
  have hpos := (boxAt_advances source stop).pos h
  have hle := (boxAt_advances source stop).le h
  omega

theorem run_box (hregion : walk.region source offset = none)
    (hbox : boxAt source source.length offset = some box) :
    run source limits useSidx walk offset =
      ((walk.arrive offset).record source limits useSidx offset box >>=
        fun next => run source limits useSidx next (offset + box.size)) := by
  rw [run_eq, if_pos (lt_of_boxAt hbox), tryJump_of_region hregion, ok_bind]
  simp only [boxAt_eq_some_iff.mp hbox]

/-- What the walk does where no box can be read: nothing at the end of the
file, else it handles a cut. -/
def finish (source : List UInt8) (limits : LimitsConfig) (walk : Walk)
    (offset : ℕ) : Result Walk :=
  if offset < source.length then
    walk.handleCut source limits offset
      (invalidMedia "invalid top-level MP4 box size")
  else .ok walk

theorem header_eq_error {error : Error}
    (h : header source offset stop = .error error) :
    error = invalidMedia "invalid top-level MP4 box size" := by
  unfold header at h
  grind [ok_bind, error_bind]

theorem run_end (hregion : walk.region source offset = none)
    (hend : boxAt source source.length offset = none) :
    run source limits useSidx walk offset =
      if offset < source.length then
        finish source limits (walk.arrive offset) offset
      else .ok walk := by
  rw [run_eq]
  split
  · rename_i hlt
    rw [tryJump_of_region hregion, ok_bind]
    unfold finish
    rw [if_pos hlt]
    cases hheader : header source offset source.length with
    | error error => simp only [header_eq_error hheader]
    | ok box => simp [boxAt, hheader, Except.toOption] at hend
  · rfl

/-! ## A run without a `sidx` -/

theorem run_steady_eq_ok_iff (hsteady : Steady useSidx walk)
    (hwithin : Within limits walk)
    (hl : Boxes source source.length offset l stop)
    (hend : boxAt source source.length stop = none) :
    run source limits useSidx walk offset = .ok final ↔
      Within limits (keepAll source walk l) ∧ MoovsFit limits l ∧
        finish source limits (keepAll source walk l) stop = .ok final := by
  induction hl generalizing walk with
  | nil stop =>
      rw [run_end (region_of_pending hsteady.1) hend,
        arrive_of_pending hsteady.1]
      have hmoovs : MoovsFit limits [] := by simp [MoovsFit]
      simp only [keepAll_nil, hwithin, hmoovs, true_and]
      unfold finish
      split <;> rfl
  | @cons start stop box rest hitem hrest ih =>
      rw [run_box (region_of_pending hsteady.1) hitem,
        arrive_of_pending hsteady.1, bind_eq_ok_iff]
      simp only [@Walk.record_eq_ok_iff _ _ _ _ (start, box) _ hsteady hwithin,
        keepAll_cons, moovsFit_cons]
      constructor
      · rintro ⟨_, ⟨rfl, hnext, hmoov⟩, hrun⟩
        obtain ⟨hfinal, hmoovs, hfinish⟩ :=
          (ih hsteady.keep hnext hend).mp hrun
        exact ⟨hfinal, ⟨hmoov, hmoovs⟩, hfinish⟩
      · rintro ⟨hfinal, ⟨hmoov, hmoovs⟩, hfinish⟩
        have hnext := hfinal.of_keepAll (keep_word hwithin.word)
        exact ⟨_, ⟨rfl, hnext, hmoov⟩,
          (ih hsteady.keep hnext hend).mpr ⟨hfinal, hmoovs, hfinish⟩⟩

theorem handleCut_eq_ok_iff {error : Error} :
    walk.handleCut source limits offset error = .ok final ↔
      walk.fragments ≠ [] ∧ limits.tolerateTruncatedTail = true ∧
        ∃ cut, cutBox source offset = some cut ∧
          (walk.drop offset cut).1.fragments ≠ [] ∧
            final = { (walk.drop offset cut).1 with
              dropped := some ⟨source.length - (walk.drop offset cut).2.1,
                (walk.drop offset cut).2.2⟩ } := by
  unfold handleCut
  split
  · rename_i hnil
    simp [hnil]
  · rename_i hne
    cases cutBox source offset with
    | none => simp
    | some cut =>
        cases limits.tolerateTruncatedTail with
        | false => simp
        | true =>
            simp only [Bool.not_true, Bool.false_eq_true, if_false, ne_eq, hne,
              not_false_eq_true, true_and, Option.some.injEq,
              exists_eq_left']
            split
            · rename_i hnil
              simp [hnil]
            · rename_i hleft
              simp only [Except.ok.injEq, hleft, not_false_eq_true, true_and]
              exact eq_comm

theorem finish_eq_ok_iff :
    finish source limits walk offset = .ok final ↔
      (source.length ≤ offset ∧ final = walk) ∨
        (offset < source.length ∧ walk.fragments ≠ [] ∧
          limits.tolerateTruncatedTail = true ∧
            ∃ cut, cutBox source offset = some cut ∧
              (walk.drop offset cut).1.fragments ≠ [] ∧
                final = { (walk.drop offset cut).1 with
                  dropped :=
                    some ⟨source.length - (walk.drop offset cut).2.1,
                      (walk.drop offset cut).2.2⟩ }) := by
  unfold finish
  split
  · rename_i hlt
    simp only [handleCut_eq_ok_iff, hlt, hlt.not_ge, false_and, true_and,
      false_or]
  · rename_i hge
    simp only [Except.ok.injEq, hge, false_and, or_false,
      Nat.le_of_not_lt hge, true_and]
    exact eq_comm

end Walk

theorem fetchWith_eq_ok_iff {source : List UInt8} {limits : LimitsConfig}
    {useSidx : Bool} {metadata : Metadata} :
    fetchWith source limits useSidx = .ok metadata ↔
      ∃ walk, Walk.run source limits useSidx {} 0 = .ok walk ∧
        walk.moov = some (metadata.moov, metadata.moovBytes) ∧
          saturatingAdd (2 ^ 64) walk.metadataBytes metadata.moov.length ≤
            limits.maxMetadataBytes ∧
            metadata.len = source.length ∧
              metadata.fragments = walk.fragments ∧
                metadata.discovery = walk.discovery ∧
                  metadata.dropped = walk.dropped := by
  unfold fetchWith
  rw [bind_eq_ok_iff]
  refine exists_congr fun walk => and_congr_right fun _ => ?_
  simp only [bind_eq_ok_iff, okOr_eq_ok_iff,
    Walk.addMetadataBytes_eq_ok_iff, Except.ok.injEq]
  constructor
  · rintro ⟨⟨moov, moovBytes⟩, hmoov, _, ⟨hle, rfl⟩, rfl⟩
    exact ⟨hmoov, hle, rfl, rfl, rfl, rfl⟩
  · obtain ⟨len, moov, moovBytes, fragments, discovery, dropped⟩ := metadata
    rintro ⟨hmoov, hle, rfl, rfl, rfl, rfl⟩
    exact ⟨_, hmoov, _, ⟨hle, rfl⟩, rfl⟩

end Segmentor
