import Segmentor.General.Loops
import Segmentor.SidxJump

/-!
# Rounds of the walk

The loops over the boxes of a file and over those of a subsegment, a round at
a time.  Every round gets further into the file and none past its end: a box
takes up at least its header, and a region that is jumped over lists
subsegments that each hold a box.
-/

namespace Segmentor

open General

variable {source : List UInt8} {limits : LimitsConfig} {useSidx : Bool}
  {walk : Walk} {offset stop : ℕ} {box : BoxHeader}

/-! ## A subsegment -/

/-- One box of a subsegment: where it starts, and the fragments before it. -/
def subsegmentRound (source : List UInt8) (stop : ℕ)
    (state : ℕ × List Fragment) :
    Result (Loop.Round (ℕ × List Fragment) (Option (List Fragment))) :=
  if state.1 < stop then
    match header source state.1 stop with
    | .ok box =>
        .ok (.again (state.1 + box.size,
          if box.name = code 'm' 'o' 'o' 'f' then
            state.2 ++ [fragmentAt source state.1 box.size]
          else state.2))
    | .error _ => .ok (.done none)
  else .ok (.done (if state.2 = [] then none else some state.2))

theorem next_subsegmentRound {state next : ℕ × List Fragment}
    (h : Loop.Next (subsegmentRound source stop) state next) :
    state.1 < next.1 ∧ next.1 ≤ stop := by
  unfold Loop.Next subsegmentRound at h
  split at h
  · split at h
    · rename_i box hheader
      obtain rfl := Loop.Round.again.inj (Except.ok.inj h)
      have hitem := boxAt_eq_some_iff.mpr hheader
      have hpos := (boxAt_advances source stop).pos hitem
      exact ⟨by dsimp only; omega, (boxAt_advances source stop).le hitem⟩
    · cases h
  · cases h

theorem subsegmentRound_descends (source : List UInt8) (stop : ℕ) :
    Loop.Descends (subsegmentRound source stop)
      (fun state => state.1 ≤ stop) (fun state => stop - state.1) where
  keeps := fun _ hnext => (next_subsegmentRound hnext).2
  lowers := by
    intro state next _ hnext
    have := next_subsegmentRound hnext
    omega

theorem walkSubsegmentFuel_congr {fuel fuel' : ℕ} {fragments : List Fragment}
    (h : stop - offset < fuel) (h' : stop - offset < fuel') :
    walkSubsegmentFuel source stop fuel offset fragments =
      walkSubsegmentFuel source stop fuel' offset fragments := by
  induction fuel generalizing fuel' offset fragments with
  | zero => omega
  | succ fuel ih =>
      cases fuel' with
      | zero => omega
      | succ fuel' =>
          rw [walkSubsegmentFuel, walkSubsegmentFuel]
          split
          · cases hheader : header source offset stop with
            | error error => rfl
            | ok box =>
                have hpos := (boxAt_advances source stop).pos
                  (boxAt_eq_some_iff.mpr hheader)
                exact ih (by omega) (by omega)
          · rfl

/-- What is left of a subsegment comes to. -/
def subsegmentFrom (source : List UInt8) (stop : ℕ)
    (state : ℕ × List Fragment) : Result (Option (List Fragment)) :=
  .ok (walkSubsegmentFuel source stop (stop - state.1 + 1) state.1 state.2)

theorem subsegmentFrom_eq (state : ℕ × List Fragment) :
    subsegmentFrom source stop state =
      subsegmentRound source stop state >>=
        Loop.Round.resume (subsegmentFrom source stop) := by
  unfold subsegmentFrom subsegmentRound
  rw [walkSubsegmentFuel]
  split
  · cases hheader : header source state.1 stop with
    | error error => rfl
    | ok box =>
        have hpos := (boxAt_advances source stop).pos
          (boxAt_eq_some_iff.mpr hheader)
        exact congrArg Except.ok (walkSubsegmentFuel_congr (by omega)
          (by dsimp only; omega))
  · rfl

/-- The walk over a subsegment ends. -/
theorem subsegmentRound_ends {start : ℕ} (hstart : start ≤ stop) :
    Loop.Ends (subsegmentRound source stop) (start, [])
      (.ok (walkSubsegment source start stop)) :=
  @Loop.Descends.ends _ _ _ _ _ _ (start, []) _
    (subsegmentRound_descends source stop)
    (fun state _ => subsegmentFrom_eq state) hstart

/-! ## The file -/

namespace Walk

/-- One round of the walk. -/
def round (source : List UInt8) (limits : LimitsConfig) (useSidx : Bool)
    (state : Walk × ℕ) : Result (Loop.Round (Walk × ℕ) Walk) :=
  if state.2 < source.length then do
    let (walk, jumped) ← state.1.tryJump source limits state.2
    match jumped with
    | some stop => .ok (.again (walk, stop))
    | none =>
        match header source state.2 source.length with
        | .error error => do
            let walk ← walk.handleCut source limits state.2 error
            .ok (.done walk)
        | .ok box => do
            let walk ← walk.record source limits useSidx state.2 box
            .ok (.again (walk, state.2 + box.size))
  else .ok (.done state.1)

variable {state next : Walk × ℕ}

theorem next_round (husable : state.1.Usable)
    (h : Loop.Next (round source limits useSidx) state next) :
    next.1.Usable ∧ state.2 < next.2 ∧ next.2 ≤ source.length := by
  obtain ⟨walk, offset⟩ := state
  unfold Loop.Next round at h
  dsimp only at *
  split at h
  · obtain ⟨⟨after, jumped⟩, hjump, h⟩ := bind_eq_ok_iff.mp h
    cases hregion : walk.region source offset with
    | none =>
        rw [tryJump_of_region hregion] at hjump
        obtain ⟨rfl, rfl⟩ := Prod.mk.inj (Except.ok.inj hjump)
        dsimp only at h
        split at h
        · obtain ⟨final, -, h⟩ := bind_eq_ok_iff.mp h
          cases h
        · rename_i box hheader
          obtain ⟨kept, hkept, h⟩ := bind_eq_ok_iff.mp h
          obtain rfl := Loop.Round.again.inj (Except.ok.inj h)
          have hitem := boxAt_eq_some_iff.mpr hheader
          have hpos := (boxAt_advances source source.length).pos hitem
          exact ⟨husable.arrive.record hkept, by dsimp only; omega,
            (boxAt_advances source source.length).le hitem⟩
    | some region =>
        obtain ⟨found, stop⟩ := region
        obtain ⟨heq, -, -⟩ := (tryJump_eq_ok_iff hregion).mp hjump
        obtain ⟨rfl, rfl⟩ := Prod.mk.inj heq
        obtain rfl := Loop.Round.again.inj (Except.ok.inj h)
        obtain ⟨coverage, hpending, rfl, hstop, hle, l, hl, -⟩ :=
          region_eq_some_iff.mp hregion
        have hsum := hl.sum_pos (husable coverage hpending)
        have hend := Coverage.stop_eq hstop
        refine ⟨fun later hlater => ?_, ?_, hle⟩
        · cases hlater
        · dsimp only
          omega
  · cases h

theorem round_descends (source : List UInt8) (limits : LimitsConfig)
    (useSidx : Bool) :
    Loop.Descends (round source limits useSidx) (fun state => state.1.Usable)
      (fun state => source.length - state.2) where
  keeps := fun husable hnext => (next_round husable hnext).1
  lowers := by
    intro state next husable hnext
    have := next_round husable hnext
    omega

theorem run_eq_round (state : Walk × ℕ) :
    run source limits useSidx state.1 state.2 =
      round source limits useSidx state >>= Loop.Round.resume fun state =>
        run source limits useSidx state.1 state.2 := by
  obtain ⟨walk, offset⟩ := state
  rw [run_eq]
  unfold round
  split
  · cases walk.tryJump source limits offset with
    | error error => rfl
    | ok result =>
        obtain ⟨after, stop | stop⟩ := result
        · simp only [ok_bind]
          cases header source offset source.length with
          | error error =>
              dsimp only
              cases after.handleCut source limits offset error <;> rfl
          | ok box =>
              dsimp only
              cases after.record source limits useSidx offset box <;> rfl
        · rfl
  · rfl

theorem usable_initial : ({} : Walk).Usable := by
  intro coverage hcoverage
  cases hcoverage

end Walk

end Segmentor
