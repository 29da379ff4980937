import Segmentor.WalkRounds
import Segmentor.WindowedReads

/-!
# The walk through the window

The rounds of the walk and of a subsegment, with every read made through a
window and every subsegment read through a window of its own.  They act like
the rounds that read the file itself, because each read they make is inside
it.
-/

namespace Segmentor

open General

namespace Windowed

variable {source : List UInt8} {limits : LimitsConfig} {useSidx : Bool}
  {walk : Walk} {offset stop : ℕ} {box : BoxHeader}

theorem reads_ofResult {α : Type} (x : Result α) :
    Reads source (ofResult x) x :=
  Hiding.actsLike_ofExcept x

/-! ## A subsegment -/

def subsegmentRound (source : List UInt8) (stop : ℕ)
    (state : ℕ × List Fragment) :
    Windowed (Loop.Round (ℕ × List Fragment) (Option (List Fragment))) :=
  if state.1 < stop then do
    let found ← (header source state.1 stop).attempt
    match found with
    | .ok box =>
        if box.name = code 'm' 'o' 'o' 'f' then do
          let bytes ← read source state.1 box.size
          pure (.again (state.1 + box.size,
            state.2 ++ [{ offset := state.1, bytes := bytes }]))
        else pure (.again (state.1 + box.size, state.2))
    | .error (.error (.invalidMedia _)) => pure (.done none)
    | .error failure => Hiding.ofExcept (.error failure)
  else pure (.done (if state.2 = [] then none else some state.2))

theorem reads_subsegmentRound (hstop : stop ≤ source.length)
    (hsource : source.length < 2 ^ 64) (state : ℕ × List Fragment) :
    Reads source (subsegmentRound source stop state)
      (Segmentor.subsegmentRound source stop state) := by
  unfold subsegmentRound Segmentor.subsegmentRound
  refine .ite (fun hlt => ?_) fun _ => Hiding.actsLike_pure _
  refine (reads_header hlt.le hstop hsource).attempt.bind_ok ?_
  cases hheader : Segmentor.header source state.1 stop with
  | error error =>
      rw [Walk.header_eq_error hheader]
      exact Hiding.actsLike_pure _
  | ok box =>
      have hinside := (boxAt_advances source stop).le
        (boxAt_eq_some_iff.mpr hheader)
      dsimp only [Except.mapError]
      by_cases hmoof : box.name = code 'm' 'o' 'o' 'f'
      · rw [if_pos hmoof, if_pos hmoof]
        exact (reads_read (by omega) hsource).bind_ok (Hiding.actsLike_pure _)
      · rw [if_neg hmoof, if_neg hmoof]
        exact Hiding.actsLike_pure _

/-- Every `moof` from `start` up to `stop`, read through a new window. -/
def walkSubsegment (source : List UInt8) (start stop : ℕ) :
    Except ReadFailure (Option (List Fragment)) :=
  (Loop.runFuel (Hiding.loop (subsegmentRound source stop))
    (stop - start + 1) ((start, []), new)).getD (.error .endless)

theorem walkSubsegment_eq (hstart : offset ≤ stop)
    (hstop : stop ≤ source.length) (hsource : source.length < 2 ^ 64) :
    walkSubsegment source offset stop =
      .ok (Segmentor.walkSubsegment source offset stop) := by
  have hrun := Hiding.runFuel_loop (subsegmentRound_descends source stop)
    (fun state _ => reads_subsegmentRound hstop hsource state)
    (fun state _ => subsegmentFrom_eq state) (a := (offset, [])) hstart
    held_new (Nat.lt_succ_self _)
  unfold walkSubsegment
  rw [hrun]
  rfl

/-- The fragments of the subsegments of the sizes listed. -/
def fetchSubsegments (source : List UInt8) :
    ℕ → List ℕ → Except ReadFailure (Option (List Fragment))
  | _, [] => .ok (some [])
  | offset, size :: sizes => do
      let found ← walkSubsegment source offset (offset + size)
      match found with
      | none => .ok none
      | some fragments => do
          let rest ← fetchSubsegments source (offset + size) sizes
          .ok (rest.map (fragments ++ ·))

theorem fetchSubsegments_eq {sizes : List ℕ}
    (hinside : offset + sizes.sum ≤ source.length)
    (hsource : source.length < 2 ^ 64) :
    fetchSubsegments source offset sizes =
      .ok (Segmentor.fetchSubsegments source offset sizes) := by
  induction sizes generalizing offset with
  | nil => rfl
  | cons size sizes ih =>
      rw [List.sum_cons, ← Nat.add_assoc] at hinside
      rw [fetchSubsegments, Segmentor.fetchSubsegments,
        walkSubsegment_eq (by omega) (by omega) hsource, ih hinside]
      cases Segmentor.walkSubsegment source offset (offset + size) with
      | none => rfl
      | some fragments =>
          cases Segmentor.fetchSubsegments source (offset + size) sizes <;> rfl

/-! ## Jumps -/

/-- The region that starts here, if a `sidx` lists one. -/
def region (source : List UInt8) (walk : Walk) (offset : ℕ) :
    Except ReadFailure (Option (List Fragment × ℕ)) :=
  match walk.pending with
  | none => .ok none
  | some coverage =>
      if offset ≠ coverage.start then .ok none
      else
        match coverage.stop.filter fun stop => stop ≤ source.length with
        | none => .ok none
        | some stop => do
            let found ←
              fetchSubsegments source coverage.start coverage.sizes
            .ok (found.map fun fragments => (fragments, stop))

theorem region_eq (hsource : source.length < 2 ^ 64) :
    region source walk offset = .ok (walk.region source offset) := by
  unfold region Walk.region
  cases walk.pending with
  | none => rfl
  | some coverage =>
      dsimp only [Option.bind_eq_bind, Option.bind_some]
      by_cases hstart : offset = coverage.start
      · rw [if_neg (not_not_intro hstart), if_neg (not_not_intro hstart)]
        cases hstop : coverage.stop.filter fun stop => stop ≤ source.length with
        | none => rfl
        | some stop =>
            obtain ⟨hsum, hle⟩ := Option.filter_eq_some_iff.mp hstop
            have hend := Coverage.stop_eq hsum
            have hinside : stop ≤ source.length := of_decide_eq_true hle
            dsimp only [Option.bind_some]
            rw [fetchSubsegments_eq (by omega) hsource, ok_bind, fetchBySidx]
            cases Segmentor.fetchSubsegments source coverage.start
              coverage.sizes <;> rfl
      · rw [if_pos hstart, if_pos hstart]

/-- Takes in the fragments of a region and goes on where it ends. -/
def jump (limits : LimitsConfig) (walk : Walk) (offset : ℕ)
    (found : List Fragment) (stop : ℕ) : Result (Walk × Option ℕ) := do
  let taken := (found.map fun fragment => fragment.bytes.length).sum
  let walk := { walk.arrive offset with
    fragments := walk.fragments ++ found }
  if limits.maxFragments < walk.fragments.length then
    .error (tooManyFragments limits)
  else
    let walk ← walk.addMetadataBytes limits taken
    .ok ({ walk with discovery := .sidx }, some stop)

def tryJump (source : List UInt8) (limits : LimitsConfig) (walk : Walk)
    (offset : ℕ) : Except ReadFailure (Walk × Option ℕ) := do
  let found ← region source walk offset
  match found with
  | none => .ok (walk.arrive offset, none)
  | some (found, stop) =>
      (jump limits walk offset found stop).mapError .error

theorem tryJump_eq (hsource : source.length < 2 ^ 64) :
    tryJump source limits walk offset =
      (walk.tryJump source limits offset).mapError .error := by
  unfold tryJump Walk.tryJump
  rw [region_eq hsource, ok_bind]
  cases walk.region source offset with
  | none => rfl
  | some region => rfl

/-! ## Boxes and cuts -/

/-- Keeps or counts the box at `offset`. -/
def record (source : List UInt8) (limits : LimitsConfig) (useSidx : Bool)
    (walk : Walk) (offset : ℕ) (box : BoxHeader) : Windowed Walk :=
  if box.name = code 'm' 'o' 'o' 'v' then
    if limits.maxMetadataBytes < box.size then
      fail (invalidMedia "moov exceeds configured metadata limit")
    else do
      let bytes ← read source offset box.size
      pure { walk with moov := some (⟨offset, box.size⟩, bytes) }
  else if box.name = code 'm' 'o' 'o' 'f' then
    if limits.maxFragments ≤ walk.fragments.length then
      fail (tooManyFragments limits)
    else do
      let walk ← ofResult (walk.addMetadataBytes limits box.size)
      let bytes ← read source offset box.size
      pure { walk with
        fragments := walk.fragments ++ [{ offset := offset, bytes := bytes }]
        lastMoof := some offset }
  else if box.name = code 's' 'i' 'd' 'x' ∧ useSidx ∧
      walk.fragments = [] ∧ walk.pending = none then do
    let walk ← ofResult walk.countOther
    if box.size ≤ MAX_SIDX_BYTES then do
      let length ← sub box.size 8
      let payload ← read source (offset + 8) length
      pure { walk with
        pending := parseSidx payload (offset + box.size) limits.maxFragments }
    else pure walk
  else if box.name = code 'm' 'd' 'a' 't' then
    if limits.maxFragments + 16 < walk.mediaBoxes + 1 then
      fail (invalidMedia "too many top-level MP4 boxes")
    else pure { walk with mediaBoxes := walk.mediaBoxes + 1 }
  else ofResult walk.countOther

theorem reads_record (hbox : boxAt source source.length offset = some box)
    (hsource : source.length < 2 ^ 64) :
    Reads source (record source limits useSidx walk offset box)
      (walk.record source limits useSidx offset box) := by
  have hinside := (boxAt_advances source source.length).le hbox
  have hsize := (header_eq_ok_iff.mp (boxAt_eq_some_iff.mp hbox)).2.1
  unfold record Walk.record
  refine .ite (fun _ => .ite (fun _ => reads_fail _) fun _ => ?_) fun _ => ?_
  · exact (reads_read hinside hsource).bind_ok (Hiding.actsLike_pure _)
  refine .ite (fun _ => .ite (fun _ => reads_fail _) fun _ => ?_) fun _ => ?_
  · exact (reads_ofResult _).bind fun _ _ =>
      (reads_read hinside hsource).bind_ok (Hiding.actsLike_pure _)
  refine .ite (fun _ => (reads_ofResult _).bind fun after _ => ?_) fun _ => ?_
  · rw [apply_ite Except.ok]
    refine .ite (fun _ => ?_) fun _ => Hiding.actsLike_pure _
    exact (reads_sub hsize).bind_ok ((reads_read (by omega) hsource).bind_ok
      (Hiding.actsLike_pure _))
  exact .ite (fun _ => .ite (fun _ => reads_fail _) fun _ =>
    Hiding.actsLike_pure _) fun _ => reads_ofResult _

/-- What a cut comes to: advice, or a file without its last fragment. -/
def afterCut (source : List UInt8) (limits : LimitsConfig) (walk : Walk)
    (offset : ℕ) (cut : Cut) : Result Walk :=
  if !limits.tolerateTruncatedTail then
    .error (invalidMedia ("the file ends partway through a " ++
      cut.text ++ " box, " ++ toString (source.length - offset) ++
      " bytes from the end of the last whole box; if it is still " ++
      "being written or was cut off, set " ++
      "limits.tolerate_truncated_tail to serve the complete " ++
      "fragments before it"))
  else
    let (walk, start, fragments) := walk.drop offset cut
    if walk.fragments = [] then
      .error (invalidMedia
        "the file ends before its first fragment is complete")
    else .ok { walk with dropped := some ⟨source.length - start, fragments⟩ }

/-- The box at `offset` could not be read as a box. -/
def handleCut (source : List UInt8) (limits : LimitsConfig) (walk : Walk)
    (offset : ℕ) (error : Error) : Windowed Walk :=
  if walk.fragments = [] then fail error
  else do
    let cut ← cutBox source offset
    match cut with
    | none => fail error
    | some cut => ofResult (afterCut source limits walk offset cut)

theorem reads_handleCut {error : Error} (hoffset : offset ≤ source.length)
    (hsource : source.length < 2 ^ 64) :
    Reads source (handleCut source limits walk offset error)
      (walk.handleCut source limits offset error) := by
  unfold handleCut Walk.handleCut
  refine .ite (fun _ => reads_fail _) fun _ => ?_
  refine (reads_cutBox hoffset hsource).bind_ok ?_
  cases Segmentor.cutBox source offset with
  | none => exact reads_fail _
  | some cut => exact reads_ofResult _

/-! ## The walk -/

/-- One round of the walk. -/
def round (source : List UInt8) (limits : LimitsConfig) (useSidx : Bool)
    (state : Walk × ℕ) : Windowed (Loop.Round (Walk × ℕ) Walk) :=
  if state.2 < source.length then do
    let (walk, jumped) ←
      Hiding.ofExcept (tryJump source limits state.1 state.2)
    match jumped with
    | some stop => pure (.again (walk, stop))
    | none => do
        let found ← (header source state.2 source.length).attempt
        match found with
        | .ok box => do
            let walk ← record source limits useSidx walk state.2 box
            pure (.again (walk, state.2 + box.size))
        | .error (.error (.invalidMedia message)) => do
            let walk ←
              handleCut source limits walk state.2 (.invalidMedia message)
            pure (.done walk)
        | .error failure => Hiding.ofExcept (.error failure)
  else pure (.done state.1)

theorem reads_round (hsource : source.length < 2 ^ 64) (state : Walk × ℕ) :
    Reads source (round source limits useSidx state)
      (Walk.round source limits useSidx state) := by
  unfold round Walk.round
  refine .ite (fun hlt => ?_) fun _ => Hiding.actsLike_pure _
  rw [tryJump_eq hsource]
  refine (reads_ofResult _).bind fun result _ => ?_
  obtain ⟨walk, stop | stop⟩ := result
  · refine (reads_header hlt.le le_rfl hsource).attempt.bind_ok ?_
    cases hheader : Segmentor.header source state.2 source.length with
    | error error =>
        rw [Walk.header_eq_error hheader]
        exact (reads_handleCut hlt.le hsource).bind fun _ _ =>
          Hiding.actsLike_pure _
    | ok box =>
        exact (reads_record (boxAt_eq_some_iff.mpr hheader) hsource).bind
          fun _ _ => Hiding.actsLike_pure _
  · exact Hiding.actsLike_pure _

/-- The loop of the walk: its state, the offset and the window. -/
abbrev walkLoop (source : List UInt8) (limits : LimitsConfig)
    (useSidx : Bool) : (Walk × ℕ) × ReadWindow →
      Except ReadFailure (Loop.Round ((Walk × ℕ) × ReadWindow) Walk) :=
  Hiding.loop (round source limits useSidx)

theorem walkLoop_descends (hsource : source.length < 2 ^ 64)
    (limits : LimitsConfig) (useSidx : Bool) :
    Loop.Descends (walkLoop source limits useSidx)
      (fun state => state.1.1.Usable ∧ Held source state.2)
      (fun state => source.length - state.1.2) :=
  Hiding.descends_loop (Walk.round_descends source limits useSidx)
    fun state _ => reads_round hsource state

/-- Every round gets further, and none past the end of the file. -/
theorem next_walkLoop (hsource : source.length < 2 ^ 64)
    {state next : (Walk × ℕ) × ReadWindow} (husable : state.1.1.Usable)
    (hheld : Held source state.2)
    (h : Loop.Next (walkLoop source limits useSidx) state next) :
    state.1.2 < next.1.2 ∧ next.1.2 ≤ source.length :=
  (Walk.next_round husable
    (Hiding.next_of_loop (reads_round hsource state.1) hheld h).1).2

/-- The walk ends the way the walk over the file itself does. -/
theorem walkLoop_ends (hsource : source.length < 2 ^ 64)
    (limits : LimitsConfig) (useSidx : Bool) :
    Loop.Ends (walkLoop source limits useSidx) (({}, 0), new)
      ((Walk.run source limits useSidx {} 0).mapError ReadFailure.error) :=
  Hiding.ends_loop (a := (({} : Walk), 0))
    (Walk.round_descends source limits useSidx)
    (fun state _ => reads_round hsource state)
    (fun state _ => Walk.run_eq_round state) Walk.usable_initial held_new

/-- Reads inside the file return the file's bytes, one after the other and
whatever window they leave to the next.  The walk gets further in every round
of every run, a jump's included, and ends as it does over the file itself, so
no sum, difference or slice of a read fails. -/
theorem reads_transparent_and_walk_ends (hsource : source.length < 2 ^ 64) :
    (∀ ranges : List ByteRange,
      (∀ range ∈ ranges, range.offset + range.length ≤ source.length) →
        ((readAll source ranges).run new).1 =
          .ok (ranges.map (readRange source))) ∧
    ∀ limits useSidx,
      (∀ state next,
        Loop.Reaches (walkLoop source limits useSidx) (({}, 0), new) state →
          Loop.Next (walkLoop source limits useSidx) state next →
            state.1.2 < next.1.2 ∧ next.1.2 ≤ source.length) ∧
      Loop.Ends (walkLoop source limits useSidx) (({}, 0), new)
        ((Walk.run source limits useSidx {} 0).mapError ReadFailure.error) := by
  refine ⟨fun ranges hinside => ?_, fun limits useSidx => ⟨?_, ?_⟩⟩
  · exact (reads_readAll hsource hinside new held_new).1
  · intro state next hreaches hnext
    obtain ⟨husable, hheld⟩ := (walkLoop_descends hsource limits useSidx).reaches
      ⟨Walk.usable_initial, held_new⟩ hreaches
    exact next_walkLoop hsource husable hheld hnext
  · exact walkLoop_ends hsource limits useSidx

/-- A `moov`, a `sidx` of four references and the four `moof` boxes they are
to, each of them only a header. -/
def indexedFragments : List UInt8 :=
  encode 4 8 ++ code 'm' 'o' 'o' 'v' ++
    (encode 4 80 ++ code 's' 'i' 'd' 'x' ++ List.replicate 22 0 ++ encode 2 4 ++
      (List.replicate 4 (encode 4 8 ++ List.replicate 8 0)).flatten) ++
    (List.replicate 4 (encode 4 8 ++ code 'm' 'o' 'o' 'f')).flatten

/-- The file read backwards and forwards, and walked with one jump. -/
theorem reads_transparent_and_walk_ends_indexed :
    ((readAll indexedFragments [⟨88, 8⟩, ⟨0, 4⟩, ⟨120, 0⟩]).run new).1 =
      .ok [encode 4 8 ++ code 'm' 'o' 'o' 'f', encode 4 8, []] ∧
    ∃ final : Walk,
      final.discovery = .sidx ∧
        final.fragments.map Fragment.offset = [88, 96, 104, 112] ∧
        Loop.Ends (walkLoop indexedFragments {} true) (({}, 0), new)
          (.ok final) := by
  obtain ⟨hreads, hwalk⟩ := @reads_transparent_and_walk_ends
    indexedFragments (by decide)
  have hends := (hwalk {} true).2
  have hrun : ((Walk.run indexedFragments {} true {} 0).map fun final =>
      (final.discovery, final.fragments.map Fragment.offset)) =
        .ok (.sidx, [88, 96, 104, 112]) := by
    decide +kernel
  refine ⟨(hreads [⟨88, 8⟩, ⟨0, 4⟩, ⟨120, 0⟩] (by decide)).trans
    (by decide), ?_⟩
  cases hfinal : Walk.run indexedFragments {} true {} 0 with
  | error error =>
      rw [hfinal] at hrun
      cases hrun
  | ok final =>
      rw [hfinal] at hrun hends
      obtain ⟨hdiscovery, hfragments⟩ := Prod.mk.inj (Except.ok.inj hrun)
      exact ⟨final, hdiscovery, hfragments, hends⟩

end Windowed

end Segmentor
