import Segmentor.Manifests

/-!
# Keys in force at listed segments

What a player that reads a playlist from its start takes each segment listed
to be encrypted with.
-/

namespace Segmentor

open General

def PlaylistLine.keyLine : PlaylistLine → Option KeyLine
  | .key line => some line
  | _ => none

def keyLinesOf (lines : List PlaylistLine) : List KeyLine :=
  lines.filterMap PlaylistLine.keyLine

/-- The numbers listed, each with the key lines in force there. -/
def keysListed (inForce : List KeyLine) :
    List PlaylistLine → List (ℕ × List KeyLine)
  | [] => []
  | .key line :: rest => keysListed (line.read inForce) rest
  | .segment _ number :: rest => (number, inForce) :: keysListed inForce rest
  | _ :: rest => keysListed inForce rest

@[simp] theorem keyLinesOf_append (lines others : List PlaylistLine) :
    keyLinesOf (lines ++ others) = keyLinesOf lines ++ keyLinesOf others :=
  List.filterMap_append ..

@[simp] theorem keyLinesOf_map_key (lines : List KeyLine) :
    keyLinesOf (lines.map PlaylistLine.key) = lines := by
  unfold keyLinesOf
  rw [List.filterMap_map]
  exact List.filterMap_some

theorem keysListed_append (inForce : List KeyLine)
    (lines others : List PlaylistLine) :
    keysListed inForce (lines ++ others) =
      keysListed inForce lines ++
        keysListed (readLines inForce (keyLinesOf lines)) others := by
  induction lines generalizing inForce with
  | nil => rfl
  | cons line lines ih =>
      cases line with
      | key line => exact ih (line.read inForce)
      | segment milliseconds number =>
          exact congrArg ((number, inForce) :: ·) (ih inForce)
      | _ => exact ih inForce

theorem keysListed_map_fst (inForce : List KeyLine)
    (lines : List PlaylistLine) :
    (keysListed inForce lines).map Prod.fst = listedNumbers lines := by
  induction lines generalizing inForce with
  | nil => rfl
  | cons line lines ih =>
      cases line with
      | key line => exact ih (line.read inForce)
      | segment milliseconds number =>
          exact congrArg (number :: ·) (ih inForce)
      | _ => exact ih inForce

theorem keysListed_append_of_listedNumbers {inForce : List KeyLine}
    {lines : List PlaylistLine} (h : listedNumbers lines = [])
    (others : List PlaylistLine) :
    keysListed inForce (lines ++ others) =
      keysListed (readLines inForce (keyLinesOf lines)) others := by
  have hnone : keysListed inForce lines = [] := by
    rw [← List.map_eq_nil_iff, keysListed_map_fst, h]
  rw [keysListed_append, hnone, List.nil_append]

theorem keysListed_map_key_append (inForce : List KeyLine)
    (lines : List KeyLine) (others : List PlaylistLine) :
    keysListed inForce (lines.map PlaylistLine.key ++ others) =
      keysListed (readLines inForce lines) others := by
  induction lines generalizing inForce with
  | nil => rfl
  | cons line lines ih => exact ih (line.read inForce)

/-! ## Stages -/

/-- What a period puts in force; a clear one ends all keys. -/
def keyStage (kind : TrackKind) (keys : Option PeriodKeys) :
    Option (List KeyLine) :=
  keys.map fun keys => hlsKeyLines keys (keys.keyFor kind)

def enterKeys (kind : TrackKind) (inForce : List KeyLine)
    (keys : Option PeriodKeys) : List KeyLine :=
  enterStage KeyLine.keyFormat inForce (keyStage kind keys)

theorem keysListed_periodLines_append (kind : TrackKind)
    (inForce : List KeyLine) (keys : Option PeriodKeys)
    (others : List PlaylistLine) :
    keysListed inForce (periodLines kind keys ++ others) =
      keysListed (enterKeys kind inForce keys) others := by
  cases keys with
  | none => rfl
  | some keys =>
      rw [periodLines, keysListed_map_key_append, readLines_hlsKeyLines]
      rfl

/-! ## Entries -/

/-- The lines in force at segment `number`, after those of the periods that
have begun by then. -/
def inForceAt (kind : TrackKind) (inForce : List KeyLine)
    (periods : List ScheduledPeriod) (number : ℕ) : List KeyLine :=
  ((periods.takeWhile fun period => decide (period.firstSegment ≤ number)).map
    ScheduledPeriod.keys).foldl (enterKeys kind) inForce

theorem inForceAt_cons_of_le {kind : TrackKind} {inForce : List KeyLine}
    {period : ScheduledPeriod} {later : List ScheduledPeriod} {number : ℕ}
    (h : period.firstSegment ≤ number) :
    inForceAt kind inForce (period :: later) number =
      inForceAt kind (enterKeys kind inForce period.keys) later number := by
  unfold inForceAt
  rw [List.takeWhile_cons, if_pos (decide_eq_true h)]
  rfl

theorem inForceAt_of_forall_lt {kind : TrackKind} {inForce : List KeyLine}
    {periods : List ScheduledPeriod} {number : ℕ}
    (h : ∀ period ∈ periods, number < period.firstSegment) :
    inForceAt kind inForce periods number = inForce := by
  cases periods with
  | nil => rfl
  | cons period later =>
      have := h period List.mem_cons_self
      unfold inForceAt
      rw [List.takeWhile_cons, if_neg (by
        rw [decide_eq_true_eq]
        omega)]
      rfl

/-- One period is due at most, so the keys of each are in force from its first
segment on. -/
theorem keysListed_segmentEntries {track : Track} {firstNumber offset : ℕ}
    {periods : List ScheduledPeriod} {segments : List TrackSegment}
    {lines : List PlaylistLine} {inForce : List KeyLine}
    (hincreasing :
      (periods.map ScheduledPeriod.firstSegment).Pairwise (· < ·))
    (hfrom : ∀ period ∈ periods,
      firstNumber + offset ≤ period.firstSegment)
    (h : segmentEntries track firstNumber offset periods segments =
      .ok lines) :
    keysListed inForce lines =
      (List.range' (firstNumber + offset) segments.length).map fun number =>
        (number, inForceAt track.kind inForce periods number) := by
  induction segments generalizing offset periods lines inForce with
  | nil =>
      obtain rfl := Except.ok.inj h
      rfl
  | cons segment segments ih =>
      unfold segmentEntries at h
      obtain ⟨milliseconds, -, h⟩ := bind_eq_ok_iff.mp h
      obtain ⟨number, hnumber, h⟩ := bind_eq_ok_iff.mp h
      obtain ⟨-, rfl⟩ := checkedAdd_eq_some_iff.mp (okOr_eq_ok_iff.mp hnumber)
      dsimp only at h
      obtain ⟨entries, hentries, h⟩ := bind_eq_ok_iff.mp h
      obtain rfl := Except.ok.inj h
      rw [List.length_cons, List.range'_succ, List.map_cons]
      have hlater : ∀ periods inForce,
          (periods.map ScheduledPeriod.firstSegment).Pairwise (· < ·) →
          (∀ period ∈ periods,
            firstNumber + (offset + 1) ≤ period.firstSegment) →
          segmentEntries track firstNumber (offset + 1) periods segments =
            .ok entries →
          keysListed inForce
              (.segment milliseconds (offset + firstNumber) :: entries) =
            (firstNumber + offset,
              inForceAt track.kind inForce periods (firstNumber + offset)) ::
            (List.range' (firstNumber + offset + 1) segments.length).map
              fun number =>
                (number, inForceAt track.kind inForce periods number) := by
        intro periods inForce hincreasing hfrom hentries
        rw [inForceAt_of_forall_lt fun period hperiod => by
          have := hfrom period hperiod
          omega]
        rw [keysListed, ih hincreasing hfrom hentries, Nat.add_comm offset]
        rfl
      cases periods with
      | nil => exact hlater [] inForce hincreasing (by simp) hentries
      | cons period later =>
          have hbefore := hfrom period List.mem_cons_self
          have hrest : ∀ next ∈ later,
              period.firstSegment < next.firstSegment := fun next hnext =>
            List.rel_of_pairwise_cons hincreasing
              (List.mem_map_of_mem hnext)
          by_cases hdue : period.firstSegment ≤ offset + firstNumber
          · have hlines : dueLines track.kind (offset + firstNumber)
                (period :: later) =
                  (periodLines track.kind period.keys, later) :=
              if_pos hdue
            rw [hlines] at hentries ⊢
            rw [keysListed_periodLines_append,
              hlater later _ hincreasing.of_cons
                (fun next hnext => by
                  have := hrest next hnext
                  omega) hentries,
              inForceAt_cons_of_le (by omega)]
            congr 1
            refine List.map_congr_left fun number hnumber => ?_
            obtain ⟨hle, -⟩ := List.mem_range'_1.mp hnumber
            rw [inForceAt_cons_of_le (by omega)]
          · have hlines : dueLines track.kind (offset + firstNumber)
                (period :: later) = ([], period :: later) := if_neg hdue
            rw [hlines] at hentries ⊢
            refine hlater (period :: later) inForce hincreasing ?_ hentries
            rw [List.forall_mem_cons]
            refine ⟨by omega, fun next hnext => ?_⟩
            have := hrest next hnext
            omega

/-- Keys that do not change are given before the entries. -/
theorem keyLinesOf_segmentEntries {track : Track} {firstNumber offset : ℕ}
    {segments : List TrackSegment} {lines : List PlaylistLine}
    (h : segmentEntries track firstNumber offset [] segments = .ok lines) :
    keyLinesOf lines = [] := by
  induction segments generalizing offset lines with
  | nil =>
      obtain rfl := Except.ok.inj h
      rfl
  | cons segment segments ih =>
      unfold segmentEntries at h
      obtain ⟨milliseconds, -, h⟩ := bind_eq_ok_iff.mp h
      obtain ⟨number, -, h⟩ := bind_eq_ok_iff.mp h
      dsimp only [dueLines] at h
      obtain ⟨entries, hentries, h⟩ := bind_eq_ok_iff.mp h
      obtain rfl := Except.ok.inj h
      change keyLinesOf entries = []
      exact ih hentries

end Segmentor
