import Segmentor.Error
import Segmentor.General.Fractions

/-!
# Edit lists and the shared timeline

A track's edit list says at which media time its presentation starts, and
after what delay.  Every track is moved later by one offset they share, so that
none starts before zero; each move is rounded to the track's own ticks.  The
arithmetic is that of 128-bit integers.
-/

namespace Segmentor.EditLists

open General

/-! ## Reading a list -/

/-- One `elst` entry, as read from the file. -/
structure ElstEntry where
  /-- In movie ticks. -/
  segmentDuration : ℕ
  /-- In track ticks; all ones marks an empty edit. -/
  mediaTime : ℕ
  mediaRate : ℕ
  mediaRateFraction : ℕ
  segmentDuration_lt : segmentDuration < 2 ^ 64
  mediaTime_lt : mediaTime < 2 ^ 64

/-- What one track's edit list asks for. -/
structure TrackEdit where
  /-- Media time at which presentation starts, in track ticks. -/
  mediaTime : ℕ
  /-- Presentation time that passes before the media starts, in movie
  ticks. -/
  delay : ℕ
  /-- Media time at which the edit ends, in track ticks. -/
  mediaEnd : Option ℕ
  deriving DecidableEq, Repr

/-- The edit of a track with no edit list. -/
def TrackEdit.none : TrackEdit where
  mediaTime := 0
  delay := 0
  mediaEnd := Option.none

def maxEditEntries : ℕ := 16

def unsupported (trackId : ℕ) (detail : String) : Error :=
  .unsupported s!"track {trackId}: {detail}"

/-- The presentation waits without playing media. -/
def isEmptyEdit (entry : ElstEntry) (version : ℕ) : Bool :=
  if version = 1 then entry.mediaTime == 2 ^ 64 - 1
  else entry.mediaTime == 2 ^ 32 - 1

/-- The delay of a list of a shape that is supported, and its edit. -/
def delayAndEdit (trackId version : ℕ) :
    List ElstEntry → Result (Option (ℕ × ElstEntry))
  | [] => .ok none
  | [edit] =>
      if isEmptyEdit edit version then .error (shape 1)
      else .ok (some (0, edit))
  | [gap, edit] =>
      if isEmptyEdit gap version && !isEmptyEdit edit version then
        .ok (some (gap.segmentDuration, edit))
      else .error (shape 2)
  | entries => .error (shape entries.length)
where
  shape (count : ℕ) : Error :=
    unsupported trackId
      (s!"edit list shape is not supported ({count} entries; only one edit, " ++
        "optionally after one empty edit, is)")

/-- A duration of zero plays to the end. -/
def mediaEnd (edit : ElstEntry) (movieTimescale trackTimescale : ℕ) :
    Option ℕ :=
  if edit.segmentDuration = 0 then none
  else
    some (min
      (edit.mediaTime + edit.segmentDuration * trackTimescale / movieTimescale)
      (2 ^ 64 - 1))

def parseEditList (trackId version : ℕ) (entries : List ElstEntry)
    (movieTimescale trackTimescale : ℕ) : Result TrackEdit :=
  if maxEditEntries < entries.length then
    .error (unsupported trackId s!"edit list has {entries.length} entries")
  else do
    match ← delayAndEdit trackId version entries with
    | none => .ok .none
    | some (delay, edit) =>
        if edit.mediaRate ≠ 1 ∨ edit.mediaRateFraction ≠ 0 then
          .error (unsupported trackId
            (s!"edit list plays media at rate {edit.mediaRate}." ++
              s!"{edit.mediaRateFraction}, only rate 1 is supported"))
        else if (if version = 1 then 2 ^ 63 - 1 else 2 ^ 31 - 1) <
            edit.mediaTime then
          .error (.invalidMedia
            s!"track {trackId}: edit list media_time is negative")
        else if movieTimescale = 0 ∨ trackTimescale = 0 then
          .error (.invalidMedia s!"track {trackId}: timescale is zero")
        else
          .ok
            { mediaTime := edit.mediaTime
              delay := delay
              mediaEnd := mediaEnd edit movieTimescale trackTimescale }

/-! ## The shared offset -/

/-- A 128-bit integer; there is none where the value is out of range. -/
def int128 (value : ℤ) : Option ℤ :=
  if -2 ^ 127 ≤ value ∧ value < 2 ^ 127 then some value else none

/-- How much later than the source's own clock a track's edit needs every
timestamp to be, as a fraction of a second. -/
def offsetFraction (movie : ℤ) (entry : TrackEdit × ℕ) : Option (ℤ × ℤ) := do
  let timescale : ℤ := entry.2
  let media ← int128 (entry.1.mediaTime * movie)
  let delay ← int128 (entry.1.delay * timescale)
  let numerator ← int128 (media - delay)
  let denominator ← int128 (timescale * movie)
  some (numerator, denominator)

/-- The larger of two fractions, compared without dividing. -/
def largerOffset (movie : ℤ) (offset : ℤ × ℤ) (entry : TrackEdit × ℕ) :
    Option (ℤ × ℤ) := do
  let fraction ← offsetFraction movie entry
  let left ← int128 (fraction.1 * offset.2)
  let right ← int128 (offset.1 * fraction.2)
  some (if right < left then fraction else offset)

/-- The offset all tracks share, as a fraction of a second. -/
def sharedOffset (edits : List (TrackEdit × ℕ)) (movieTimescale : ℕ) :
    Option (ℤ × ℤ) :=
  edits.foldlM (largerOffset movieTimescale) (0, 1)

/-- A value that fits a word. -/
def wordOf (value : ℤ) : Option ℕ :=
  if 0 ≤ value ∧ value < 2 ^ 64 then some value.toNat else none

/-- The shared offset in milliseconds, rounded to the nearest. -/
def sharedOffsetMillis (edits : List (TrackEdit × ℕ)) (movieTimescale : ℕ) :
    Option ℕ := do
  let offset ← sharedOffset edits movieTimescale
  let twice ← int128 (2 * offset.1)
  let scaled ← int128 (twice * 1000)
  let rounded ← int128 (scaled + offset.2)
  let divisor ← int128 (2 * offset.2)
  some ((wordOf (rounded.tdiv divisor)).getD 0)

/-- How far one track is moved, in its own ticks, rounded half up. -/
def timelineShift (movie : ℤ) (offset : ℤ × ℤ) (entry : TrackEdit × ℕ) :
    Option (Result ℕ) := do
  let timescale : ℤ := entry.2
  let delayed ← int128 (entry.1.delay * offset.2)
  let moved ← int128 (offset.1 * movie)
  let sum ← int128 (delayed + moved)
  let scaled ← int128 (sum * timescale)
  let denominator ← int128 (movie * offset.2)
  let twice ← int128 (2 * scaled)
  let rounded ← int128 (twice + denominator)
  let divisor ← int128 (2 * denominator)
  let shift ← int128 (rounded / divisor - entry.1.mediaTime)
  some (okOr (wordOf shift)
    (.invalidMedia "edit list timeline shift is out of range"))

/-- The tracks' moves in order; the first that is out of range ends the
work. -/
def shiftsFrom (movie : ℤ) (offset : ℤ × ℤ) :
    List (TrackEdit × ℕ) → Option (Result (List ℕ))
  | [] => some (.ok [])
  | entry :: rest => do
      match ← timelineShift movie offset entry with
      | .error error => some (.error error)
      | .ok shift =>
          let others ← shiftsFrom movie offset rest
          some (others.map (shift :: ·))

/-- One move for each track. -/
def timelineShifts (edits : List (TrackEdit × ℕ)) (movieTimescale : ℕ) :
    Option (Result (List ℕ)) := do
  let offset ← sharedOffset edits movieTimescale
  shiftsFrom movieTimescale offset edits

/-! ## The exact values -/

def InRange128 (value : ℤ) : Prop :=
  -2 ^ 127 ≤ value ∧ value < 2 ^ 127

theorem int128_eq_some_iff {value result : ℤ} :
    int128 value = some result ↔ InRange128 value ∧ value = result := by
  unfold int128 InRange128
  split
  · rename_i hrange
    rw [Option.some.injEq]
    exact ⟨fun h => ⟨hrange, h⟩, fun h => h.2⟩
  · rename_i hrange
    constructor
    · intro h
      cases h
    · intro h
      exact absurd h.1 hrange

theorem wordOf_eq_some_iff {value : ℤ} {word : ℕ} :
    wordOf value = some word ↔ value < 2 ^ 64 ∧ value = word := by
  unfold wordOf
  split
  · rename_i hword
    constructor
    · intro h
      obtain rfl := Option.some.inj h
      omega
    · rintro ⟨-, rfl⟩
      rfl
  · rename_i hword
    constructor
    · intro h
      cases h
    · rintro ⟨hlt, rfl⟩
      omega

/-- How much later an edit needs every timestamp to be, in seconds. -/
def exactFraction (movie : ℤ) (entry : TrackEdit × ℕ) : ℤ × ℤ :=
  (entry.1.mediaTime * movie - entry.1.delay * entry.2, entry.2 * movie)

/-- A track's move in whole ticks, under the shared offset. -/
def exactShift (movie : ℤ) (offset : ℤ × ℤ) (entry : TrackEdit × ℕ) : ℤ :=
  roundHalfUp ((entry.1.delay * offset.2 + offset.1 * movie) * entry.2)
    (movie * offset.2) - entry.1.mediaTime

section Exact

variable {movie : ℤ} {offset : ℤ × ℤ} {entry : TrackEdit × ℕ}
  {edits : List (TrackEdit × ℕ)}

theorem offsetFraction_eq_some {fraction : ℤ × ℤ}
    (h : offsetFraction movie entry = some fraction) :
    fraction = exactFraction movie entry := by
  obtain ⟨media, hmedia, h⟩ := Option.bind_eq_some_iff.mp h
  obtain ⟨delay, hdelay, h⟩ := Option.bind_eq_some_iff.mp h
  obtain ⟨numerator, hnumerator, h⟩ := Option.bind_eq_some_iff.mp h
  obtain ⟨denominator, hdenominator, h⟩ := Option.bind_eq_some_iff.mp h
  obtain ⟨-, rfl⟩ := int128_eq_some_iff.mp hmedia
  obtain ⟨-, rfl⟩ := int128_eq_some_iff.mp hdelay
  obtain ⟨-, rfl⟩ := int128_eq_some_iff.mp hnumerator
  obtain ⟨-, rfl⟩ := int128_eq_some_iff.mp hdenominator
  exact (Option.some.inj h).symm

theorem exactFraction_pos (hmovie : 0 < movie) (hentry : 0 < entry.2) :
    0 < (exactFraction movie entry).2 :=
  mul_pos (by exact_mod_cast hentry) hmovie

theorem largerOffset_eq_some {next : ℤ × ℤ} (hmovie : 0 < movie)
    (hentry : 0 < entry.2) (hoffset : 0 < offset.2)
    (h : largerOffset movie offset entry = some next) :
    next = if ratio offset < ratio (exactFraction movie entry) then
      exactFraction movie entry else offset := by
  obtain ⟨fraction, hfraction, h⟩ := Option.bind_eq_some_iff.mp h
  obtain rfl := offsetFraction_eq_some hfraction
  obtain ⟨left, hleft, h⟩ := Option.bind_eq_some_iff.mp h
  obtain ⟨right, hright, h⟩ := Option.bind_eq_some_iff.mp h
  obtain ⟨-, rfl⟩ := int128_eq_some_iff.mp hleft
  obtain ⟨-, rfl⟩ := int128_eq_some_iff.mp hright
  rw [← Option.some.inj h]
  simp only [ratio_lt_ratio_iff hoffset (exactFraction_pos hmovie hentry)]

theorem foldlM_largerOffset {start : ℤ × ℤ} (hmovie : 0 < movie)
    (hedits : ∀ entry ∈ edits, 0 < entry.2) (hstart : 0 < start.2)
    (h : edits.foldlM (largerOffset movie) start = some offset) :
    offset = leader ratio start (edits.map (exactFraction movie)) ∧
      0 < offset.2 := by
  induction edits generalizing start with
  | nil =>
      obtain rfl := Option.some.inj h
      exact ⟨rfl, hstart⟩
  | cons entry rest ih =>
      obtain ⟨hentry, hrest⟩ := List.forall_mem_cons.mp hedits
      rw [List.foldlM_cons] at h
      obtain ⟨next, hnext, h⟩ := Option.bind_eq_some_iff.mp h
      have hpos := exactFraction_pos hmovie hentry
      obtain rfl := largerOffset_eq_some hmovie hentry hstart hnext
      rw [List.map_cons, leader]
      apply ih hrest _ h
      split
      · exact hpos
      · exact hstart

theorem timelineShift_eq_some {result : Result ℕ}
    (h : timelineShift movie offset entry = some result) :
    result = okOr (wordOf (exactShift movie offset entry))
      (.invalidMedia "edit list timeline shift is out of range") := by
  obtain ⟨delayed, hdelayed, h⟩ := Option.bind_eq_some_iff.mp h
  obtain ⟨moved, hmoved, h⟩ := Option.bind_eq_some_iff.mp h
  obtain ⟨sum, hsum, h⟩ := Option.bind_eq_some_iff.mp h
  obtain ⟨scaled, hscaled, h⟩ := Option.bind_eq_some_iff.mp h
  obtain ⟨denominator, hdenominator, h⟩ := Option.bind_eq_some_iff.mp h
  obtain ⟨twice, htwice, h⟩ := Option.bind_eq_some_iff.mp h
  obtain ⟨rounded, hrounded, h⟩ := Option.bind_eq_some_iff.mp h
  obtain ⟨divisor, hdivisor, h⟩ := Option.bind_eq_some_iff.mp h
  obtain ⟨shift, hshift, h⟩ := Option.bind_eq_some_iff.mp h
  obtain ⟨-, rfl⟩ := int128_eq_some_iff.mp hdelayed
  obtain ⟨-, rfl⟩ := int128_eq_some_iff.mp hmoved
  obtain ⟨-, rfl⟩ := int128_eq_some_iff.mp hsum
  obtain ⟨-, rfl⟩ := int128_eq_some_iff.mp hscaled
  obtain ⟨-, rfl⟩ := int128_eq_some_iff.mp hdenominator
  obtain ⟨-, rfl⟩ := int128_eq_some_iff.mp htwice
  obtain ⟨-, rfl⟩ := int128_eq_some_iff.mp hrounded
  obtain ⟨-, rfl⟩ := int128_eq_some_iff.mp hdivisor
  obtain ⟨-, rfl⟩ := int128_eq_some_iff.mp hshift
  exact (Option.some.inj h).symm

/-- An edit the offset is large enough for is not moved before zero. -/
theorem exactShift_nonneg (hmovie : 0 < movie) (hentry : 0 < entry.2)
    (hoffset : 0 < offset.2)
    (hle : ratio (exactFraction movie entry) ≤ ratio offset) :
    0 ≤ exactShift movie offset entry := by
  rw [ratio_le_ratio_iff (exactFraction_pos hmovie hentry) hoffset] at hle
  have hden : 0 < movie * offset.2 := mul_pos hmovie hoffset
  have hround : (entry.1.mediaTime : ℤ) ≤
      roundHalfUp ((entry.1.delay * offset.2 + offset.1 * movie) * entry.2)
        (movie * offset.2) := by
    apply le_roundHalfUp hden
    unfold exactFraction at hle
    dsimp only at hle
    nlinarith
  unfold exactShift
  omega

/-- The edit the offset was made for is not moved at all. -/
theorem exactShift_eq_zero (hmovie : 0 < movie) (hentry : 0 < entry.2)
    (hoffset : offset = exactFraction movie entry) :
    exactShift movie offset entry = 0 := by
  have hpos := exactFraction_pos hmovie hentry
  have hden : 0 < movie * offset.2 := by
    rw [hoffset]
    exact mul_pos hmovie hpos
  have hround : roundHalfUp
      ((entry.1.delay * offset.2 + offset.1 * movie) * entry.2)
      (movie * offset.2) = entry.1.mediaTime := by
    apply roundHalfUp_eq hden
    rw [hoffset]
    unfold exactFraction
    ring
  unfold exactShift
  omega

/-! ## One clock -/

/-- Where the edit list says the edit presents, in seconds. -/
def presentsAt (movie : ℕ) (entry : TrackEdit × ℕ) : ℚ :=
  (entry.1.delay : ℚ) / movie

/-- Where the start of the edit lands on the served timeline, in seconds. -/
def landsAt (entry : TrackEdit × ℕ) (shift : ℤ) : ℚ :=
  ((entry.1.mediaTime : ℚ) + shift) / entry.2

theorem exactMove_eq {movie : ℕ} (hmovie : 0 < movie)
    (hoffset : 0 < offset.2) :
    ((((entry.1.delay * offset.2 + offset.1 * movie) * entry.2 : ℤ) : ℚ)) /
        ((movie * offset.2 : ℤ) : ℚ) =
      (presentsAt movie entry + ratio offset) * entry.2 := by
  have hmovie' : (0 : ℚ) < movie := by exact_mod_cast hmovie
  have hoffset' : (0 : ℚ) < offset.2 := by exact_mod_cast hoffset
  unfold presentsAt ratio
  push_cast
  field_simp

/-- A track lands where the shared offset puts it, rounded to its ticks. -/
theorem landsAt_bounds {movie : ℕ} (hmovie : 0 < movie)
    (hentry : 0 < entry.2) (hoffset : 0 < offset.2) :
    -(1 / (2 * entry.2)) <
        landsAt entry (exactShift movie offset entry) -
          presentsAt movie entry - ratio offset ∧
      landsAt entry (exactShift movie offset entry) -
          presentsAt movie entry - ratio offset ≤ 1 / (2 * entry.2) := by
  have hentry' : (0 : ℚ) < entry.2 := by exact_mod_cast hentry
  have hden : 0 < (movie : ℤ) * offset.2 :=
    mul_pos (by exact_mod_cast hmovie) hoffset
  obtain ⟨hlt, hle⟩ := @roundHalfUp_bounds
    ((entry.1.delay * offset.2 + offset.1 * movie) * entry.2)
    (movie * offset.2) hden
  rw [exactMove_eq hmovie hoffset] at hlt hle
  have hlands : landsAt entry (exactShift movie offset entry) * entry.2 =
      roundHalfUp ((entry.1.delay * offset.2 + offset.1 * movie) * entry.2)
        (movie * offset.2) := by
    unfold landsAt exactShift
    rw [div_mul_cancel₀ _ hentry'.ne']
    push_cast
    ring
  rw [← hlands] at hlt hle
  have hhalf : (1 / (2 * entry.2) : ℚ) * entry.2 = 1 / 2 := by
    field_simp
  constructor
  · apply lt_of_mul_lt_mul_right _ hentry'.le
    linarith
  · apply le_of_mul_le_mul_right _ hentry'
    linarith

theorem shiftsFrom_eq_some {movie : ℤ} {result : Result (List ℕ)}
    (hnonneg : ∀ entry ∈ edits, 0 ≤ exactShift movie offset entry)
    (h : shiftsFrom movie offset edits = some result) :
    ∃ shifts : List ℕ,
      List.Forall₂ (fun entry (shift : ℕ) =>
        exactShift movie offset entry = shift) edits shifts ∧
      (result = .ok shifts ∨
        (∃ shift ∈ shifts, 2 ^ 64 ≤ shift) ∧
          result = .error
            (.invalidMedia "edit list timeline shift is out of range")) := by
  induction edits generalizing result with
  | nil =>
      obtain rfl := Option.some.inj h
      exact ⟨[], .nil, Or.inl rfl⟩
  | cons entry rest ih =>
      obtain ⟨hentry, hrest⟩ := List.forall_mem_cons.mp hnonneg
      unfold shiftsFrom at h
      obtain ⟨own, hown, h⟩ := Option.bind_eq_some_iff.mp h
      obtain ⟨shift, hshift⟩ := Int.eq_ofNat_of_zero_le hentry
      have hmoves : ∃ shifts : List ℕ, List.Forall₂ (fun entry (shift : ℕ) =>
          exactShift movie offset entry = shift) rest shifts := by
        refine ⟨rest.map fun entry => (exactShift movie offset entry).toNat,
          ?_⟩
        rw [List.forall₂_map_right_iff, List.forall₂_same]
        intro entry hmem
        have := hrest entry hmem
        omega
      have hexact := timelineShift_eq_some hown
      rw [hshift] at hexact
      by_cases hfits : shift < 2 ^ 64
      · have hword : wordOf (shift : ℤ) = some shift :=
          wordOf_eq_some_iff.mpr ⟨by omega, rfl⟩
        change own = okOr (wordOf (shift : ℤ)) _ at hexact
        rw [hword, okOr_some] at hexact
        rw [hexact] at h
        obtain ⟨others, hothers, h⟩ := Option.bind_eq_some_iff.mp h
        obtain ⟨shifts, hshifts, hresult⟩ := ih hrest hothers
        refine ⟨shift :: shifts, .cons hshift hshifts, ?_⟩
        rw [← Option.some.inj h]
        rcases hresult with rfl | ⟨⟨late, hlate, hlarge⟩, rfl⟩
        · exact Or.inl rfl
        · exact Or.inr ⟨⟨late, by simp [hlate], hlarge⟩, rfl⟩
      · have hword : wordOf (shift : ℤ) = none := by
          rw [Option.eq_none_iff_forall_ne_some]
          intro word hword
          obtain ⟨hlt, -⟩ := wordOf_eq_some_iff.mp hword
          omega
        change own = okOr (wordOf (shift : ℤ)) _ at hexact
        rw [hword, okOr_none] at hexact
        rw [hexact] at h
        obtain ⟨shifts, hshifts⟩ := hmoves
        refine ⟨shift :: shifts, .cons hshift hshifts, Or.inr ⟨⟨shift,
          by simp, by omega⟩, ?_⟩⟩
        exact (Option.some.inj h).symm

end Exact

/-- Every track gets a move that is not negative, refused only where it fits
no word.  Where the shared offset is positive some track stays, and any two
tracks' edits land as far apart as their lists say, within a tick of the
coarser track: half a tick for each. -/
theorem edits_share_one_clock {edits : List (TrackEdit × ℕ)} {movie : ℕ}
    {result : Result (List ℕ)} (hmovie : 0 < movie)
    (hedits : ∀ entry ∈ edits, 0 < entry.2)
    (h : timelineShifts edits movie = some result) :
    ∃ (offset : ℤ × ℤ) (shifts : List ℕ),
      IsLeader ratio (0, 1) (edits.map (exactFraction movie)) offset ∧
      (result = .ok shifts ∨
        (∃ shift ∈ shifts, 2 ^ 64 ≤ shift) ∧
          result = .error
            (.invalidMedia "edit list timeline shift is out of range")) ∧
      shifts.length = edits.length ∧
      (0 < ratio offset → 0 ∈ shifts) ∧
      (∀ track ∈ edits.zip shifts,
        |landsAt track.1 track.2 - presentsAt movie track.1 - ratio offset| ≤
          1 / (2 * track.1.2)) ∧
      ∀ a ∈ edits.zip shifts, ∀ b ∈ edits.zip shifts,
        |(landsAt a.1 a.2 - landsAt b.1 b.2) -
            (presentsAt movie a.1 - presentsAt movie b.1)| <
          1 / (min a.1.2 b.1.2 : ℕ) := by
  have hmovie' : (0 : ℤ) < movie := by exact_mod_cast hmovie
  obtain ⟨offset, hoffset, h⟩ := Option.bind_eq_some_iff.mp h
  obtain ⟨hleader, hpos⟩ :=
    foldlM_largerOffset hmovie' hedits (by decide) hoffset
  have hlargest := leader_isLeader ratio (0, 1)
    (edits.map (exactFraction movie))
  rw [← hleader] at hlargest
  have hnonneg : ∀ entry ∈ edits, 0 ≤ exactShift movie offset entry :=
    fun entry hentry => exactShift_nonneg hmovie' (hedits entry hentry) hpos
      (hlargest.le _ (List.mem_map_of_mem hentry))
  obtain ⟨shifts, hshifts, hresult⟩ := shiftsFrom_eq_some hnonneg h
  have hown : ∀ track ∈ edits.zip shifts,
      exactShift movie offset track.1 = track.2 := fun track htrack =>
    List.forall₂_zip hshifts htrack
  have hbounds : ∀ track ∈ edits.zip shifts,
      -(1 / (2 * track.1.2)) <
          landsAt track.1 track.2 - presentsAt movie track.1 - ratio offset ∧
        landsAt track.1 track.2 - presentsAt movie track.1 - ratio offset ≤
          1 / (2 * track.1.2) := by
    intro track htrack
    rw [← hown track htrack]
    exact landsAt_bounds hmovie
      (hedits _ (List.of_mem_zip htrack).1) hpos
  refine ⟨offset, shifts, hlargest, hresult, hshifts.length_eq.symm, ?_, ?_,
    ?_⟩
  · intro hlarge
    rcases hlargest.mem with hstart | hmem
    · rw [hstart] at hlarge
      simp [ratio] at hlarge
    · obtain ⟨entry, hentry, hfraction⟩ := List.mem_map.mp hmem
      have hzero := exactShift_eq_zero hmovie' (hedits entry hentry)
        hfraction.symm
      obtain ⟨shift, hshift, heq⟩ := exists_mem_of_forall₂ hshifts hentry
      rw [hzero] at heq
      obtain rfl : 0 = shift := by exact_mod_cast heq
      exact hshift
  · intro track htrack
    obtain ⟨hlt, hle⟩ := hbounds track htrack
    exact abs_le.mpr ⟨hlt.le, hle⟩
  · intro a ha b hb
    obtain ⟨halt, hale⟩ := hbounds a ha
    obtain ⟨hblt, hble⟩ := hbounds b hb
    have hta := hedits _ (List.of_mem_zip ha).1
    have htb := hedits _ (List.of_mem_zip hb).1
    have hmin : 0 < min a.1.2 b.1.2 := Nat.lt_min.mpr ⟨hta, htb⟩
    have hmin' : (0 : ℚ) < (min a.1.2 b.1.2 : ℕ) := by exact_mod_cast hmin
    have hhalf : ∀ timescale : ℕ, min a.1.2 b.1.2 ≤ timescale →
        (1 / (2 * timescale) : ℚ) ≤ 1 / (min a.1.2 b.1.2 : ℕ) / 2 := by
      intro timescale hle
      have hle' : ((min a.1.2 b.1.2 : ℕ) : ℚ) ≤ timescale := by
        exact_mod_cast hle
      rw [div_div]
      apply one_div_le_one_div_of_le
      · linarith
      · linarith
    have hhalfA := hhalf a.1.2 (min_le_left _ _)
    have hhalfB := hhalf b.1.2 (min_le_right _ _)
    rw [abs_lt]
    constructor
    · linarith
    · linarith

/-- Video with a reordering delay, and audio with encoder padding that starts
twenty milliseconds late. -/
def paddedEdits : List (TrackEdit × ℕ) :=
  [(⟨3003, 0, none⟩, 90000), (⟨1024, 20, none⟩, 44100)]

theorem timelineShifts_paddedEdits :
    timelineShifts paddedEdits 1000 = some (.ok [0, 1329]) := by
  decide

theorem edits_share_one_clock_padded :
    timelineShifts paddedEdits 1000 = some (.ok [0, 1329]) ∧
      ∀ a ∈ paddedEdits.zip [0, 1329], ∀ b ∈ paddedEdits.zip [0, 1329],
        |(landsAt a.1 (a.2 : ℕ) - landsAt b.1 (b.2 : ℕ)) -
            (presentsAt 1000 a.1 - presentsAt 1000 b.1)| <
          1 / (min a.1.2 b.1.2 : ℕ) := by
  refine ⟨timelineShifts_paddedEdits, ?_⟩
  obtain ⟨offset, shifts, -, hresult, -, -, -, hapart⟩ :=
    edits_share_one_clock (by decide) (by decide) timelineShifts_paddedEdits
  rcases hresult with hshifts | ⟨-, herror⟩
  · obtain rfl := Except.ok.inj hshifts
    exact hapart
  · cases herror

end Segmentor.EditLists
