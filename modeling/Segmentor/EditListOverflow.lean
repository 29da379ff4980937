import Segmentor.EditLists

/-!
# Edit lists that leave the range of the arithmetic

The comparison of two offsets multiplies one's numerator by the other's
denominator, and a move multiplies the offset by two timescales.  The edits of
a file can be such that a product is no 128-bit integer.
-/

namespace Segmentor.EditLists

open General

/-- The edits and timescales of a file's tracks, as its edit lists are
read. -/
structure ParsedEdits (movie : ℕ) (edits : List (TrackEdit × ℕ)) : Prop where
  movie_pos : 0 < movie
  movie_lt : movie < 2 ^ 32
  timescale_pos : ∀ entry ∈ edits, 0 < entry.2
  timescale_lt : ∀ entry ∈ edits, entry.2 < 2 ^ 32
  parsed : ∀ entry ∈ edits, ∃ trackId version entries,
    parseEditList trackId version entries movie entry.2 = .ok entry.1

/-- No multiplication or addition leaves the range. -/
structure NeverOverflows (movie : ℕ) (edits : List (TrackEdit × ℕ)) :
    Prop where
  offset : (sharedOffset edits movie).isSome = true
  millis : (sharedOffsetMillis edits movie).isSome = true
  shifts : (timelineShifts edits movie).isSome = true

/-- A track's move fits a word. -/
def MoveFits (movie : ℕ) (offset : ℤ × ℤ) (entry : TrackEdit × ℕ) : Prop :=
  (presentsAt movie entry + ratio offset) * entry.2 + 1 / 2 <
    entry.1.mediaTime + 2 ^ 64

/-- Each track's fraction times the largest one's before it, and each track's
share of the largest of all up to the first whose move fits no word, fit. -/
structure ProductsFit (movie : ℕ) (edits : List (TrackEdit × ℕ)) :
    Prop where
  comparisons : ∀ before entry after offset,
    edits = before ++ entry :: after →
    IsLeader ratio (0, 1) (before.map (exactFraction movie)) offset →
      InRange128 ((exactFraction movie entry).1 * offset.2) ∧
        InRange128 (offset.1 * (exactFraction movie entry).2)
  moves : ∀ before entry after offset,
    edits = before ++ entry :: after →
    IsLeader ratio (0, 1) (edits.map (exactFraction movie)) offset →
    (∀ earlier ∈ before, MoveFits movie offset earlier) →
      2 * ((entry.1.delay * offset.2 + offset.1 * movie) * entry.2) +
        movie * offset.2 < 2 ^ 127

/-! ## Bounds of what is read -/

theorem delayAndEdit_eq_ok {trackId version : ℕ} {entries : List ElstEntry}
    {delay : ℕ} {edit : ElstEntry}
    (h : delayAndEdit trackId version entries = .ok (some (delay, edit))) :
    delay < 2 ^ 64 := by
  unfold delayAndEdit at h
  split at h
  · cases h
  · split at h
    · cases h
    · cases h
      decide
  · rename_i gap _
    split at h
    · cases h
      exact gap.segmentDuration_lt
    · cases h
  · cases h

theorem parseEditList_bounds {trackId version movie timescale : ℕ}
    {entries : List ElstEntry} {edit : TrackEdit}
    (h : parseEditList trackId version entries movie timescale = .ok edit) :
    edit.mediaTime < 2 ^ 63 ∧ edit.delay < 2 ^ 64 := by
  unfold parseEditList at h
  split at h
  · cases h
  obtain ⟨found, hfound, h⟩ := bind_eq_ok_iff.mp h
  cases found with
  | none =>
      cases h
      decide
  | some found =>
      obtain ⟨delay, entry⟩ := found
      have hdelay := delayAndEdit_eq_ok hfound
      have hlimit : (if version = 1 then 2 ^ 63 - 1 else 2 ^ 31 - 1) <
          2 ^ 63 := by
        split <;> decide
      dsimp only at h
      generalize (if version = 1 then 2 ^ 63 - 1 else 2 ^ 31 - 1) = limit
        at h hlimit
      split_ifs at h with hrate hnegative hzero
      obtain rfl := Except.ok.inj h
      refine ⟨?_, hdelay⟩
      change entry.mediaTime < 2 ^ 63
      omega

/-! ## Which products fit -/

section Products

variable {movie : ℕ} {offset : ℤ × ℤ} {entry : TrackEdit × ℕ}
  {edits : List (TrackEdit × ℕ)}

/-- What the fraction of an edit that was read is bounded by. -/
structure SmallFraction (fraction : ℤ × ℤ) : Prop where
  gt : -2 ^ 96 < fraction.1
  lt : fraction.1 < 2 ^ 95
  pos : 0 < fraction.2
  den_lt : fraction.2 < 2 ^ 64

theorem ParsedEdits.bounds (h : ParsedEdits movie edits)
    (hentry : entry ∈ edits) :
    entry.1.mediaTime < 2 ^ 63 ∧ entry.1.delay < 2 ^ 64 := by
  obtain ⟨trackId, version, entries, hparsed⟩ := h.parsed entry hentry
  exact parseEditList_bounds hparsed

theorem mul_lt_of_bounds {a b A B : ℕ} (ha : a < A) (hb : b < B) :
    a * b < A * B :=
  Nat.mul_lt_mul'' ha hb

theorem ParsedEdits.smallFraction (h : ParsedEdits movie edits)
    (hentry : entry ∈ edits) : SmallFraction (exactFraction movie entry) := by
  obtain ⟨hmedia, hdelay⟩ := h.bounds hentry
  have hmovie := h.movie_lt
  have hscale := h.timescale_lt entry hentry
  have hmediaMovie := mul_lt_of_bounds hmedia hmovie
  have hdelayScale := mul_lt_of_bounds hdelay hscale
  have hden := mul_lt_of_bounds hscale hmovie
  have hpos := Nat.mul_pos (h.timescale_pos entry hentry) h.movie_pos
  unfold exactFraction
  constructor
  · dsimp only
    push_cast
    omega
  · dsimp only
    push_cast
    omega
  · dsimp only
    exact_mod_cast hpos
  · dsimp only
    exact_mod_cast hden

theorem int128_eq {value : ℤ} (h : InRange128 value) :
    int128 value = some value :=
  int128_eq_some_iff.mpr ⟨h, rfl⟩

theorem ParsedEdits.offsetFraction_eq (h : ParsedEdits movie edits)
    (hentry : entry ∈ edits) :
    offsetFraction movie entry = some (exactFraction movie entry) := by
  obtain ⟨hmedia, hdelay⟩ := h.bounds hentry
  have hmediaMovie := mul_lt_of_bounds hmedia h.movie_lt
  have hdelayScale := mul_lt_of_bounds hdelay (h.timescale_lt entry hentry)
  have hsmall := h.smallFraction hentry
  have hgt := hsmall.gt
  have hlt := hsmall.lt
  have hpos := hsmall.pos
  have hden := hsmall.den_lt
  have hfirst : InRange128 (entry.1.mediaTime * movie : ℤ) := by
    constructor
    · push_cast
      omega
    · exact_mod_cast Nat.lt_trans hmediaMovie (by decide)
  have hsecond : InRange128 (entry.1.delay * (entry.2 : ℤ)) := by
    constructor
    · omega
    · exact_mod_cast Nat.lt_trans hdelayScale (by decide)
  unfold exactFraction at hgt hlt hpos hden
  dsimp only at hgt hlt hpos hden
  unfold offsetFraction
  dsimp only
  rw [int128_eq hfirst, Option.bind_eq_bind, Option.bind_some,
    int128_eq hsecond, Option.bind_some, int128_eq ⟨by omega, by omega⟩,
    Option.bind_some, int128_eq ⟨by omega, by omega⟩, Option.bind_some]
  rfl

theorem isSome_bind_int128 {α : Type} {value : ℤ} {f : ℤ → Option α} :
    ((int128 value).bind f).isSome = true ↔
      InRange128 value ∧ (f value).isSome = true := by
  by_cases hrange : InRange128 value
  · rw [int128_eq hrange, Option.bind_some]
    exact (and_iff_right hrange).symm
  · have hnone : int128 value = none := by
      rw [Option.eq_none_iff_forall_ne_some]
      intro result hresult
      exact hrange (int128_eq_some_iff.mp hresult).1
    rw [hnone]
    simp [hrange]

theorem ParsedEdits.largerOffset_isSome (h : ParsedEdits movie edits)
    (hentry : entry ∈ edits) :
    (largerOffset movie offset entry).isSome = true ↔
      InRange128 ((exactFraction movie entry).1 * offset.2) ∧
        InRange128 (offset.1 * (exactFraction movie entry).2) := by
  unfold largerOffset
  simp only [h.offsetFraction_eq hentry, Option.bind_eq_bind,
    Option.bind_some, isSome_bind_int128, Option.isSome_some, and_true]

theorem foldlM_largerOffset_isSome {start : ℤ × ℤ} (hmovie : 0 < movie)
    (hedits : ∀ entry ∈ edits, 0 < entry.2) (hstart : 0 < start.2)
    (hstep : ∀ entry ∈ edits, ∀ offset : ℤ × ℤ,
      (largerOffset movie offset entry).isSome = true ↔
        InRange128 ((exactFraction movie entry).1 * offset.2) ∧
          InRange128 (offset.1 * (exactFraction movie entry).2)) :
    (edits.foldlM (largerOffset movie) start).isSome = true ↔
      ∀ before entry after, edits = before ++ entry :: after →
        InRange128 ((exactFraction movie entry).1 *
            (leader ratio start (before.map (exactFraction movie))).2) ∧
          InRange128
            ((leader ratio start (before.map (exactFraction movie))).1 *
              (exactFraction movie entry).2) := by
  induction edits generalizing start with
  | nil =>
      simp only [List.foldlM_nil, List.nil_eq, List.append_eq_nil_iff,
        reduceCtorEq, and_false, false_imp_iff, implies_true, iff_true]
      rfl
  | cons entry rest ih =>
      obtain ⟨hentry, hrest⟩ := List.forall_mem_cons.mp hedits
      obtain ⟨hown, hothers⟩ := List.forall_mem_cons.mp hstep
      rw [List.foldlM_cons]
      have hsplit : (∀ before e after, entry :: rest = before ++ e :: after →
          InRange128 ((exactFraction movie e).1 *
              (leader ratio start (before.map (exactFraction movie))).2) ∧
            InRange128
              ((leader ratio start (before.map (exactFraction movie))).1 *
                (exactFraction movie e).2)) ↔
          (InRange128 ((exactFraction movie entry).1 * start.2) ∧
            InRange128 (start.1 * (exactFraction movie entry).2)) ∧
          ∀ before e after, rest = before ++ e :: after →
            InRange128 ((exactFraction movie e).1 *
              (leader ratio start ((entry :: before).map
                (exactFraction movie))).2) ∧
            InRange128 ((leader ratio start ((entry :: before).map
                (exactFraction movie))).1 * (exactFraction movie e).2) := by
        constructor
        · intro hall
          refine ⟨hall [] entry rest rfl, fun before e after heq => ?_⟩
          exact hall (entry :: before) e after (by rw [heq]; rfl)
        · rintro ⟨hfirst, hlater⟩ before e after heq
          cases before with
          | nil =>
              obtain ⟨rfl, rfl⟩ := List.cons.inj heq
              exact hfirst
          | cons b before =>
              obtain ⟨rfl, htail⟩ := List.cons.inj heq
              exact hlater before e after htail
      rw [hsplit, ← hown start]
      cases hnext : largerOffset movie start entry with
      | none => simp
      | some next =>
          have hpos := @exactFraction_pos movie entry (by exact_mod_cast hmovie)
            hentry
          obtain rfl := largerOffset_eq_some (by exact_mod_cast hmovie) hentry
            hstart hnext
          rw [Option.bind_eq_bind, Option.bind_some, ih hrest _ hothers]
          · simp only [Option.isSome_some, true_and, List.map_cons, leader]
          · split
            · exact hpos
            · exact hstart

/-- A sum of nonnegative parts fits where the last of them does. -/
theorem timelineShift_isSome {timescale : ℕ} {edit : TrackEdit}
    (hmovie : 0 < movie) (hmovieLt : movie < 2 ^ 32)
    (htimescale : 0 < timescale) (hmedia : edit.mediaTime < 2 ^ 63)
    (hnum : 0 ≤ offset.1) (hden : 0 < offset.2)
    (hdenLt : offset.2 < 2 ^ 64) :
    (timelineShift movie offset (edit, timescale)).isSome = true ↔
      2 * ((edit.delay * offset.2 + offset.1 * movie) * timescale) +
        movie * offset.2 < 2 ^ 127 := by
  obtain ⟨numerator, denominator⟩ := offset
  dsimp only at hnum hden hdenLt ⊢
  have hdelayed : 0 ≤ (edit.delay : ℤ) * denominator :=
    mul_nonneg (by omega) hden.le
  have hmoved : 0 ≤ numerator * (movie : ℤ) := mul_nonneg hnum (by omega)
  have hscaled : (edit.delay : ℤ) * denominator + numerator * movie ≤
      ((edit.delay : ℤ) * denominator + numerator * movie) * timescale :=
    le_mul_of_one_le_right (by omega) (by omega)
  have hdivisor : 0 < (movie : ℤ) * denominator := mul_pos (by omega) hden
  have hdivisorLt : (movie : ℤ) * denominator < 2 ^ 32 * 2 ^ 64 :=
    mul_lt_mul'' (by omega) hdenLt (by omega) hden.le
  unfold timelineShift
  simp only [Option.bind_eq_bind, isSome_bind_int128, Option.isSome_some,
    and_true]
  generalize (edit.delay : ℤ) * denominator = delayed at *
  generalize numerator * (movie : ℤ) = moved at *
  generalize (delayed + moved) * (timescale : ℤ) = scaled at *
  generalize (movie : ℤ) * denominator = divisor at *
  unfold InRange128
  constructor
  · rintro ⟨-, -, -, -, -, -, hrounded, -⟩
    exact hrounded.2
  · intro hlt
    have hticks : 0 ≤ (2 * scaled + divisor) / (2 * divisor) :=
      Int.ediv_nonneg (by omega) (by omega)
    have hticksLe : (2 * scaled + divisor) / (2 * divisor) ≤
        2 * scaled + divisor := Int.ediv_le_self _ (by omega)
    generalize (2 * scaled + divisor) / (2 * divisor) = ticks at *
    omega

theorem exactShift_lt_iff (hmovie : 0 < movie)
    (hoffset : 0 < offset.2) :
    exactShift movie offset entry < 2 ^ 64 ↔ MoveFits movie offset entry := by
  have hden : 0 < (movie : ℤ) * offset.2 :=
    mul_pos (by exact_mod_cast hmovie) hoffset
  have hround := @roundHalfUp_lt_iff
    ((entry.1.delay * offset.2 + offset.1 * movie) * entry.2)
    (movie * offset.2) (entry.1.mediaTime + 2 ^ 64) hden
  rw [exactMove_eq hmovie hoffset] at hround
  have hcast : ((entry.1.mediaTime + 2 ^ 64 : ℤ) : ℚ) =
      entry.1.mediaTime + 2 ^ 64 := by
    push_cast
    rfl
  rw [hcast] at hround
  unfold exactShift MoveFits
  rw [← hround]
  omega

/-- The moves are worked out where each one is, up to the first that fits no
word. -/
theorem shiftsFrom_isSome {fits : TrackEdit × ℕ → Prop}
    (hnonneg : ∀ entry ∈ edits, 0 ≤ exactShift movie offset entry)
    (hstep : ∀ entry ∈ edits,
      (timelineShift movie offset entry).isSome = true ↔ fits entry) :
    (shiftsFrom movie offset edits).isSome = true ↔
      ∀ before entry after, edits = before ++ entry :: after →
        (∀ earlier ∈ before, exactShift movie offset earlier < 2 ^ 64) →
          fits entry := by
  induction edits with
  | nil => simp [shiftsFrom]
  | cons entry rest ih =>
      obtain ⟨hentry, hrest⟩ := List.forall_mem_cons.mp hnonneg
      obtain ⟨hown, hothers⟩ := List.forall_mem_cons.mp hstep
      have hsplit : (∀ before e after, entry :: rest = before ++ e :: after →
          (∀ earlier ∈ before, exactShift movie offset earlier < 2 ^ 64) →
            fits e) ↔
          fits entry ∧ (exactShift movie offset entry < 2 ^ 64 →
            ∀ before e after, rest = before ++ e :: after →
              (∀ earlier ∈ before,
                exactShift movie offset earlier < 2 ^ 64) → fits e) := by
        constructor
        · intro hall
          refine ⟨hall [] entry rest rfl (by simp), ?_⟩
          intro hlt before e after heq hbefore
          exact hall (entry :: before) e after (by rw [heq]; rfl)
            (List.forall_mem_cons.mpr ⟨hlt, hbefore⟩)
        · rintro ⟨hfirst, hlater⟩ before e after heq hbefore
          cases before with
          | nil =>
              obtain ⟨rfl, rfl⟩ := List.cons.inj heq
              exact hfirst
          | cons b before =>
              obtain ⟨rfl, htail⟩ := List.cons.inj heq
              obtain ⟨hlt, hbefore⟩ := List.forall_mem_cons.mp hbefore
              exact hlater hlt before e after htail hbefore
      rw [hsplit, ← hown, ← ih hrest hothers, shiftsFrom]
      cases hmove : timelineShift movie offset entry with
      | none => simp
      | some result =>
          have hexact := timelineShift_eq_some hmove
          rw [Option.bind_eq_bind, Option.bind_some]
          by_cases hlt : exactShift movie offset entry < 2 ^ 64
          · have hword : wordOf (exactShift movie offset entry) =
                some (exactShift movie offset entry).toNat :=
              wordOf_eq_some_iff.mpr ⟨hlt, by omega⟩
            rw [hword, okOr_some] at hexact
            subst hexact
            simp only [Option.isSome_some, true_and, hlt, true_imp_iff]
            cases shiftsFrom movie offset rest <;> rfl
          · have hword : wordOf (exactShift movie offset entry) = none := by
              rw [Option.eq_none_iff_forall_ne_some]
              intro word hword
              exact hlt (wordOf_eq_some_iff.mp hword).1
            rw [hword, okOr_none] at hexact
            subst hexact
            exact ⟨fun _ => ⟨rfl, fun hfits => absurd hfits hlt⟩,
              fun _ => rfl⟩

end Products

/-- The arithmetic on the edits of a file stays in range exactly where its
products fit. -/
theorem edit_arithmetic_in_range_iff {movie : ℕ}
    {edits : List (TrackEdit × ℕ)} (h : ParsedEdits movie edits) :
    NeverOverflows movie edits ↔ ProductsFit movie edits := by
  have hmovie := h.movie_pos
  have hmovie' : (0 : ℤ) < movie := by exact_mod_cast hmovie
  have hleader := fun l => leader_isLeader ratio (0, 1)
    (List.map (exactFraction movie) l)
  have hcomparisons := foldlM_largerOffset_isSome hmovie h.timescale_pos
    (show (0 : ℤ) < ((0, 1) : ℤ × ℤ).2 by decide)
    fun entry hentry offset => h.largerOffset_isSome hentry
  have hoffset : ∀ offset,
      IsLeader ratio (0, 1) (edits.map (exactFraction movie)) offset →
        0 ≤ offset.1 ∧ offset.1 < 2 ^ 95 ∧ 0 < offset.2 ∧
          offset.2 < 2 ^ 64 := by
    intro offset hlargest
    have hnonneg : (0 : ℚ) ≤ ratio offset := by
      have := hlargest.start_le
      simpa [ratio] using this
    rcases hlargest.mem with rfl | hmem
    · decide
    · obtain ⟨entry, hentry, rfl⟩ := List.mem_map.mp hmem
      have hsmall := h.smallFraction hentry
      have hnum : ratio (0, 1) ≤ ratio (exactFraction movie entry) :=
        hlargest.start_le
      rw [ratio_le_ratio_iff (by decide) hsmall.pos] at hnum
      exact ⟨by omega, hsmall.lt, hsmall.pos, hsmall.den_lt⟩
  have hmoves : ∀ offset,
      IsLeader ratio (0, 1) (edits.map (exactFraction movie)) offset →
        ((shiftsFrom movie offset edits).isSome = true ↔
          ∀ before entry after, edits = before ++ entry :: after →
            (∀ earlier ∈ before, MoveFits movie offset earlier) →
              2 * ((entry.1.delay * offset.2 + offset.1 * movie) * entry.2) +
                movie * offset.2 < 2 ^ 127) := by
    intro offset hlargest
    obtain ⟨hnum, -, hden, hdenLt⟩ := hoffset offset hlargest
    rw [shiftsFrom_isSome
      (fun entry hentry => exactShift_nonneg hmovie'
        (h.timescale_pos entry hentry) hden
        (hlargest.le _ (List.mem_map_of_mem hentry)))
      fun entry hentry => timelineShift_isSome hmovie h.movie_lt
        (h.timescale_pos entry hentry) (h.bounds hentry).1 hnum hden hdenLt]
    simp only [exactShift_lt_iff hmovie hden]
  constructor
  · intro hnever
    refine ⟨?_, ?_⟩
    · intro before entry after offset heq hlargest
      obtain rfl := hlargest.unique (hleader before)
      exact hcomparisons.mp hnever.offset before entry after heq
    · intro before entry after offset heq hlargest
      obtain ⟨found, hfound⟩ := Option.isSome_iff_exists.mp hnever.offset
      obtain ⟨rfl, -⟩ :=
        foldlM_largerOffset hmovie' h.timescale_pos (by decide) hfound
      obtain rfl := hlargest.unique (hleader edits)
      have hshifts := hnever.shifts
      unfold timelineShifts at hshifts
      rw [hfound, Option.bind_eq_bind, Option.bind_some] at hshifts
      exact (hmoves _ hlargest).mp hshifts before entry after heq
  · intro hfit
    have hsome : (sharedOffset edits movie).isSome = true :=
      hcomparisons.mpr fun before entry after heq =>
        hfit.comparisons before entry after _ heq (hleader before)
    obtain ⟨found, hfound⟩ := Option.isSome_iff_exists.mp hsome
    obtain ⟨hfirst, -⟩ :=
      foldlM_largerOffset hmovie' h.timescale_pos (by decide) hfound
    have hlargest := hleader edits
    rw [← hfirst] at hlargest
    obtain ⟨hnum, hnumLt, hden, hdenLt⟩ := hoffset found hlargest
    refine ⟨hsome, ?_, ?_⟩
    · unfold sharedOffsetMillis
      rw [hfound]
      simp only [Option.bind_eq_bind, Option.bind_some, isSome_bind_int128,
        Option.isSome_some, and_true]
      unfold InRange128
      omega
    · unfold timelineShifts
      rw [hfound, Option.bind_eq_bind, Option.bind_some, hmoves found hlargest]
      exact fun before entry after heq =>
        hfit.moves before entry after found heq hlargest

/-- An edit list of one entry that starts at media time two to the sixty-second
power, in a movie and a track of the largest timescale. -/
def lateEntry : ElstEntry where
  segmentDuration := 0
  mediaTime := 2 ^ 62
  mediaRate := 1
  mediaRateFraction := 0
  segmentDuration_lt := by decide
  mediaTime_lt := by decide

def lateEdits : List (TrackEdit × ℕ) :=
  [(⟨2 ^ 62, 0, none⟩, 2 ^ 32 - 1)]

theorem parsed_lateEdits : ParsedEdits (2 ^ 32 - 1) lateEdits where
  movie_pos := by decide
  movie_lt := by decide
  timescale_pos := by decide
  timescale_lt := by decide
  parsed := by
    intro entry hentry
    obtain rfl := List.mem_singleton.mp hentry
    exact ⟨1, 1, [lateEntry], by decide⟩

/-- The list is accepted, and working out the track's move leaves the range of
a 128-bit integer. -/
theorem lateEdits_overflow :
    ParsedEdits (2 ^ 32 - 1) lateEdits ∧
      timelineShifts lateEdits (2 ^ 32 - 1) = none ∧
      ¬ ∀ movie edits, ParsedEdits movie edits →
        NeverOverflows movie edits := by
  have hnone : timelineShifts lateEdits (2 ^ 32 - 1) = none := by
    decide
  refine ⟨parsed_lateEdits, hnone, fun hall => ?_⟩
  have hsome := (hall _ _ parsed_lateEdits).shifts
  rw [hnone] at hsome
  cases hsome

/-- An edit past the priming samples of an audio track. -/
def primedEntry : ElstEntry :=
  { lateEntry with
    segmentDuration := 2000
    mediaTime := 1024
    segmentDuration_lt := by decide
    mediaTime_lt := by decide }

def primedEdits : List (TrackEdit × ℕ) :=
  [(⟨1024, 0, some 97024⟩, 48000)]

theorem parsed_primedEdits : ParsedEdits 1000 primedEdits where
  movie_pos := by decide
  movie_lt := by decide
  timescale_pos := by decide
  timescale_lt := by decide
  parsed := by
    intro entry hentry
    obtain rfl := List.mem_singleton.mp hentry
    exact ⟨1, 1, [primedEntry], by decide +kernel⟩

theorem edit_arithmetic_in_range_primed :
    ProductsFit 1000 primedEdits ∧ ¬ ProductsFit (2 ^ 32 - 1) lateEdits := by
  constructor
  · exact (edit_arithmetic_in_range_iff parsed_primedEdits).mp
      ⟨by decide, by decide, by decide⟩
  · intro hfit
    have hsome :=
      ((edit_arithmetic_in_range_iff parsed_lateEdits).mpr hfit).shifts
    revert hsome
    decide

end Segmentor.EditLists
