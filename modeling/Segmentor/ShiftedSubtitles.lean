import Segmentor.Subtitles

/-!
# Moving the cues of a file

Preparing a WebVTT file reads every timing line and writes it again with both
times moved.  Hours are written with as many digits as they need and read with
ten at most, blanks after the times are read as settings, and a byte order
mark is read and not written: where none of these is met, a file is only
moved, and can be moved on.
-/

namespace Segmentor

open General

/-! ## Times -/

/-- The first time whose hours have more than ten digits, in milliseconds. -/
def clockBound : ℕ := 10 ^ 10 * 3600000

theorem length_padded (width n : ℕ) :
    (padded width n).length = max width (Nat.toDigits 10 n).length := by
  unfold padded
  simp only [List.length_append, List.length_replicate]
  omega

theorem number_padded_iff {width n least most : ℕ} (hleast : least ≤ width)
    (hwidth : width ≤ most) (hmost : 0 < most) :
    number (padded width n) least most = some n ↔ n < 10 ^ most := by
  have hdigits := @Nat.length_toDigits_le_iff 10 n most (by decide) hmost
  constructor
  · intro h
    obtain ⟨⟨-, -, hlength⟩, -⟩ := number_eq_some_iff.mp h
    rw [length_padded] at hlength
    exact hdigits.mp (by omega)
  · intro h
    have hlength := hdigits.mpr h
    obtain ⟨found, hfound⟩ : ∃ found,
        number (padded width n) least most = some found := by
      refine ⟨_, number_eq_some_iff.mpr ⟨⟨fun c => isDigit_of_mem_padded, ?_⟩,
        rfl⟩⟩
      rw [length_padded]
      omega
    rw [hfound, number_padded hfound]

theorem clockMillis_of_lt {hours minutes seconds milliseconds : ℕ}
    (hminutes : minutes < 60) (hseconds : seconds < 60)
    (h : hours * 3600000 + minutes * 60000 + seconds * 1000 +
      milliseconds < 2 ^ 64) :
    clockMillis hours minutes seconds milliseconds =
      some (hours * 3600000 + minutes * 60000 + seconds * 1000 +
        milliseconds) := by
  have hmillis := Nat.lt_of_le_of_lt (Nat.le_add_right ..) h
  have hseconds' := Nat.lt_of_le_of_lt (Nat.le_add_right ..) hmillis
  have hminutes' := Nat.lt_of_le_of_lt (Nat.le_add_right ..) hseconds'
  unfold clockMillis
  rw [if_neg (not_or.mpr ⟨Nat.not_le.mpr hminutes, Nat.not_le.mpr hseconds⟩)]
  simp only [Option.bind_eq_bind, Option.bind_eq_some_iff,
    checkedAdd_eq_some_iff, checkedMul_eq_some_iff]
  exact ⟨_, ⟨hminutes', rfl⟩, _, ⟨hseconds', rfl⟩, _, ⟨hmillis, rfl⟩, h, rfl⟩

theorem parseTimestamp_formatTimestamp_iff {n : ℕ} :
    (∃ found, parseTimestamp (formatTimestamp n) = some found) ↔
      n < clockBound := by
  have hhours : n / 3600000 < 10 ^ 10 ↔ n < clockBound := by
    unfold clockBound
    exact Nat.div_lt_iff_lt_mul (by decide)
  unfold parseTimestamp
  rw [splitAtFirst_formatTimestamp]
  simp only [Option.bind_eq_bind, Option.bind_some, splitOn_clock]
  have hmillis := (@number_padded_iff 3 (n % 1000) 3 3 (by decide) (by decide)
    (by decide)).mpr (Nat.mod_lt n (by decide))
  have hsmall : ∀ m, number (padded 2 (m % 60)) 2 2 = some (m % 60) :=
    fun m => (number_padded_iff (by decide) (by decide) (by decide)).mpr
      ((Nat.mod_lt m (by decide)).trans (by decide))
  rw [hmillis, Option.bind_some, ← hhours, ← @number_padded_iff 2
    (n / 3600000) 2 10 (by decide) (by decide) (by decide)]
  constructor
  · rintro ⟨found, hfound⟩
    obtain ⟨hours, hread, -⟩ := Option.bind_eq_some_iff.mp hfound
    rw [hread, number_padded hread]
  · intro hread
    have hlt := hhours.mp ((number_padded_iff (by decide) (by decide)
      (by decide)).mp hread)
    unfold clockBound at hlt
    rw [hread, Option.bind_some, hsmall, Option.bind_some, hsmall,
      Option.bind_some, clockMillis_of_lt (Nat.mod_lt _ (by decide))
        (Nat.mod_lt _ (by decide)) (by omega)]
    exact ⟨_, rfl⟩

/-! ## Timing lines -/

def isBlankColumn (c : Char) : Bool :=
  c == ' ' || c == '\t'

/-- The times of a timing line and what follows them. -/
def timingParts (line : Text) : Option (ℕ × ℕ × Text) := do
  let (before, rest) ← splitOnce arrow line
  let (stop, settings) :=
    (splitAtFirst isBlankColumn (trimStart rest)).getD (trimStart rest, [])
  let start ← parseTimestamp (trim before)
  let stop ← parseTimestamp stop
  some (start, stop, settings)

/-- What is written after the times. -/
def settingsText (settings : Text) : Text :=
  if settings = [] then [] else ' ' :: trimStart settings

theorem shiftTimingLine_eq_some_iff {line moved : Text} {offsetMs : ℕ} :
    shiftTimingLine line offsetMs = some moved ↔
      ∃ start stop settings,
        timingParts line = some (start, stop, settings) ∧
        start + offsetMs < 2 ^ 64 ∧ stop + offsetMs < 2 ^ 64 ∧
        formatTiming (start + offsetMs) (stop + offsetMs) ++
          settingsText settings = moved := by
  unfold shiftTimingLine timingParts
  simp only [Option.bind_eq_bind, Option.bind_eq_some_iff, Option.some.injEq,
    Prod.mk.injEq, checkedAdd_eq_some_iff]
  constructor
  · rintro ⟨⟨before, rest⟩, hsplit, start, hstart, -, ⟨hstartLt, rfl⟩, stop,
      hstop, -, ⟨hstopLt, rfl⟩, hmoved⟩
    exact ⟨start, stop, _, ⟨(before, rest), hsplit, start, hstart, stop, hstop,
      rfl, rfl, rfl⟩, hstartLt, hstopLt, hmoved⟩
  · rintro ⟨_, _, _, ⟨⟨before, rest⟩, hsplit, start, hstart, stop, hstop, rfl,
      rfl, rfl⟩, hstartLt, hstopLt, hmoved⟩
    exact ⟨(before, rest), hsplit, start, hstart, _, ⟨hstartLt, rfl⟩, stop,
      hstop, _, ⟨hstopLt, rfl⟩, hmoved⟩

theorem trimStart_trimStart (text : Text) :
    trimStart (trimStart text) = trimStart text :=
  List.dropWhile_idempotent _ text

/-- Of a written timing line the end time and the settings are found again. -/
theorem splitAtFirst_settingsText (stop : ℕ) (settings : Text) :
    (splitAtFirst isBlankColumn
        (formatTimestamp stop ++ settingsText settings)).getD
      (formatTimestamp stop ++ settingsText settings, []) =
      (formatTimestamp stop, trimStart settings) := by
  have hfree : ∀ c ∈ formatTimestamp stop, isBlankColumn c = false := by
    intro c hc
    rcases of_mem_formatTimestamp hc with hdigit | rfl | rfl
    · unfold isBlankColumn
      rw [Bool.or_eq_false_iff, beq_eq_false_iff_ne, beq_eq_false_iff_ne]
      constructor <;> rintro rfl <;> cases hdigit
    · decide
    · decide
  unfold settingsText
  split
  · next hnil =>
      rw [List.append_nil, hnil, splitAtFirst_eq_none_iff.mpr hfree]
      rfl
  · rw [splitAtFirst_append hfree (by decide)]
    rfl

theorem timingParts_written (start stop : ℕ) (settings : Text) :
    timingParts (formatTiming start stop ++ settingsText settings) = (do
      let start ← parseTimestamp (formatTimestamp start)
      let stop ← parseTimestamp (formatTimestamp stop)
      some (start, stop, trimStart settings)) := by
  have hblank : trimStart
      (' ' :: formatTimestamp stop ++ settingsText settings) =
      formatTimestamp stop ++ settingsText settings := by
    rw [← trimStart_formatTimestamp]
    exact List.dropWhile_cons_of_pos (by decide)
  unfold timingParts
  rw [splitOnce_formatTiming]
  simp only [Option.bind_eq_bind, Option.bind_some, hblank,
    splitAtFirst_settingsText, trim_formatTimestamp]

theorem timingParts_written_iff {start stop : ℕ} {settings : Text}
    {parts : ℕ × ℕ × Text} :
    timingParts (formatTiming start stop ++ settingsText settings) =
        some parts ↔
      start < clockBound ∧ stop < clockBound ∧
        (start, stop, trimStart settings) = parts := by
  rw [timingParts_written, ← parseTimestamp_formatTimestamp_iff,
    ← parseTimestamp_formatTimestamp_iff]
  simp only [Option.bind_eq_bind, Option.bind_eq_some_iff, Option.some.injEq]
  constructor
  · rintro ⟨found, hstart, other, hstop, rfl⟩
    obtain rfl := parseTimestamp_formatTimestamp hstart
    obtain rfl := parseTimestamp_formatTimestamp hstop
    exact ⟨⟨_, hstart⟩, ⟨_, hstop⟩, rfl⟩
  · rintro ⟨⟨found, hstart⟩, ⟨other, hstop⟩, rfl⟩
    refine ⟨start, ?_, stop, ?_, rfl⟩
    · rw [hstart, parseTimestamp_formatTimestamp hstart]
    · rw [hstop, parseTimestamp_formatTimestamp hstop]

/-- A time begins with a digit. -/
theorem isDigit_of_parseTimestamp {c : Char} {text : Text} {found : ℕ}
    (h : parseTimestamp (c :: text) = some found) : c.isDigit = true := by
  have hfield : ∀ {field rest : Text} {least most found : ℕ}, 0 < least →
      number field least most = some found → c :: text = field ++ rest →
      c.isDigit = true := by
    intro field rest least most found hleast hnumber htext
    obtain ⟨⟨hdigits, hlength, -⟩, -⟩ := number_eq_some_iff.mp hnumber
    cases field with
    | nil => simp at hlength; omega
    | cons d field =>
        obtain ⟨rfl, -⟩ := List.cons.inj htext
        exact hdigits _ (List.mem_cons_self ..)
  unfold parseTimestamp at h
  simp only [Option.bind_eq_bind, Option.bind_eq_some_iff] at h
  obtain ⟨⟨clock, millis⟩, hsplit, milliseconds, -, h⟩ := h
  obtain ⟨point, htext⟩ := splitAtFirst_eq_some hsplit
  have hclock : [':'].intercalate (clock.splitOn ':') = clock :=
    List.intercalate_splitOn _
  dsimp only at h
  split at h
  · next minutes seconds hfields =>
      obtain ⟨found, hminutes, -⟩ := Option.bind_eq_some_iff.mp h
      rw [hfields] at hclock
      exact @hfield minutes (':' :: (seconds ++ point :: millis)) _ _ _
        (by decide) hminutes (by rw [htext, ← hclock]; simp [List.intercalate])
  · next hours minutes seconds hfields =>
      obtain ⟨found, hhours, -⟩ := Option.bind_eq_some_iff.mp h
      rw [hfields] at hclock
      exact @hfield hours
        (':' :: (minutes ++ ':' :: (seconds ++ point :: millis))) _ _ _
        (by decide) hhours (by rw [htext, ← hclock]; simp [List.intercalate])
  · cases h

/-- A line that begins with none of what a time may begin with has none. -/
theorem timingParts_of_head {c : Char} {line : Text}
    (hdigit : c.isDigit = false) (hwhite : isWhiteSpace c = false)
    (hdash : c ≠ '-') : timingParts (c :: line) = none := by
  rw [Option.eq_none_iff_forall_ne_some]
  intro parts hparts
  unfold timingParts at hparts
  simp only [Option.bind_eq_bind, Option.bind_eq_some_iff] at hparts
  obtain ⟨⟨before, rest⟩, hsplit, start, hstart, -⟩ := hparts
  have hline := splitOnce_eq_some hsplit
  cases before with
  | nil => exact hdash (List.cons.inj hline).1
  | cons d before =>
      obtain rfl := (List.cons.inj hline).1
      have htrim : ∃ text, trim (c :: before) = c :: text := by
        have hstart : trimStart (c :: before) = c :: before :=
          List.dropWhile_cons_of_neg (by simp [hwhite])
        unfold trim trimEnd
        rw [hstart]
        have hprefix := List.rdropWhile_prefix isWhiteSpace (c :: before)
        cases hcase : (c :: before).rdropWhile isWhiteSpace with
        | nil =>
            have hall := List.rdropWhile_eq_nil_iff.mp hcase c
              (List.mem_cons_self ..)
            rw [hwhite] at hall
            cases hall
        | cons e text =>
            rw [hcase] at hprefix
            obtain ⟨tail, htail⟩ := hprefix
            obtain rfl := (List.cons.inj htail).1
            exact ⟨text, rfl⟩
      obtain ⟨text, htext⟩ := htrim
      rw [htext] at hstart
      rw [isDigit_of_parseTimestamp hstart] at hdigit
      cases hdigit

/-! ## Lines -/

theorem hasArrow_of_timingParts {line : Text} {parts : ℕ × ℕ × Text}
    (h : timingParts line = some parts) : hasArrow line = true := by
  unfold timingParts at h
  simp only [Option.bind_eq_bind, Option.bind_eq_some_iff] at h
  obtain ⟨split, hsplit, -⟩ := h
  unfold hasArrow
  rw [hsplit]
  rfl

theorem hasArrow_formatTiming (start stop : ℕ) (settings : Text) :
    hasArrow (formatTiming start stop ++ settings) = true := by
  unfold hasArrow
  rw [splitOnce_formatTiming]
  rfl

/-- A line is moved as a timing line, or stays. -/
theorem shiftLine_cases {line moved : Line Char} {offsetMs : ℕ}
    (h : shiftLine offsetMs line = some moved) :
    (hasArrow line.content = false ∧ moved = line) ∨
      ∃ start stop settings,
        timingParts line.content = some (start, stop, settings) ∧
        start + offsetMs < 2 ^ 64 ∧ stop + offsetMs < 2 ^ 64 ∧
        moved = ⟨formatTiming (start + offsetMs) (stop + offsetMs) ++
          settingsText settings, line.terminator⟩ := by
  unfold shiftLine at h
  split at h
  · obtain ⟨content, hcontent, rfl⟩ := Option.map_eq_some_iff.mp h
    obtain ⟨start, stop, settings, hparts, hstart, hstop, rfl⟩ :=
      shiftTimingLine_eq_some_iff.mp hcontent
    exact .inr ⟨start, stop, settings, hparts, hstart, hstop, rfl⟩
  · next harrow =>
      exact .inl ⟨by simpa using harrow, (Option.some.inj h).symm⟩

theorem shiftLine_of_parts {line : Line Char} {offsetMs start stop : ℕ}
    {settings : Text}
    (hparts : timingParts line.content = some (start, stop, settings))
    (hstart : start + offsetMs < 2 ^ 64) (hstop : stop + offsetMs < 2 ^ 64) :
    shiftLine offsetMs line =
      some ⟨formatTiming (start + offsetMs) (stop + offsetMs) ++
        settingsText settings, line.terminator⟩ := by
  unfold shiftLine
  rw [if_pos (hasArrow_of_timingParts hparts),
    shiftTimingLine_eq_some_iff.mpr
      ⟨start, stop, settings, hparts, hstart, hstop, rfl⟩]
  rfl

/-- The moved text is cut where the text was. -/
theorem shiftBody_eq_some_iff_linesAt {body shifted : Text} {offsetMs : ℕ} :
    shiftBody offsetMs body = some shifted ↔
      List.Forall₂ (fun line moved => shiftLine offsetMs line = some moved)
        (linesAt isLineEnd body) (linesAt isLineEnd shifted) := by
  rw [shiftBody_eq_some_iff]
  constructor
  · rintro ⟨moved, hmoved, rfl⟩
    have hne : ∀ line ∈ moved, line.text ≠ [] := by
      intro other hother
      obtain ⟨line, hline, hshift⟩ := exists_mem_of_forall₂ hmoved.flip hother
      rcases shiftLine_cases hshift with ⟨-, rfl⟩ | ⟨start, stop, settings,
        -, -, -, rfl⟩
      · exact text_ne_nil_of_mem_linesAt other hline
      · simp [Line.text, formatTiming, formatTimestamp_ne_nil]
    rwa [(wellCut_of_shifted (wellCut_linesAt isLineEnd body)
      hmoved).linesAt_text hne]
  · intro h
    exact ⟨_, h, flatMap_text_linesAt isLineEnd shifted⟩

/-- What a timing line says: its times, and its settings without blanks
around them. -/
def timing (line : Text) : Option (ℕ × ℕ × Text) :=
  (timingParts line).map fun (start, stop, settings) =>
    (start, stop, trim settings)

/-- Only the times of a line are moved. -/
structure LineMoved (offsetMs : ℕ) (line moved : Line Char) : Prop where
  terminator_eq : moved.terminator = line.terminator
  content_eq : hasArrow line.content = false → moved.content = line.content
  timing_eq : hasArrow line.content = true → ∃ start stop settings,
    timing line.content = some (start, stop, settings) ∧
      timing moved.content =
        some (start + offsetMs, stop + offsetMs, settings)

/-- The moved times of the line can be read again. -/
def TimesFit (offsetMs : ℕ) (line : Text) : Prop :=
  ∀ start stop settings, timingParts line = some (start, stop, settings) →
    start + offsetMs < clockBound ∧ stop + offsetMs < clockBound

/-- No blanks alone stand for settings. -/
def NoBlankSettings (line : Text) : Prop :=
  ∀ start stop settings, timingParts line = some (start, stop, settings) →
    settings ≠ [] → isBlank settings = false

section Lines

variable {line moved : Line Char} {offsetMs : ℕ}

theorem lineMoved_iff (h : shiftLine offsetMs line = some moved) :
    LineMoved offsetMs line moved ↔ TimesFit offsetMs line.content := by
  rcases shiftLine_cases h with ⟨harrow, rfl⟩ | ⟨start, stop, settings, hparts,
    -, -, rfl⟩
  · refine ⟨fun _ start stop settings hparts => ?_, fun _ =>
      ⟨rfl, fun _ => rfl, fun htrue => ?_⟩⟩
    · rw [hasArrow_of_timingParts hparts] at harrow
      cases harrow
    · rw [harrow] at htrue
      cases htrue
  · constructor
    · intro hmoved
      obtain ⟨_, _, _, -, hread⟩ :=
        hmoved.timing_eq (hasArrow_of_timingParts hparts)
      obtain ⟨parts, hread, -⟩ := Option.map_eq_some_iff.mp hread
      obtain ⟨hstart, hstop, -⟩ := timingParts_written_iff.mp hread
      intro other last rest hother
      obtain ⟨rfl, rfl, rfl⟩ : start = other ∧ stop = last ∧ settings = rest :=
        by simpa using hparts.symm.trans hother
      exact ⟨hstart, hstop⟩
    · intro hfits
      obtain ⟨hstart, hstop⟩ := hfits start stop settings hparts
      refine ⟨rfl, fun hfalse => ?_, fun _ =>
        ⟨start, stop, trim settings, ?_, ?_⟩⟩
      · rw [hasArrow_of_timingParts hparts] at hfalse
        cases hfalse
      · unfold timing
        rw [hparts]
        rfl
      · unfold timing
        rw [timingParts_written_iff.mpr ⟨hstart, hstop, rfl⟩]
        simp [trim, trimStart_trimStart]

theorem exists_shiftLine_moved_iff {later : ℕ}
    (hlater : clockBound + later ≤ 2 ^ 64)
    (h : shiftLine offsetMs line = some moved) :
    (∃ again, shiftLine later moved = some again) ↔
      TimesFit offsetMs line.content := by
  rcases shiftLine_cases h with ⟨harrow, rfl⟩ | ⟨start, stop, settings, hparts,
    -, -, rfl⟩
  · refine ⟨fun _ start stop settings hparts => ?_, fun _ => ⟨moved, ?_⟩⟩
    · rw [hasArrow_of_timingParts hparts] at harrow
      cases harrow
    · unfold shiftLine
      rw [if_neg (by simp [harrow])]
  · constructor
    · rintro ⟨again, hagain⟩ other last rest hother
      obtain ⟨rfl, rfl, rfl⟩ : start = other ∧ stop = last ∧ settings = rest :=
        by simpa using hparts.symm.trans hother
      rcases shiftLine_cases hagain with ⟨harrow, -⟩ | ⟨_, _, _, hread, -⟩
      · rw [hasArrow_formatTiming] at harrow
        cases harrow
      · obtain ⟨hstart, hstop, -⟩ := timingParts_written_iff.mp hread
        exact ⟨hstart, hstop⟩
    · intro hfits
      obtain ⟨hstart, hstop⟩ := hfits start stop settings hparts
      exact ⟨_, shiftLine_of_parts
        (timingParts_written_iff.mpr ⟨hstart, hstop, rfl⟩) (by omega)
        (by omega)⟩

theorem settingsText_trimStart (settings : Text) :
    settingsText (trimStart settings) = settingsText settings ↔
      (settings ≠ [] → isBlank settings = false) := by
  have hblank : trimStart settings = [] ↔ isBlank settings = true := by
    unfold trimStart isBlank
    rw [List.dropWhile_eq_nil_iff, List.all_eq_true]
  unfold settingsText
  simp only [hblank, trimStart_trimStart]
  by_cases hnil : settings = []
  · simp [hnil, isBlank]
  · cases isBlank settings <;> simp [hnil]

/-- A moved line is moved on as the line itself is moved at once, where no
blanks alone stand for settings. -/
theorem shiftLine_shiftLine {later : ℕ} {second : Line Char}
    (h : shiftLine offsetMs line = some moved)
    (hlater : shiftLine later moved = some second) :
    shiftLine (offsetMs + later) line = some second ↔
      NoBlankSettings line.content := by
  rcases shiftLine_cases h with ⟨harrow, rfl⟩ | ⟨start, stop, settings, hparts,
    hstart, hstop, rfl⟩
  · have hsecond : second = moved := by
      unfold shiftLine at hlater
      rw [if_neg (by simp [harrow])] at hlater
      exact (Option.some.inj hlater).symm
    constructor
    · intro _ start stop settings hparts
      rw [hasArrow_of_timingParts hparts] at harrow
      cases harrow
    · intro _
      unfold shiftLine
      rw [if_neg (by simp [harrow]), hsecond]
  · rcases shiftLine_cases hlater with ⟨harrow, -⟩ | ⟨first, last, rest, hread,
      hfirst, hlast, rfl⟩
    · rw [hasArrow_formatTiming] at harrow
      cases harrow
    obtain ⟨-, -, heq⟩ := timingParts_written_iff.mp hread
    obtain ⟨rfl, rfl, rfl⟩ : start + offsetMs = first ∧
        stop + offsetMs = last ∧ trimStart settings = rest := by
      simpa using heq
    rw [shiftLine_of_parts hparts (by omega) (by omega), ← Nat.add_assoc,
      ← Nat.add_assoc, Option.some.injEq, Line.mk.injEq,
      List.append_cancel_left_eq, eq_comm, settingsText_trimStart]
    simp only [and_true]
    constructor
    · intro hsettings other last rest hother
      obtain ⟨rfl, rfl, rfl⟩ : start = other ∧ stop = last ∧ settings = rest :=
        by simpa using hparts.symm.trans hother
      exact hsettings
    · intro hsettings
      exact hsettings start stop settings hparts

end Lines

/-! ## Files -/

theorem hasArrow_cons {c : Char} (line : Text) (hc : c ≠ '-') :
    hasArrow (c :: line) = hasArrow line := by
  unfold hasArrow arrow
  rw [splitOnce, if_neg (by simp [Ne.symm hc]), Option.isSome_map]

/-- Neither a byte order mark nor what a WebVTT file begins with stands in
front of a time. -/
theorem shiftLine_head {c : Char} {line moved : Line Char} {offsetMs : ℕ}
    {rest : Text} (h : shiftLine offsetMs line = some moved)
    (hline : line.content = c :: rest) (hc : c = 'W' ∨ c = byteOrderMark) :
    hasArrow line.content = false ∧ moved = line := by
  rcases shiftLine_cases h with hstays | ⟨_, _, _, hparts, -⟩
  · exact hstays
  · rw [hline] at hparts
    rcases hc with rfl | rfl <;>
      rw [timingParts_of_head (by decide) (by decide) (by decide)] at hparts <;>
      cases hparts

theorem isWebvtt_append (rest : Text) :
    isWebvtt (webvtt ++ rest) =
      match rest with
      | [] => true
      | c :: _ => c == ' ' || c == '\t' || c == '\n' || c == '\r' := by
  unfold isWebvtt
  rw [List.isPrefixOf_iff_prefix.mpr (List.prefix_append webvtt rest)]
  rfl

/-- The moved text of a WebVTT file is one again: its first line stays. -/
theorem isWebvtt_shiftBody {body shifted : Text} {offsetMs : ℕ}
    (hbody : isWebvtt body = true)
    (h : shiftBody offsetMs body = some shifted) :
    isWebvtt shifted = true := by
  obtain ⟨rest, rfl⟩ : ∃ rest, body = webvtt ++ rest := by
    unfold isWebvtt at hbody
    rw [Bool.and_eq_true] at hbody
    obtain ⟨rest, hrest⟩ := List.isPrefixOf_iff_prefix.mp hbody.1
    exact ⟨rest, hrest.symm⟩
  have hfree : ∀ content : Text, (∀ c ∈ content, isLineEnd c = false) →
      ∀ c ∈ webvtt ++ content, isLineEnd c = false := by
    intro content hcontent
    have hmark : webvtt.any isLineEnd = false := by decide
    exact List.forall_mem_append.mpr
      ⟨fun c hc => Bool.eq_false_of_not_eq_true
        (List.any_eq_false.mp hmark c hc), hcontent⟩
  obtain ⟨moved, hmoved, rfl⟩ := shiftBody_eq_some_iff.mp h
  cases hsplit : splitAtFirst isLineEnd rest with
  | none =>
      have hrest := hfree rest (splitAtFirst_eq_none_iff.mp hsplit)
      rw [linesAt_of_free (by simp [webvtt]) hrest] at hmoved
      obtain ⟨first, others, hfirst, hothers, rfl⟩ :=
        List.forall₂_cons_left_iff.mp hmoved
      cases hothers
      obtain ⟨-, rfl⟩ := shiftLine_head hfirst rfl (.inl rfl)
      simpa [Line.text] using hbody
  | some parts =>
      obtain ⟨hcontent, a, ha, hrest⟩ := splitAtFirst_eq_some_iff.mp hsplit
      rw [hrest, ← List.append_assoc,
        linesAt_append_end _ (hfree parts.1 hcontent) ha] at hmoved
      obtain ⟨first, others, hfirst, -, rfl⟩ :=
        List.forall₂_cons_left_iff.mp hmoved
      obtain ⟨-, rfl⟩ := shiftLine_head hfirst rfl (.inl rfl)
      rw [hrest, isWebvtt_append] at hbody
      rw [List.flatMap_cons, Line.text, List.append_assoc, List.append_assoc,
        isWebvtt_append]
      cases hhead : parts.1 with
      | nil =>
          rw [hhead] at hbody
          exact hbody
      | cons c content =>
          rw [hhead] at hbody
          exact hbody

theorem byteArray_ofList_inj {text other : Text}
    (h : (String.ofList text).toByteArray = (String.ofList other).toByteArray) :
    text = other :=
  String.ofList_inj.mp (String.toByteArray_inj.mp h)

section Prepare

variable {ttmlCues : Text → Except String (List Cue)} {language : String}
  {text : Text} {out : ByteArray} {offsetMs : ℕ}

theorem prepare_webvtt_iff (htext : isWebvtt (stripMark text) = true) :
    prepare ttmlCues language (String.ofList text).toByteArray offsetMs =
        .ok out ↔
      ∃ shifted, shiftBody offsetMs (stripMark text) = some shifted ∧
        out = (String.ofList
          (if offsetMs = 0 then text else shifted)).toByteArray := by
  rw [prepare_eq_ok_iff]
  constructor
  · rintro ⟨other, converted, shifted, hdata, hconvert, hshift, hout⟩
    obtain rfl := byteArray_ofList_inj hdata
    rw [convert_eq_ok_none_iff.mpr htext] at hconvert
    obtain rfl := Except.ok.inj hconvert
    refine ⟨shifted, hshift, ?_⟩
    rw [hout]
    by_cases hoffset : offsetMs = 0 <;> simp [hoffset]
  · rintro ⟨shifted, hshift, hout⟩
    refine ⟨text, none, shifted, rfl, convert_eq_ok_none_iff.mpr htext, hshift,
      ?_⟩
    rw [hout]
    by_cases hoffset : offsetMs = 0 <;> simp [hoffset]

theorem prepare_shifted_iff {shifted : Text} {later : ℕ} {second : ByteArray}
    (htext : isWebvtt (stripMark text) = true)
    (hshift : shiftBody offsetMs (stripMark text) = some shifted) :
    prepare ttmlCues language (String.ofList shifted).toByteArray later =
        .ok second ↔
      ∃ moved, shiftBody later shifted = some moved ∧
        second = (String.ofList
          (if later = 0 then shifted else moved)).toByteArray := by
  have hmark := stripMark_shiftBody htext hshift
  have hshifted : isWebvtt (stripMark shifted) = true := by
    rw [hmark]
    exact isWebvtt_shiftBody htext hshift
  rw [prepare_webvtt_iff hshifted, hmark]

end Prepare

section Moved

variable {text shifted : Text} {offsetMs : ℕ}

theorem eq_or_eq_mark (text : Text) :
    stripMark text = text ∨ text = byteOrderMark :: stripMark text := by
  cases text with
  | nil => exact .inl rfl
  | cons c rest =>
      by_cases hc : c = byteOrderMark
      · exact .inr (by rw [stripMark, if_pos hc, hc])
      · exact .inl (by rw [stripMark, if_neg hc])

theorem exists_marked_line (htext : isWebvtt (stripMark text) = true)
    (hmark : text = byteOrderMark :: stripMark text)
    (hshift : shiftBody offsetMs (stripMark text) = some shifted) :
    ∃ content terminator others,
      linesAt isLineEnd text =
        ⟨byteOrderMark :: content, terminator⟩ :: others ∧
      linesAt isLineEnd (stripMark text) = ⟨content, terminator⟩ :: others ∧
      hasArrow (byteOrderMark :: content) = false := by
  obtain ⟨first, terminator, others, hfirst⟩ :=
    exists_linesAt_of_isWebvtt htext
  obtain ⟨content, last, rest, hlines, hbody⟩ :=
    linesAt_cons (stripMark text) (show isLineEnd byteOrderMark = false by
      decide)
  have hbody := hbody (by
    intro hnil
    rw [hnil] at hfirst
    cases hfirst)
  rw [← hmark] at hlines
  refine ⟨content, last, rest, hlines, hbody, ?_⟩
  rw [hasArrow_cons _ (by decide)]
  obtain ⟨rfl, rfl⟩ : content = 'W' :: first ∧ last = terminator := by
    rw [hbody] at hfirst
    simpa using (List.cons.inj hfirst).1
  rw [shiftBody_eq_some_iff_linesAt, hbody] at hshift
  obtain ⟨moved, later, hmoved, -, -⟩ := List.forall₂_cons_left_iff.mp hshift
  exact (shiftLine_head hmoved rfl (.inl rfl)).1

/-- A file that is not moved has its times where they were. -/
theorem linesMoved_zero (htext : isWebvtt (stripMark text) = true)
    (hshift : shiftBody 0 (stripMark text) = some shifted) :
    List.Forall₂ (LineMoved 0) (linesAt isLineEnd text)
      (linesAt isLineEnd text) := by
  have hstays : ∀ line : Line Char, hasArrow line.content = false →
      LineMoved 0 line line := fun line harrow =>
    ⟨rfl, fun _ => rfl, fun htrue => by rw [harrow] at htrue; cases htrue⟩
  have hread : ∀ line ∈ linesAt isLineEnd (stripMark text),
      LineMoved 0 line line := by
    intro line hline
    rw [shiftBody_eq_some_iff_linesAt] at hshift
    obtain ⟨moved, -, hmoved⟩ := exists_mem_of_forall₂ hshift hline
    rcases shiftLine_cases hmoved with ⟨harrow, -⟩ | ⟨start, stop, settings,
      hparts, -⟩
    · exact hstays line harrow
    · have htiming : timing line.content =
          some (start, stop, trim settings) := by
        unfold timing
        rw [hparts]
        rfl
      exact ⟨rfl, fun _ => rfl, fun _ => ⟨_, _, _, htiming, htiming⟩⟩
  rw [List.forall₂_same]
  rcases eq_or_eq_mark text with hmark | hmark
  · rwa [hmark] at hread
  · obtain ⟨content, terminator, others, hlines, hbody, harrow⟩ :=
      exists_marked_line htext hmark hshift
    rw [hbody] at hread
    rw [hlines]
    exact List.forall_mem_cons.mpr
      ⟨hstays _ harrow, (List.forall_mem_cons.mp hread).2⟩

/-- Only the times of a file are moved where its byte order mark is not
dropped and its times fit. -/
theorem linesMoved_iff (htext : isWebvtt (stripMark text) = true)
    (hshift : shiftBody offsetMs (stripMark text) = some shifted) :
    List.Forall₂ (LineMoved offsetMs) (linesAt isLineEnd text)
        (linesAt isLineEnd shifted) ↔
      stripMark text = text ∧
        ∀ line ∈ linesAt isLineEnd text, TimesFit offsetMs line.content := by
  have hlines := shiftBody_eq_some_iff_linesAt.mp hshift
  rcases eq_or_eq_mark text with hmark | hmark
  · rw [hmark] at hlines
    rw [forall₂_iff_forall_mem hlines fun _ _ => lineMoved_iff]
    exact (and_iff_right hmark).symm
  · have hne : stripMark text ≠ text := by
      intro heq
      rw [heq] at hmark
      exact List.cons_ne_self _ _ hmark.symm
    refine iff_of_false ?_ fun h => hne h.1
    intro hmoved
    obtain ⟨content, terminator, others, hfirst, -, harrow⟩ :=
      exists_marked_line htext hmark hshift
    rw [hfirst] at hmoved
    obtain ⟨first, later, hsame, -, hcons⟩ :=
      List.forall₂_cons_left_iff.mp hmoved
    have hcontent := hsame.content_eq harrow
    have hstrip := stripMark_shiftBody htext hshift
    rw [← flatMap_text_linesAt isLineEnd shifted, hcons, List.flatMap_cons,
      Line.text, hcontent, List.cons_append, List.cons_append, stripMark,
      if_pos rfl] at hstrip
    exact List.cons_ne_self _ _ hstrip.symm

theorem exists_shiftBody_shifted_iff {body : Text} {later : ℕ}
    (hlater : clockBound + later ≤ 2 ^ 64)
    (hshift : shiftBody offsetMs body = some shifted) :
    (∃ again, shiftBody later shifted = some again) ↔
      ∀ line ∈ linesAt isLineEnd body, TimesFit offsetMs line.content := by
  have hlines := shiftBody_eq_some_iff_linesAt.mp hshift
  have hall : (∃ again, shiftBody later shifted = some again) ↔
      ∀ moved ∈ linesAt isLineEnd shifted,
        ∃ again, shiftLine later moved = some again := by
    rw [← exists_forall₂_iff]
    simp only [shiftBody_eq_some_iff]
    constructor
    · rintro ⟨-, again, hagain, -⟩
      exact ⟨again, hagain⟩
    · rintro ⟨again, hagain⟩
      exact ⟨_, again, hagain, rfl⟩
  rw [hall]
  constructor
  · intro h line hline
    obtain ⟨moved, hmem, hmoved⟩ := exists_mem_of_forall₂ hlines hline
    exact (exists_shiftLine_moved_iff hlater hmoved).mp (h moved hmem)
  · intro h moved hmem
    obtain ⟨line, hline, hmoved⟩ := exists_mem_of_forall₂ hlines.flip hmem
    exact (exists_shiftLine_moved_iff hlater hmoved).mpr (h line hline)

theorem shiftBody_shiftBody_iff {body moved : Text} {later : ℕ}
    (hshift : shiftBody offsetMs body = some shifted)
    (hlater : shiftBody later shifted = some moved) :
    shiftBody (offsetMs + later) body = some moved ↔
      ∀ line ∈ linesAt isLineEnd body, NoBlankSettings line.content := by
  rw [shiftBody_eq_some_iff_linesAt] at hshift hlater ⊢
  have hchain := forall₂_comp hshift hlater fun line moved second h hnext =>
    (⟨moved, h, hnext⟩ : ∃ moved, shiftLine offsetMs line = some moved ∧
      shiftLine later moved = some second)
  apply forall₂_iff_forall_mem hchain
  rintro line second ⟨moved, h, hnext⟩
  exact shiftLine_shiftLine h hnext

end Moved

/-! ## Moving only the times -/

/-- What is made of a file has its times moved, and can be moved on. -/
structure ChangesOnlyTimes (ttmlCues : Text → Except String (List Cue))
    (language : String) (data out : ByteArray) (offsetMs : ℕ) : Prop where
  lines : ∃ text shifted, data = (String.ofList text).toByteArray ∧
    out = (String.ofList shifted).toByteArray ∧
    List.Forall₂ (LineMoved offsetMs) (linesAt isLineEnd text)
      (linesAt isLineEnd shifted)
  untouched : offsetMs = 0 → out = data
  composes : ∀ later second,
    prepare ttmlCues language out later = .ok second →
    prepare ttmlCues language data (offsetMs + later) = .ok second
  accepted : ∃ again, prepare ttmlCues language out 0 = .ok again

/-- A file can be moved, and moved on: its byte order mark is not dropped, its
times are not too long to be read, and no blanks stand for settings. -/
def CanBeMoved (text : Text) (offsetMs : ℕ) : Prop :=
  stripMark text = text ∧ ∀ line ∈ linesAt isLineEnd text,
    TimesFit offsetMs line.content ∧ NoBlankSettings line.content

section Files

variable {ttmlCues : Text → Except String (List Cue)} {language : String}
  {text shifted : Text} {out : ByteArray} {offsetMs : ℕ}

theorem ChangesOnlyTimes.of_zero (htext : isWebvtt (stripMark text) = true)
    (hout : prepare ttmlCues language (String.ofList text).toByteArray 0 =
      .ok out) :
    ChangesOnlyTimes ttmlCues language (String.ofList text).toByteArray out
      0 := by
  obtain ⟨shifted, hshift, rfl⟩ := (prepare_webvtt_iff htext).mp hout
  rw [if_pos rfl] at hout ⊢
  exact
    { lines := ⟨text, text, rfl, rfl, linesMoved_zero htext hshift⟩
      untouched := fun _ => rfl
      composes := fun later second hsecond => by rwa [Nat.zero_add]
      accepted := ⟨_, hout⟩ }

theorem exists_shifted_of_prepare (hoffset : offsetMs ≠ 0)
    (htext : isWebvtt (stripMark text) = true)
    (hout : prepare ttmlCues language (String.ofList text).toByteArray
      offsetMs = .ok out) :
    ∃ shifted, shiftBody offsetMs (stripMark text) = some shifted ∧
      out = (String.ofList shifted).toByteArray := by
  obtain ⟨shifted, hshift, hshifted⟩ := (prepare_webvtt_iff htext).mp hout
  rw [if_neg hoffset] at hshifted
  exact ⟨shifted, hshift, hshifted⟩

theorem ChangesOnlyTimes.of_canBeMoved (hoffset : offsetMs ≠ 0)
    (htext : isWebvtt (stripMark text) = true)
    (hout : prepare ttmlCues language (String.ofList text).toByteArray
      offsetMs = .ok out) (hmoves : CanBeMoved text offsetMs) :
    ChangesOnlyTimes ttmlCues language (String.ofList text).toByteArray out
      offsetMs := by
  obtain ⟨shifted, hshift, rfl⟩ := exists_shifted_of_prepare hoffset htext hout
  obtain ⟨hmark, hlines⟩ := hmoves
  have hfits : ∀ line ∈ linesAt isLineEnd text,
      TimesFit offsetMs line.content := fun line hline => (hlines line hline).1
  have hbody := hmark ▸ hshift
  refine
    { lines := ⟨text, shifted, rfl, rfl, ?_⟩
      untouched := fun hzero => absurd hzero hoffset
      composes := fun later second hsecond => ?_
      accepted := ?_ }
  · exact (linesMoved_iff htext hshift).mpr ⟨hmark, hfits⟩
  · obtain ⟨moved, hmoved, rfl⟩ := (prepare_shifted_iff htext hshift).mp hsecond
    rw [prepare_webvtt_iff htext, hmark]
    by_cases hlater : later = 0
    · refine ⟨shifted, ?_, ?_⟩
      · rwa [hlater, Nat.add_zero]
      · rw [if_pos hlater, if_neg (by omega)]
    · refine ⟨moved, (shiftBody_shiftBody_iff hbody hmoved).mpr
        fun line hline => (hlines line hline).2, ?_⟩
      rw [if_neg hlater, if_neg (by omega)]
  · obtain ⟨again, hagain⟩ :=
      (@exists_shiftBody_shifted_iff _ _ _ 0 (by decide) hbody).mpr hfits
    exact ⟨_, (prepare_shifted_iff htext hshift).mpr ⟨again, hagain, rfl⟩⟩

theorem ChangesOnlyTimes.canBeMoved (hoffset : offsetMs ≠ 0)
    (htext : isWebvtt (stripMark text) = true)
    (hout : prepare ttmlCues language (String.ofList text).toByteArray
      offsetMs = .ok out)
    (h : ChangesOnlyTimes ttmlCues language (String.ofList text).toByteArray
      out offsetMs) : CanBeMoved text offsetMs := by
  obtain ⟨shifted, hshift, rfl⟩ := exists_shifted_of_prepare hoffset htext hout
  obtain ⟨other, found, hother, hfound, hlines⟩ := h.lines
  obtain rfl := byteArray_ofList_inj hother
  obtain rfl := byteArray_ofList_inj hfound
  obtain ⟨hmark, hfits⟩ := (linesMoved_iff htext hshift).mp hlines
  have hbody := hmark ▸ hshift
  -- moving the file by one millisecond more tells blanks from settings
  obtain ⟨moved, hmoved⟩ :=
    (@exists_shiftBody_shifted_iff _ _ _ 1 (by decide) hbody).mpr hfits
  have hsecond := h.composes 1 _
    ((prepare_shifted_iff htext hshift).mpr ⟨moved, hmoved, rfl⟩)
  obtain ⟨atOnce, hatOnce, hsame⟩ := (prepare_webvtt_iff htext).mp hsecond
  rw [if_neg (by decide), if_neg (by omega)] at hsame
  obtain rfl := byteArray_ofList_inj hsame
  rw [hmark, shiftBody_shiftBody_iff hbody hmoved] at hatOnce
  exact ⟨hmark, fun line hline => ⟨hfits line hline, hatOnce line hline⟩⟩

/-- Preparing a WebVTT file changes only its times exactly where they are not
moved or can be. -/
theorem prepare_changesOnlyTimes_iff
    (htext : isWebvtt (stripMark text) = true)
    (hout : prepare ttmlCues language (String.ofList text).toByteArray
      offsetMs = .ok out) :
    ChangesOnlyTimes ttmlCues language (String.ofList text).toByteArray out
        offsetMs ↔
      offsetMs = 0 ∨ CanBeMoved text offsetMs := by
  by_cases hoffset : offsetMs = 0
  · obtain rfl := hoffset
    exact iff_of_true (ChangesOnlyTimes.of_zero htext hout) (.inl rfl)
  · rw [or_iff_right hoffset]
    exact ⟨ChangesOnlyTimes.canBeMoved hoffset htext hout,
      ChangesOnlyTimes.of_canBeMoved hoffset htext hout⟩

end Files

/-! ## Two files -/

/-- A cue with settings, to be moved by a second. -/
def settingsFile : Text :=
  "WEBVTT\n00:01.000 --> 00:02.000 line:0".toList

/-- A cue with two blanks after its times. -/
def blanksFile : Text :=
  "WEBVTT\n00:01.000 --> 00:02.000  ".toList

def noCues (_ : Text) : Except String (List Cue) :=
  .error "has no cues"

theorem prepare_settingsFile :
    prepare noCues "en" (String.ofList settingsFile).toByteArray 1000 =
      .ok (String.ofList
        "WEBVTT\n00:00:02.000 --> 00:00:03.000 line:0".toList).toByteArray :=
  (prepare_webvtt_iff (by decide)).mpr ⟨_, by decide, rfl⟩

theorem prepare_changesOnlyTimes_settingsFile :
    ChangesOnlyTimes noCues "en" (String.ofList settingsFile).toByteArray
        (String.ofList
          "WEBVTT\n00:00:02.000 --> 00:00:03.000 line:0".toList).toByteArray
        1000 ↔
      1000 = 0 ∨ CanBeMoved settingsFile 1000 :=
  prepare_changesOnlyTimes_iff (by decide) prepare_settingsFile

/-- Moved by one millisecond twice and by two at once, the file is not the
same: one blank is left after the first move and none after the second. -/
theorem blanksFile_not_moved :
    ∃ out, prepare noCues "en" (String.ofList blanksFile).toByteArray 1 =
        .ok out ∧
      ¬ ChangesOnlyTimes noCues "en" (String.ofList blanksFile).toByteArray out
        1 := by
  have htext : isWebvtt (stripMark blanksFile) = true := by decide
  have hout := (@prepare_webvtt_iff noCues "en" blanksFile _ 1 htext).mpr
    ⟨"WEBVTT\n00:00:01.001 --> 00:00:02.001 ".toList, by decide, rfl⟩
  refine ⟨_, hout, ?_⟩
  intro hchanges
  obtain ⟨-, hlines⟩ :=
    ChangesOnlyTimes.canBeMoved (by decide) htext hout hchanges
  have hcut : linesAt isLineEnd blanksFile =
      [⟨webvtt, ['\n']⟩, ⟨"00:01.000 --> 00:02.000  ".toList, []⟩] := rfl
  rw [hcut] at hlines
  have hblank := (hlines _ (List.mem_cons_of_mem _ List.mem_cons_self)).2
    1000 2000 [' '] (by decide) (by decide)
  cases hblank

end Segmentor
