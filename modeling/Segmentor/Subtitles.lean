import Segmentor.General.Fallible
import Segmentor.PackagedAsset
import Segmentor.SubtitleText

/-!
# The subtitles an asset serves

Subtitle files are fetched when an asset loads.  A single file's are prepared
for its timeline; an adaptive asset serves what was fetched.  The two agree
exactly on the files that preparing leaves as they are.
-/

namespace Segmentor

open General

/-! ## Timestamps -/

theorem isDigit_of_mem_padded {width n : ℕ} {c : Char}
    (hc : c ∈ padded width n) : c.isDigit = true := by
  unfold padded at hc
  rcases List.mem_append.mp hc with hzero | hdigit
  · rw [(List.mem_replicate.mp hzero).2]
    rfl
  · exact Nat.isDigit_of_mem_toDigits (by decide) (by decide) hdigit

theorem padded_ne_nil (width n : ℕ) : padded width n ≠ [] := by
  unfold padded
  simp [Nat.toDigits_ne_nil]

theorem number_eq_some_iff {field : Text} {least most n : ℕ} :
    number field least most = some n ↔
      ((∀ c ∈ field, c.isDigit = true) ∧ least ≤ field.length ∧
        field.length ≤ most) ∧ Nat.ofDigitChars 10 field 0 = n := by
  unfold number
  rw [Option.ite_none_right_eq_some, Option.some.injEq, List.all_eq_true]

theorem ofDigitChars_lt {text : Text}
    (hdigits : ∀ c ∈ text, c.isDigit = true) :
    Nat.ofDigitChars 10 text 0 < 10 ^ text.length := by
  induction text with
  | nil => decide
  | cons c text ih =>
      obtain ⟨hc, hrest⟩ := List.forall_mem_cons.mp hdigits
      have hhigh : c.toNat ≤ 57 := (Char.isDigit_iff_toNat.mp hc).2
      have hdigit : 10 * 0 + (c.toNat - '0'.toNat) ≤ 9 := by
        have : '0'.toNat = 48 := rfl
        omega
      have hscaled := Nat.mul_le_mul_left (10 ^ text.length) hdigit
      have htail := ih hrest
      rw [Nat.ofDigitChars_cons, Nat.ofDigitChars_eq_ofDigitChars_zero,
        List.length_cons, Nat.pow_succ]
      omega

theorem number_padded {width n least most found : ℕ}
    (h : number (padded width n) least most = some found) : found = n := by
  rw [← (number_eq_some_iff.mp h).2]
  unfold padded
  rw [Nat.ofDigitChars_append, Nat.ofDigitChars_replicate_zero,
    Nat.mul_zero, Nat.ofDigitChars_ten_toDigits]

theorem clockMillis_eq_some {hours minutes seconds milliseconds total : ℕ}
    (h : clockMillis hours minutes seconds milliseconds = some total) :
    total = hours * 3600000 + minutes * 60000 + seconds * 1000 +
      milliseconds := by
  unfold clockMillis at h
  split at h
  · cases h
  simp only [Option.bind_eq_bind, Option.bind_eq_some_iff,
    checkedAdd_eq_some_iff, checkedMul_eq_some_iff] at h
  obtain ⟨a, ⟨-, rfl⟩, b, ⟨-, rfl⟩, c, ⟨-, rfl⟩, -, rfl⟩ := h
  rfl

/-- What a formatted timestamp is made of. -/
theorem of_mem_formatTimestamp {n : ℕ} {c : Char}
    (hc : c ∈ formatTimestamp n) :
    c.isDigit = true ∨ c = ':' ∨ c = '.' := by
  unfold formatTimestamp at hc
  simp only [List.mem_append, List.mem_cons] at hc
  rcases hc with hc | rfl | hc | rfl | hc | rfl | hc
  · exact .inl (isDigit_of_mem_padded hc)
  · exact .inr (.inl rfl)
  · exact .inl (isDigit_of_mem_padded hc)
  · exact .inr (.inl rfl)
  · exact .inl (isDigit_of_mem_padded hc)
  · exact .inr (.inr rfl)
  · exact .inl (isDigit_of_mem_padded hc)

theorem not_mem_padded {width n : ℕ} {c : Char} (hc : c.isDigit = false) :
    c ∉ padded width n := by
  intro hmem
  rw [isDigit_of_mem_padded hmem] at hc
  cases hc

theorem splitOn_clock (hours minutes seconds : ℕ) :
    (padded 2 hours ++ ':' :: (padded 2 minutes ++ ':' ::
      padded 2 seconds)).splitOn ':' =
      [padded 2 hours, padded 2 minutes, padded 2 seconds] := by
  have hfree : ∀ n, ∀ c ∈ padded 2 n, (c == ':') = false := by
    intro n c hc
    rw [beq_eq_false_iff_ne]
    rintro rfl
    exact not_mem_padded (by decide) hc
  rw [List.splitOn_eq_splitOnP,
    List.splitOnP_append_cons_of_forall_mem (hfree hours) _ rfl,
    List.splitOnP_append_cons_of_forall_mem (hfree minutes) _ rfl,
    List.splitOnP_eq_singleton (hfree seconds)]

/-- A written time, cut at its point. -/
theorem splitAtFirst_formatTimestamp (n : ℕ) :
    splitAtFirst (· == '.') (formatTimestamp n) =
      some (padded 2 (n / 3600000) ++ ':' ::
        (padded 2 (n / 60000 % 60) ++ ':' :: padded 2 (n / 1000 % 60)),
        padded 3 (n % 1000)) := by
  have hclock : formatTimestamp n =
      (padded 2 (n / 3600000) ++ ':' ::
        (padded 2 (n / 60000 % 60) ++ ':' ::
          padded 2 (n / 1000 % 60))) ++ '.' :: padded 3 (n % 1000) := by
    simp [formatTimestamp]
  rw [hclock]
  apply splitAtFirst_append _ rfl
  intro c hc
  rw [beq_eq_false_iff_ne]
  rintro rfl
  simp [not_mem_padded (show ('.' : Char).isDigit = false by decide)] at hc

theorem parseTimestamp_formatTimestamp {n found : ℕ}
    (h : parseTimestamp (formatTimestamp n) = some found) : found = n := by
  unfold parseTimestamp at h
  rw [splitAtFirst_formatTimestamp] at h
  simp only [Option.bind_eq_bind, Option.bind_some, Option.bind_eq_some_iff,
    splitOn_clock] at h
  obtain ⟨millis, hmillis, hours, hhours, minutes, hminutes, seconds, hseconds,
    htotal⟩ := h
  obtain rfl := number_padded hmillis
  obtain rfl := number_padded hhours
  obtain rfl := number_padded hminutes
  obtain rfl := number_padded hseconds
  rw [clockMillis_eq_some htotal]
  omega

/-! ## Timing lines -/

theorem isWhiteSpace_of_isDigit {c : Char} (hc : c.isDigit = true) :
    isWhiteSpace c = false := by
  have hlow : 48 ≤ c.toNat := (Char.isDigit_iff_toNat.mp hc).1
  have hhigh : c.toNat ≤ 57 := (Char.isDigit_iff_toNat.mp hc).2
  unfold isWhiteSpace
  simp only [Bool.or_eq_false_iff, Bool.and_eq_false_iff, decide_eq_false_iff_not,
    List.contains_eq_mem, List.mem_cons, List.not_mem_nil, or_false]
  omega

theorem isWhiteSpace_of_mem_formatTimestamp {n : ℕ} {c : Char}
    (hc : c ∈ formatTimestamp n) : isWhiteSpace c = false := by
  rcases of_mem_formatTimestamp hc with hdigit | rfl | rfl
  · exact isWhiteSpace_of_isDigit hdigit
  · decide
  · decide

theorem not_mem_formatTimestamp {n : ℕ} {c : Char} (hdigit : c.isDigit = false)
    (hcolon : c ≠ ':') (hpoint : c ≠ '.') : c ∉ formatTimestamp n := by
  intro hc
  rcases of_mem_formatTimestamp hc with h | h | h
  · rw [h] at hdigit
    cases hdigit
  · exact hcolon h
  · exact hpoint h

theorem formatTimestamp_ne_nil (n : ℕ) : formatTimestamp n ≠ [] := by
  unfold formatTimestamp
  simp

theorem trimStart_formatTimestamp (n : ℕ) (text : Text) :
    trimStart (formatTimestamp n ++ text) = formatTimestamp n ++ text := by
  have hfree : ∀ c ∈ formatTimestamp n, isWhiteSpace c = false :=
    fun c => isWhiteSpace_of_mem_formatTimestamp
  unfold trimStart
  cases htext : formatTimestamp n with
  | nil => exact absurd htext (formatTimestamp_ne_nil n)
  | cons c cs =>
      rw [List.cons_append, List.dropWhile_cons_of_neg]
      rw [hfree c (by simp [htext])]
      decide

theorem trim_formatTimestamp (n : ℕ) :
    trim (formatTimestamp n ++ [' ']) = formatTimestamp n := by
  have hfree : ∀ c ∈ formatTimestamp n, isWhiteSpace c = false :=
    fun c => isWhiteSpace_of_mem_formatTimestamp
  unfold trim trimEnd
  rw [trimStart_formatTimestamp, List.rdropWhile_concat_pos _ _ _ (by decide)]
  rw [List.rdropWhile_eq_self_iff]
  intro _
  rw [hfree _ (List.getLast_mem _)]
  decide

theorem shiftTimingLine_eq_some {line moved : Text} {offsetMs : ℕ}
    (h : shiftTimingLine line offsetMs = some moved) :
    ∃ before rest start stop settings,
      splitOnce arrow line = some (before, rest) ∧
      parseTimestamp (trim before) = some start ∧
      moved = formatTiming (start + offsetMs) (stop + offsetMs) ++ settings ∧
      ∀ c ∈ settings, c = ' ' ∨ c ∈ line := by
  unfold shiftTimingLine at h
  simp only [Option.bind_eq_bind, Option.bind_eq_some_iff] at h
  obtain ⟨⟨before, rest⟩, hsplit, start, hstart, start', hstart', stop, -,
    stop', hstop', h⟩ := h
  generalize hparts : (splitAtFirst (fun c => c == ' ' || c == '\t')
    (trimStart (before, rest).2)).getD (trimStart (before, rest).2, []) =
      parts at h
  have hsettings : ∀ c ∈ parts.2, c ∈ line := by
    intro c hc
    rw [splitOnce_eq_some hsplit]
    have hrest : c ∈ trimStart rest := by
      cases hfirst : splitAtFirst (fun c => c == ' ' || c == '\t')
          (trimStart rest) with
      | none =>
          simp only [hfirst, Option.getD_none] at hparts
          rw [← hparts] at hc
          cases hc
      | some found =>
          simp only [hfirst, Option.getD_some] at hparts
          rw [← hparts] at hc
          obtain ⟨a, ha⟩ := splitAtFirst_eq_some hfirst
          rw [ha]
          simp [hc]
    exact List.mem_append_right _ ((List.dropWhile_sublist _).mem hrest)
  rw [← (checkedAdd_eq_some_iff.mp hstart').2,
    ← (checkedAdd_eq_some_iff.mp hstop').2] at h
  refine ⟨before, rest, start, stop, _, hsplit, hstart,
    (Option.some.inj h).symm, ?_⟩
  intro c hc
  split at hc
  · cases hc
  · rcases List.mem_cons.mp hc with rfl | hc
    · exact .inl rfl
    · exact .inr (hsettings c ((List.dropWhile_sublist _).mem hc))

/-- A timing line that can be moved can be read. -/
theorem isSome_shiftTimingLine_zero {line moved : Text} {offsetMs : ℕ}
    (h : shiftTimingLine line offsetMs = some moved) :
    (shiftTimingLine line 0).isSome = true := by
  unfold shiftTimingLine at h ⊢
  simp only [Option.bind_eq_bind, Option.bind_eq_some_iff,
    checkedAdd_eq_some_iff] at h
  obtain ⟨parts, hsplit, start, hstart, start', ⟨hstart', -⟩, stop, hstop,
    stop', ⟨hstop', -⟩, -⟩ := h
  have hstart'' : checkedAdd (2 ^ 64) start 0 = some start :=
    checkedAdd_eq_some_iff.mpr ⟨by omega, rfl⟩
  have hstop'' : checkedAdd (2 ^ 64) stop 0 = some stop :=
    checkedAdd_eq_some_iff.mpr ⟨by omega, rfl⟩
  simp only [Option.bind_eq_bind, hsplit, Option.bind_some, hstart, hstart'',
    hstop, hstop'', Option.isSome_some]

/-- A written timing line, cut at its arrow. -/
theorem splitOnce_formatTiming (start stop : ℕ) (settings : Text) :
    splitOnce arrow (formatTiming start stop ++ settings) =
      some (formatTimestamp start ++ [' '],
        ' ' :: formatTimestamp stop ++ settings) := by
  have harrow : '-' ∉ formatTimestamp start ++ [' '] := by
    have := @not_mem_formatTimestamp start '-' (by decide) (by decide)
      (by decide)
    simp [this]
  have hplace := @splitOnce_append _ _ '-' ['-', '>'] _
    (' ' :: formatTimestamp stop ++ settings) harrow
  rw [← hplace]
  congr 1
  simp [formatTiming, arrow]

/-- A timing line stays as it is only where it is not moved. -/
theorem offset_eq_zero_of_shift_fixed {line : Text} {offsetMs : ℕ}
    (h : shiftTimingLine line offsetMs = some line) : offsetMs = 0 := by
  obtain ⟨before, rest, start, stop, settings, hsplit, hstart, hline, -⟩ :=
    shiftTimingLine_eq_some h
  have hbefore := splitOnce_formatTiming (start + offsetMs) (stop + offsetMs)
    settings
  rw [← hline, hsplit] at hbefore
  obtain ⟨rfl, -⟩ := Prod.mk.inj (Option.some.inj hbefore)
  rw [trim_formatTimestamp] at hstart
  have := parseTimestamp_formatTimestamp hstart
  omega

/-! ## Moving the lines of a file -/

theorem shiftLine_eq_some {line moved : Line Char} {offsetMs : ℕ}
    (h : shiftLine offsetMs line = some moved) :
    line.terminator = moved.terminator ∧
      ((∀ c ∈ line.content, isLineEnd c = false) →
        ∀ c ∈ moved.content, isLineEnd c = false) := by
  unfold shiftLine at h
  split at h
  · obtain ⟨content, hcontent, rfl⟩ := Option.map_eq_some_iff.mp h
    refine ⟨rfl, ?_⟩
    intro hfree c hc
    obtain ⟨before, rest, start, stop, settings, -, -, rfl, hsettings⟩ :=
      shiftTimingLine_eq_some hcontent
    have htime : ∀ n, ∀ c ∈ formatTimestamp n, isLineEnd c = false := by
      intro n c hc
      rcases of_mem_formatTimestamp hc with hdigit | rfl | rfl
      · unfold isLineEnd
        rw [Bool.or_eq_false_iff, beq_eq_false_iff_ne, beq_eq_false_iff_ne]
        constructor <;> rintro rfl <;> cases hdigit
      · decide
      · decide
    simp only [formatTiming, arrow, List.mem_append, List.mem_cons,
      List.cons_append, List.nil_append] at hc
    rcases hc with (hc | rfl | rfl | rfl | rfl | rfl | hc) | hc
    · exact htime _ c hc
    · decide
    · decide
    · decide
    · decide
    · decide
    · exact htime _ c hc
    · rcases hsettings c hc with rfl | hc
      · decide
      · exact hfree c hc
  · cases h
    exact ⟨rfl, fun hfree => hfree⟩

theorem wellCut_of_shifted {lines moved : List (Line Char)} {offsetMs : ℕ}
    (hcut : WellCut isLineEnd lines)
    (h : List.Forall₂ (fun line moved => shiftLine offsetMs line = some moved)
      lines moved) : WellCut isLineEnd moved := by
  induction hcut generalizing moved with
  | nil =>
      cases h
      exact .nil
  | last hcontent =>
      obtain ⟨⟨content, terminator⟩, rest, hline, hrest, rfl⟩ :=
        List.forall₂_cons_left_iff.mp h
      cases hrest
      obtain ⟨hend, hfree⟩ := shiftLine_eq_some hline
      obtain rfl : [] = terminator := hend
      exact .last (hfree hcontent)
  | @cons content a lines hcontent ha hlines ih =>
      obtain ⟨⟨other, terminator⟩, rest, hline, hrest, rfl⟩ :=
        List.forall₂_cons_left_iff.mp h
      obtain ⟨hend, hfree⟩ := shiftLine_eq_some hline
      obtain rfl : [a] = terminator := hend
      exact .cons (hfree hcontent) ha (ih hrest)

theorem shiftBody_eq_some_iff {body shifted : Text} {offsetMs : ℕ} :
    shiftBody offsetMs body = some shifted ↔
      ∃ moved, List.Forall₂ (fun line moved =>
          shiftLine offsetMs line = some moved)
        (linesAt isLineEnd body) moved ∧
        moved.flatMap Line.text = shifted := by
  unfold shiftBody
  simp only [Option.bind_eq_bind, Option.bind_eq_some_iff, mapM_eq_some_iff,
    Option.some.injEq]

theorem shiftBody_fixed_iff {body : Text} {offsetMs : ℕ} :
    shiftBody offsetMs body = some body ↔
      ∀ line ∈ linesAt isLineEnd body, shiftLine offsetMs line = some line := by
  rw [shiftBody_eq_some_iff]
  constructor
  · rintro ⟨moved, hmoved, htext⟩
    have hcut := wellCut_linesAt isLineEnd body
    have hsame : linesAt isLineEnd body = moved := by
      apply hcut.eq_of_text_eq (wellCut_of_shifted hcut hmoved)
      · exact hmoved.imp fun line moved h => (shiftLine_eq_some h).1
      · rw [htext, flatMap_text_linesAt]
    rw [← hsame] at hmoved
    exact List.forall₂_same.mp hmoved
  · intro h
    exact ⟨linesAt isLineEnd body, List.forall₂_same.mpr h,
      flatMap_text_linesAt isLineEnd body⟩

theorem shiftLine_fixed_iff {line : Line Char} {offsetMs : ℕ}
    (hoffset : offsetMs ≠ 0) :
    shiftLine offsetMs line = some line ↔ hasArrow line.content = false := by
  unfold shiftLine
  constructor
  · intro h
    rw [← Bool.not_eq_true]
    intro harrow
    rw [if_pos harrow] at h
    obtain ⟨content, hcontent, hline⟩ := Option.map_eq_some_iff.mp h
    have hsame : content = line.content := by rw [← hline]
    rw [hsame] at hcontent
    exact hoffset (offset_eq_zero_of_shift_fixed hcontent)
  · intro h
    rw [if_neg (by simp [h])]

/-- Every timing line of the file can be read. -/
def TimingsRead (body : Text) : Prop :=
  ∀ line ∈ linesAt isLineEnd body, hasArrow line.content = true →
    (shiftTimingLine line.content 0).isSome = true

theorem TimingsRead.of_shiftBody {body shifted : Text} {offsetMs : ℕ}
    (h : shiftBody offsetMs body = some shifted) : TimingsRead body := by
  obtain ⟨moved, hmoved, -⟩ := shiftBody_eq_some_iff.mp h
  intro line hline harrow
  obtain ⟨found, -, hfound⟩ := exists_mem_of_forall₂ hmoved hline
  unfold shiftLine at hfound
  rw [if_pos harrow] at hfound
  obtain ⟨content, hcontent, -⟩ := Option.map_eq_some_iff.mp hfound
  exact isSome_shiftTimingLine_zero hcontent

theorem exists_shiftBody_zero_iff {body : Text} :
    (∃ shifted, shiftBody 0 body = some shifted) ↔ TimingsRead body := by
  constructor
  · rintro ⟨shifted, hshifted⟩
    exact TimingsRead.of_shiftBody hshifted
  · intro h
    have hall : ∀ line ∈ linesAt isLineEnd body,
        ∃ moved, shiftLine 0 line = some moved := by
      intro line hline
      unfold shiftLine
      by_cases harrow : hasArrow line.content = true
      · obtain ⟨content, hcontent⟩ :=
          Option.isSome_iff_exists.mp (h line hline harrow)
        rw [if_pos harrow, hcontent]
        exact ⟨_, rfl⟩
      · rw [if_neg harrow]
        exact ⟨line, rfl⟩
    obtain ⟨moved, hmoved⟩ := exists_forall₂_iff.mpr hall
    exact ⟨_, shiftBody_eq_some_iff.mpr ⟨moved, hmoved, rfl⟩⟩

theorem shiftBody_webvtt_cons {rest shifted : Text} {offsetMs : ℕ}
    (h : shiftBody offsetMs (webvtt ++ '\n' :: rest) = some shifted) :
    ∃ others, shifted = webvtt ++ '\n' :: others := by
  obtain ⟨moved, hmoved, rfl⟩ := shiftBody_eq_some_iff.mp h
  have hlines : linesAt isLineEnd (webvtt ++ '\n' :: rest) =
      ⟨webvtt, ['\n']⟩ :: linesAt isLineEnd rest := rfl
  rw [hlines] at hmoved
  obtain ⟨first, others, hfirst, -, rfl⟩ :=
    List.forall₂_cons_left_iff.mp hmoved
  obtain rfl : ⟨webvtt, ['\n']⟩ = first := Option.some.inj hfirst
  exact ⟨others.flatMap Line.text, rfl⟩

theorem exists_cons_of_isWebvtt {body : Text} (h : isWebvtt body = true) :
    ∃ rest, body = 'W' :: rest := by
  unfold isWebvtt at h
  rw [Bool.and_eq_true] at h
  obtain ⟨rest, hrest⟩ := List.isPrefixOf_iff_prefix.mp h.1
  exact ⟨_, hrest.symm⟩

theorem exists_linesAt_of_isWebvtt {body : Text} (h : isWebvtt body = true) :
    ∃ content terminator others,
      linesAt isLineEnd body = ⟨'W' :: content, terminator⟩ :: others := by
  obtain ⟨rest, rfl⟩ := exists_cons_of_isWebvtt h
  obtain ⟨content, terminator, others, hlines, -⟩ :=
    linesAt_cons rest (show isLineEnd 'W' = false by decide)
  exact ⟨content, terminator, others, hlines⟩

/-- What a file that begins as WebVTT is moved to begins with no byte order
mark. -/
theorem stripMark_shiftBody {body shifted : Text} {offsetMs : ℕ}
    (hbody : isWebvtt body = true)
    (h : shiftBody offsetMs body = some shifted) :
    stripMark shifted = shifted := by
  have hstays : ∀ (c : Char) (text : Text), c ≠ byteOrderMark →
      stripMark (c :: text) = c :: text := by
    intro c text hc
    rw [stripMark, if_neg hc]
  obtain ⟨content, terminator, others, hlines⟩ :=
    exists_linesAt_of_isWebvtt hbody
  obtain ⟨moved, hmoved, rfl⟩ := shiftBody_eq_some_iff.mp h
  rw [hlines] at hmoved
  obtain ⟨shifted, later, hshift, -, rfl⟩ :=
    List.forall₂_cons_left_iff.mp hmoved
  unfold shiftLine at hshift
  split at hshift
  · obtain ⟨timing, htiming, rfl⟩ := Option.map_eq_some_iff.mp hshift
    obtain ⟨-, -, start, -, settings, -, -, rfl, -⟩ :=
      shiftTimingLine_eq_some htiming
    cases hhours : padded 2 ((start + offsetMs) / 3600000) with
    | nil => exact absurd hhours (padded_ne_nil _ _)
    | cons c cs =>
        have hdigit : c.isDigit = true :=
          isDigit_of_mem_padded (hhours ▸ List.mem_cons_self)
        simp only [List.flatMap_cons, Line.text, formatTiming, formatTimestamp,
          hhours, List.cons_append]
        apply hstays
        rintro rfl
        cases hdigit
  · cases hshift
    simp only [List.flatMap_cons, Line.text, List.cons_append]
    apply hstays
    decide

/-! ## Files that preparing leaves as they are -/

/-- A file that is WebVTT, and has no cue to move where the timeline is
moved. -/
def NeedsNoPreparing (data : ByteArray) (offsetMs : ℕ) : Prop :=
  ∃ text, data.utf8Decode?.map Array.toList = some text ∧
    isWebvtt (stripMark text) = true ∧ TimingsRead (stripMark text) ∧
    (offsetMs = 0 ∨ stripMark text = text ∧
      ∀ line ∈ linesAt isLineEnd text, hasArrow line.content = false)

theorem utf8Decode?_eq_some_iff {data : ByteArray} {text : Text} :
    data.utf8Decode?.map Array.toList = some text ↔
      data = (String.ofList text).toByteArray := by
  rw [String.toByteArray_ofList]
  constructor
  · intro h
    obtain ⟨chars, hchars, rfl⟩ := Option.map_eq_some_iff.mp h
    have hsome : data.utf8Decode?.isSome = true := by rw [hchars]; rfl
    obtain ⟨found, rfl⟩ := ByteArray.isSome_utf8Decode?_iff.mp hsome
    rw [List.utf8Decode?_utf8Encode] at hchars
    rw [← Option.some.inj hchars]
  · rintro rfl
    rw [List.utf8Decode?_utf8Encode]
    rfl

theorem convert_eq_ok_some {ttmlCues : Text → Except String (List Cue)}
    {body document : Text}
    (h : convert ttmlCues body = .ok (some document)) :
    isWebvtt body = false ∧ ∃ cues, document = webvttFrom cues := by
  unfold convert at h
  split at h
  · cases h
  next hnot =>
  refine ⟨by simpa using hnot, ?_⟩
  split at h
  · obtain ⟨cues, -, hcues⟩ := bind_eq_ok_iff.mp h
    cases hcues
    exact ⟨cues, rfl⟩
  split at h
  · obtain ⟨found, hfound, htext⟩ := bind_eq_ok_iff.mp h
    cases htext
    unfold srtToWebvtt at hfound
    dsimp only at hfound
    split at hfound
    · next cues _ =>
        cases hfound
        exact ⟨cues, rfl⟩
    · cases hfound
  · cases h

theorem convert_eq_ok_none_iff {ttmlCues : Text → Except String (List Cue)}
    {body : Text} :
    convert ttmlCues body = .ok none ↔ isWebvtt body = true := by
  constructor
  · intro h
    rw [← Bool.not_eq_false]
    intro hnot
    unfold convert at h
    rw [if_neg (by simp [hnot])] at h
    split at h
    · obtain ⟨cues, -, hcues⟩ := bind_eq_ok_iff.mp h
      cases hcues
    split at h
    · obtain ⟨found, -, htext⟩ := bind_eq_ok_iff.mp h
      cases htext
    · cases h
  · intro h
    unfold convert
    rw [if_pos h]

theorem prepare_eq_ok_iff {ttmlCues : Text → Except String (List Cue)}
    {language : String} {data out : ByteArray} {offsetMs : ℕ} :
    prepare ttmlCues language data offsetMs = .ok out ↔
      ∃ text converted shifted,
        data = (String.ofList text).toByteArray ∧
        convert ttmlCues (stripMark text) = .ok converted ∧
        shiftBody offsetMs (converted.getD (stripMark text)) = some shifted ∧
        out = if offsetMs = 0 ∧ converted = none then data
          else (String.ofList shifted).toByteArray := by
  have hok : prepare ttmlCues language data offsetMs = .ok out ↔
      prepareText ttmlCues data offsetMs = .ok out := by
    unfold prepare
    cases prepareText ttmlCues data offsetMs <;> simp
  rw [hok]
  unfold prepareText
  simp only [bind_eq_ok_iff, okOr_eq_ok_iff, utf8Decode?_eq_some_iff,
    Except.ok.injEq]
  constructor
  · rintro ⟨text, htext, converted, hconvert, shifted, hshift, hout⟩
    exact ⟨text, converted, shifted, htext, hconvert, hshift, hout.symm⟩
  · rintro ⟨text, converted, shifted, htext, hconvert, hshift, hout⟩
    exact ⟨text, htext, converted, hconvert, shifted, hshift, hout.symm⟩

theorem prepare_fixed_iff {ttmlCues : Text → Except String (List Cue)}
    {language : String} {data : ByteArray} {offsetMs : ℕ} :
    prepare ttmlCues language data offsetMs = .ok data ↔
      NeedsNoPreparing data offsetMs := by
  rw [prepare_eq_ok_iff]
  constructor
  · rintro ⟨text, converted, shifted, hdata, hconvert, hshift, hout⟩
    cases converted with
    | some document =>
        rw [if_neg (by simp), hdata, String.toByteArray_inj,
          String.ofList_inj] at hout
        obtain ⟨hnot, cues, rfl⟩ := convert_eq_ok_some hconvert
        obtain ⟨others, hshifted⟩ := shiftBody_webvtt_cons hshift
        rw [hout, hshifted] at hnot
        cases hnot
    | none =>
        have hbody := convert_eq_ok_none_iff.mp hconvert
        refine ⟨text, utf8Decode?_eq_some_iff.mpr hdata, hbody,
          TimingsRead.of_shiftBody hshift, ?_⟩
        · by_cases hoffset : offsetMs = 0
          · exact .inl hoffset
          · right
            rw [if_neg (by simp [hoffset]), hdata, String.toByteArray_inj,
              String.ofList_inj] at hout
            have hmark : stripMark text = text := by
              rw [hout]
              exact stripMark_shiftBody hbody hshift
            refine ⟨hmark, ?_⟩
            rw [Option.getD_none, hmark, ← hout, shiftBody_fixed_iff] at hshift
            intro line hline
            exact (shiftLine_fixed_iff hoffset).mp (hshift line hline)
  · rintro ⟨text, htext, hbody, hread, hstays⟩
    have hconvert := (@convert_eq_ok_none_iff ttmlCues _).mpr hbody
    by_cases hoffset : offsetMs = 0
    · obtain ⟨shifted, hshifted⟩ := exists_shiftBody_zero_iff.mpr hread
      refine ⟨text, none, shifted, utf8Decode?_eq_some_iff.mp htext, hconvert,
        ?_, ?_⟩
      · rw [hoffset]
        exact hshifted
      · rw [if_pos ⟨hoffset, rfl⟩]
    · obtain ⟨hmark, hnone⟩ := hstays.resolve_left hoffset
      refine ⟨text, none, text, utf8Decode?_eq_some_iff.mp htext, hconvert,
        ?_, ?_⟩
      · rw [Option.getD_none, hmark, shiftBody_fixed_iff]
        intro line hline
        exact (shiftLine_fixed_iff hoffset).mpr (hnone line hline)
      · rw [if_neg (by simp [hoffset])]
        exact utf8Decode?_eq_some_iff.mp htext

end Segmentor
