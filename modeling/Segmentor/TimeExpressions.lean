import Segmentor.General.Rounding
import Segmentor.Subtitles
import Segmentor.TtmlTimes

/-!
# What a time expression says

An expression is written as a clock time or as a decimal number of a metric,
and has a value in milliseconds.  Reading it gives that value rounded to the
nearest, and an overflow exactly where a sum or a product that is not checked
leaves its type.
-/

namespace Segmentor.Ttml

open General

/-! ## Decimal numbers -/

/-- A point and what follows it, or nothing. -/
def afterPoint (fraction : Option Text) : Text :=
  fraction.elim [] fun fraction => '.' :: fraction

theorem atPoint_append {whole : Text} (fraction : Option Text)
    (hwhole : '.' ∉ whole) :
    atPoint (whole ++ afterPoint fraction) = (whole, fraction) := by
  have hfree : ∀ c ∈ whole, (c == '.') = false := by
    intro c hc
    rw [beq_eq_false_iff_ne]
    rintro rfl
    exact hwhole hc
  unfold atPoint afterPoint
  cases fraction with
  | none =>
      rw [Option.elim_none, List.append_nil, splitAtFirst_eq_none_iff.mpr hfree]
  | some fraction =>
      rw [Option.elim_some, splitAtFirst_append hfree rfl]

theorem text_of_atPoint (text : Text) :
    text = (atPoint text).1 ++ afterPoint (atPoint text).2 := by
  unfold atPoint
  cases hsplit : splitAtFirst (· == '.') text with
  | none => simp [afterPoint]
  | some parts =>
      obtain ⟨-, c, hc, htext⟩ := splitAtFirst_eq_some_iff.mp hsplit
      obtain rfl : c = '.' := by simpa using hc
      exact htext

/-- Decimal digits, with a point among them or without. -/
structure DecimalNumber where
  whole : Text
  fraction : Option Text
  digits : ∀ c ∈ whole ++ fraction.getD [], c.isDigit = true
  ne_nil : whole ++ fraction.getD [] ≠ []

namespace DecimalNumber

variable (number : DecimalNumber)

def text : Text :=
  number.whole ++ afterPoint number.fraction

/-- The digits after the point that count. -/
def cut : Text :=
  (number.fraction.getD []).take 9

def unit : ℕ :=
  10 ^ number.cut.length

/-- The digits before the point, in units of the last digit that counts. -/
def wholeUnits : ℕ :=
  Nat.ofDigitChars 10 number.whole 0 * number.unit

def units : ℕ :=
  number.wholeUnits + Nat.ofDigitChars 10 number.cut 0

def value : ℚ :=
  Nat.ofDigitChars 10 number.whole 0 +
    Nat.ofDigitChars 10 number.cut 0 / number.unit

theorem unit_pos : 0 < number.unit :=
  Nat.pow_pos (by decide)

theorem value_eq : number.value = (number.units : ℚ) / number.unit := by
  have hunit : (number.unit : ℚ) ≠ 0 := by
    exact_mod_cast number.unit_pos.ne'
  unfold value units wholeUnits
  push_cast
  field_simp

theorem value_nonneg : 0 ≤ number.value := by
  rw [value_eq]
  positivity

theorem point_not_mem : '.' ∉ number.whole := by
  intro hmem
  have := number.digits '.' (List.mem_append_left _ hmem)
  cases this

end DecimalNumber

theorem DecimalNumber.units_of_zero {number : DecimalNumber}
    (h : number.whole = ['0']) :
    number.wholeUnits = 0 ∧ number.units < number.unit ∧
      number.unit ≤ 10 ^ 9 := by
  have hzero : Nat.ofDigitChars 10 number.whole 0 = 0 := by
    rw [h]
    rfl
  have hwhole : number.wholeUnits = 0 := by
    unfold wholeUnits
    rw [hzero, Nat.zero_mul]
  have hcut : ∀ c ∈ number.cut, c.isDigit = true := fun c hc =>
    number.digits c (List.mem_append_right _ (List.mem_of_mem_take hc))
  have hlength : number.cut.length ≤ 9 := List.length_take_le _ _
  refine ⟨hwhole, ?_, ?_⟩
  · unfold units unit
    rw [hwhole, Nat.zero_add]
    exact ofDigitChars_lt hcut
  · unfold unit
    exact Nat.pow_le_pow_right (by decide) hlength

theorem DecimalNumber.parts_of_text {number : DecimalNumber} {whole : Text}
    {fraction : Option Text} (hwhole : '.' ∉ whole)
    (h : whole ++ afterPoint fraction = number.text) :
    number.whole = whole ∧ number.fraction = fraction := by
  have hparts := atPoint_append number.fraction number.point_not_mem
  unfold text at h
  rw [← h, atPoint_append fraction hwhole] at hparts
  obtain ⟨hwhole, hfraction⟩ := Prod.mk.inj hparts
  exact ⟨hwhole.symm, hfraction.symm⟩

theorem parseUnsigned_digits {bound : ℕ} {text : Text} (hne : text ≠ [])
    (hdigits : ∀ c ∈ text, c.isDigit = true) :
    parseUnsigned bound text =
      if Nat.ofDigitChars 10 text 0 < bound then
        some (Nat.ofDigitChars 10 text 0)
      else none := by
  have hhead : text.head? ≠ some '+' := by
    intro hplus
    have := hdigits '+' (List.mem_of_head? hplus)
    cases this
  have hall : text.all Char.isDigit = true := List.all_eq_true.mpr hdigits
  unfold parseUnsigned
  simp [hhead, hne, hall]

theorem DecimalNumber.wholeNumber_whole (number : DecimalNumber) :
    wholeNumber number.whole =
      if Nat.ofDigitChars 10 number.whole 0 < 2 ^ 128 then
        some (Nat.ofDigitChars 10 number.whole 0)
      else none := by
  unfold wholeNumber
  by_cases hwhole : number.whole = []
  · rw [if_pos hwhole, hwhole]
    rfl
  · rw [if_neg hwhole, parseUnsigned_digits hwhole fun c hc =>
      number.digits c (List.mem_append_left _ hc)]

/-- What is computed of a decimal number. -/
theorem scaled_text (number : DecimalNumber) (numerator denominator : ℕ) :
    scaled number.text numerator denominator =
      if number.wholeUnits < 2 ^ 128 then
        if number.units < 2 ^ 128 then
          nearestQuotient number.units number.unit numerator denominator
        else .error .overflow
      else .error .unreadable := by
  have hnonempty : ¬ (number.whole = [] ∧ number.fraction.getD [] = []) := by
    rintro ⟨hwhole, hfraction⟩
    exact number.ne_nil (by rw [hwhole, hfraction, List.append_nil])
  have hall : (number.whole ++ number.fraction.getD []).all Char.isDigit =
      true := List.all_eq_true.mpr number.digits
  have hle : Nat.ofDigitChars 10 number.whole 0 ≤ number.wholeUnits :=
    Nat.le_mul_of_pos_right _ number.unit_pos
  unfold scaled
  simp only [DecimalNumber.text, atPoint_append _ number.point_not_mem]
  rw [if_neg (by simp [hnonempty, hall]), number.wholeNumber_whole]
  change (okOr _ _ >>= fun whole =>
    okOr (checkedMul (2 ^ 128) whole number.unit) _ >>= fun value =>
    okOr (checkedAdd (2 ^ 128) value (Nat.ofDigitChars 10 number.cut 0)) _ >>=
    fun value => nearestQuotient value number.unit _ _) = _
  have hmul : checkedMul (2 ^ 128) (Nat.ofDigitChars 10 number.whole 0)
      number.unit = if number.wholeUnits < 2 ^ 128 then some number.wholeUnits
        else none := rfl
  have hadd : checkedAdd (2 ^ 128) number.wholeUnits
      (Nat.ofDigitChars 10 number.cut 0) =
        if number.units < 2 ^ 128 then some number.units else none := rfl
  by_cases hwhole : number.wholeUnits < 2 ^ 128
  · rw [if_pos hwhole, if_pos (hle.trans_lt hwhole), okOr_some, ok_bind, hmul,
      if_pos hwhole, okOr_some, ok_bind, hadd]
    by_cases hunits : number.units < 2 ^ 128
    · rw [if_pos hunits, if_pos hunits]
      rfl
    · rw [if_neg hunits, if_neg hunits]
      rfl
  · rw [if_neg hwhole]
    split
    · rw [okOr_some, ok_bind, hmul, if_neg hwhole]
      rfl
    · rfl

theorem exists_number_or_unreadable (text : Text) :
    (∃ number : DecimalNumber, text = number.text) ∨
      ∀ numerator denominator,
        scaled text numerator denominator = .error .unreadable := by
  by_cases hrefused : ((atPoint text).1 = [] ∧ (atPoint text).2.getD [] = []) ∨
      ¬ ((atPoint text).1 ++ (atPoint text).2.getD []).all Char.isDigit
  · right
    intro numerator denominator
    unfold scaled
    rw [if_pos hrefused]
  · left
    obtain ⟨hnonempty, hall⟩ := not_or.mp hrefused
    refine ⟨⟨(atPoint text).1, (atPoint text).2, ?_, ?_⟩, text_of_atPoint text⟩
    · exact List.all_eq_true.mp (not_not.mp hall)
    · intro hnil
      exact hnonempty (List.append_eq_nil_iff.mp hnil)

theorem nearestQuotient_eq_ok {value unit numerator denominator total : ℕ}
    (hunit : 0 < unit) (hdenominator : 0 < denominator)
    (h : nearestQuotient value unit numerator denominator = .ok total) :
    total = halfUp ((value : ℚ) / unit * (numerator / denominator)) := by
  unfold nearestQuotient word at h
  simp only [bind_eq_ok_iff, okOr_eq_ok_iff, checkedMul_eq_some_iff,
    checkedAdd_eq_some_iff] at h
  obtain ⟨_, ⟨-, rfl⟩, _, ⟨-, rfl⟩, _, ⟨-, rfl⟩, h⟩ := h
  split at h
  · obtain rfl := Except.ok.inj h
    rw [add_half_div (Nat.mul_pos hunit hdenominator)]
    push_cast
    rw [mul_div_mul_comm]
  · cases h

theorem nearestQuotient_of_lt {value unit numerator denominator : ℕ}
    (hunit : 0 < unit) (hdenominator : 0 < denominator)
    (h : value * numerator + unit * denominator < 2 ^ 128) :
    nearestQuotient value unit numerator denominator =
      word (halfUp ((value : ℚ) / unit * (numerator / denominator))) := by
  have hhalf := Nat.div_le_self (unit * denominator) 2
  unfold nearestQuotient checkedMul checkedAdd
  rw [if_pos (by omega), okOr_some, ok_bind, if_pos (by omega), okOr_some,
    ok_bind, if_pos (by omega), okOr_some, ok_bind,
    add_half_div (Nat.mul_pos hunit hdenominator)]
  push_cast
  rw [mul_div_mul_comm]

theorem nearestQuotient_ne_overflow (value unit numerator denominator : ℕ) :
    nearestQuotient value unit numerator denominator ≠ .error .overflow := by
  have hchecked : ∀ found : Option ℕ,
      okOr found TimeFailure.unreadable ≠ .error .overflow :=
    fun found => okOr_ne_error (by decide)
  unfold nearestQuotient word
  refine bind_ne_error (hchecked _) fun _ _ => bind_ne_error (hchecked _)
    fun _ _ => bind_ne_error (hchecked _) fun _ _ => ?_
  split
  · simp
  · decide

/-- What is read of a decimal number is its value times the fraction, rounded
to the nearest. -/
theorem scaled_eq_ok {text : Text} {numerator denominator total : ℕ}
    (hdenominator : 0 < denominator)
    (h : scaled text numerator denominator = .ok total) :
    ∃ number : DecimalNumber, text = number.text ∧
      total = halfUp (number.value * (numerator / denominator)) := by
  rcases exists_number_or_unreadable text with ⟨number, rfl⟩ | hnone
  · refine ⟨number, rfl, ?_⟩
    rw [scaled_text] at h
    split at h
    · split at h
      · rw [number.value_eq]
        exact nearestQuotient_eq_ok number.unit_pos hdenominator h
      · cases h
    · cases h
  · rw [hnone] at h
    cases h

/-- The sum of the parts of a number overflows. -/
def DecimalNumber.Overflows (number : DecimalNumber) : Prop :=
  number.wholeUnits < 2 ^ 128 ∧ 2 ^ 128 ≤ number.units

theorem scaled_overflow_iff {text : Text} {numerator denominator : ℕ} :
    scaled text numerator denominator = .error .overflow ↔
      ∃ number : DecimalNumber, text = number.text ∧ number.Overflows := by
  constructor
  · intro h
    rcases exists_number_or_unreadable text with ⟨number, rfl⟩ | hnone
    · refine ⟨number, rfl, ?_⟩
      rw [scaled_text] at h
      split at h
      · next hwhole =>
          split at h
          · exact absurd h (nearestQuotient_ne_overflow _ _ _ _)
          · next hunits => exact ⟨hwhole, Nat.not_lt.mp hunits⟩
      · cases h
    · rw [hnone] at h
      cases h
  · rintro ⟨number, rfl, hwhole, hunits⟩
    rw [scaled_text, if_pos hwhole, if_neg (Nat.not_lt.mpr hunits)]

/-! ## Offsets -/

theorem stripSuffix_eq_some_iff {suffix text rest : Text} :
    stripSuffix suffix text = some rest ↔ text = rest ++ suffix := by
  unfold stripSuffix
  rw [Option.ite_none_right_eq_some, List.isSuffixOf_iff_suffix,
    Option.some.injEq]
  constructor
  · rintro ⟨⟨before, rfl⟩, rfl⟩
    simp
  · rintro rfl
    exact ⟨List.suffix_append _ _, by simp⟩

theorem text_of_splitMetric {text number : Text} {metric : Metric}
    (h : splitMetric text = some (number, metric)) :
    text = number ++ metric.suffix := by
  obtain ⟨found, -, hfound⟩ := List.exists_of_findSome?_eq_some h
  obtain ⟨rest, hrest, hparts⟩ := Option.map_eq_some_iff.mp hfound
  obtain ⟨rfl, rfl⟩ := Prod.mk.inj hparts
  exact stripSuffix_eq_some_iff.mp hrest

theorem stripSuffix_append (number suffix : Text) :
    stripSuffix suffix (number ++ suffix) = some number :=
  stripSuffix_eq_some_iff.mpr rfl

theorem stripSuffix_of_ne {a b : Char} (before number : Text) (h : a ≠ b) :
    stripSuffix (before ++ [a]) (number ++ [b]) = none := by
  rw [Option.eq_none_iff_forall_ne_some]
  intro rest hrest
  have htext := stripSuffix_eq_some_iff.mp hrest
  rw [← List.append_assoc] at htext
  exact h (List.singleton_inj.mp (List.append_inj_right' htext rfl)).symm

theorem splitMetric_append {number : Text} {metric : Metric}
    (hend : metric = .seconds → ∀ before, number ≠ before ++ ['m']) :
    splitMetric (number ++ metric.suffix) = some (number, metric) := by
  have hsingle : ∀ a b : Char, a ≠ b →
      stripSuffix [a] (number ++ [b]) = none :=
    fun a b => stripSuffix_of_ne [] number
  have hdouble : ∀ b : Char, 's' ≠ b →
      stripSuffix ['m', 's'] (number ++ [b]) = none :=
    fun b => stripSuffix_of_ne ['m'] number
  have happend := stripSuffix_append number
  unfold splitMetric metrics
  cases metric with
  | milliseconds =>
      simp only [Metric.suffix, List.findSome?, happend, Option.map_some]
  | seconds =>
      have hms : stripSuffix ['m', 's'] (number ++ ['s']) = none := by
        rw [Option.eq_none_iff_forall_ne_some]
        intro rest hrest
        have htext : number ++ ['s'] = (rest ++ ['m']) ++ ['s'] := by
          rw [stripSuffix_eq_some_iff.mp hrest, List.append_assoc]
          rfl
        exact hend rfl rest (List.append_cancel_right htext)
      simp (disch := decide) only [Metric.suffix, List.findSome?, hms, hsingle,
        happend, Option.map_some, Option.map_none]
  | _ =>
      simp (disch := decide) only [Metric.suffix, List.findSome?, hdouble,
        hsingle, happend, Option.map_some, Option.map_none]

theorem DecimalNumber.mem_text {number : DecimalNumber} {c : Char}
    (hc : c ∈ number.text) : c.isDigit = true ∨ c = '.' := by
  have hdigits := number.digits
  unfold DecimalNumber.text afterPoint at hc
  rw [List.forall_mem_append] at hdigits
  rcases List.mem_append.mp hc with hwhole | hrest
  · exact .inl (hdigits.1 c hwhole)
  · cases hfraction : number.fraction with
    | none => simp [hfraction] at hrest
    | some fraction =>
        rw [hfraction] at hrest hdigits
        rcases List.mem_cons.mp hrest with rfl | hmem
        · exact .inr rfl
        · exact .inl (hdigits.2 c hmem)

theorem splitMetric_number (number : DecimalNumber) (metric : Metric) :
    splitMetric (number.text ++ metric.suffix) = some (number.text, metric) := by
  apply splitMetric_append
  rintro - before hbefore
  have hmem : 'm' ∈ number.text := by simp [hbefore]
  rcases DecimalNumber.mem_text hmem with hdigit | hpoint
  · cases hdigit
  · cases hpoint

/-- The milliseconds one of a metric lasts. -/
def Metric.millis (timing : Timing) : Metric → ℚ
  | milliseconds => 1
  | hours => 3600000
  | minutes => 60000
  | seconds => 1000
  | frames => (1000 * timing.frames.2 : ℕ) / timing.frames.1
  | ticks => 1000 / timing.ticksPerSecond

/-- What a number of a metric is multiplied with, where the product for frames
fits. -/
def Metric.fraction (timing : Timing) : Metric → ℕ × ℕ
  | milliseconds => (1, 1)
  | hours => (3600000, 1)
  | minutes => (60000, 1)
  | seconds => (1000, 1)
  | frames => (1000 * timing.frames.2, timing.frames.1)
  | ticks => (1000, timing.ticksPerSecond)

theorem Metric.fraction_eq (timing : Timing) (metric : Metric) :
    ((metric.fraction timing).1 : ℚ) / (metric.fraction timing).2 =
      metric.millis timing := by
  cases metric <;> simp [fraction, millis]

/-- What the root makes of times that it accepts. -/
structure Timing.Valid (timing : Timing) : Prop where
  frames_pos : 0 < timing.frames.1
  frames_lt : timing.frames.1 < 2 ^ 64
  multiplier_lt : timing.frames.2 < 2 ^ 64
  ticks_pos : 0 < timing.ticksPerSecond

theorem Metric.fraction_pos {timing : Timing} (hvalid : timing.Valid)
    (metric : Metric) : 0 < (metric.fraction timing).2 := by
  cases metric with
  | frames => exact hvalid.frames_pos
  | ticks => exact hvalid.ticks_pos
  | _ => exact Nat.one_pos

/-- The product for times in frames overflows. -/
def Metric.Overflows (timing : Timing) (metric : Metric) : Prop :=
  metric = .frames ∧ 2 ^ 64 ≤ 1000 * timing.frames.2

instance (timing : Timing) (metric : Metric) :
    Decidable (metric.Overflows timing) :=
  inferInstanceAs (Decidable (_ ∧ _))

theorem offsetTime_of_split {text number : Text} {metric : Metric}
    {timing : Timing} (h : splitMetric text = some (number, metric)) :
    offsetTime text timing =
      if metric.Overflows timing then .error .overflow
      else scaled number (metric.fraction timing).1
        (metric.fraction timing).2 := by
  unfold offsetTime
  rw [h, okOr_some, ok_bind]
  cases metric with
  | frames =>
      by_cases hfits : 1000 * timing.frames.2 < 2 ^ 64
      · rw [if_neg fun h => Nat.not_le.mpr hfits h.2]
        simp only [checkedMul, if_pos hfits]
        rfl
      · rw [if_pos ⟨rfl, Nat.not_lt.mp hfits⟩]
        simp only [checkedMul, if_neg hfits]
        rfl
  | _ =>
      rw [if_neg (by simp [Metric.Overflows])]
      rfl

/-- What is read of an offset is its value, rounded to the nearest. -/
theorem offsetTime_number {number : DecimalNumber} {metric : Metric}
    {timing : Timing} {total : ℕ} (hvalid : timing.Valid)
    (h : offsetTime (number.text ++ metric.suffix) timing = .ok total) :
    total = halfUp (number.value * metric.millis timing) := by
  rw [offsetTime_of_split (splitMetric_number number metric)] at h
  split at h
  · cases h
  · rw [scaled_text] at h
    split at h
    · split at h
      · rw [number.value_eq, ← metric.fraction_eq]
        exact nearestQuotient_eq_ok number.unit_pos
          (metric.fraction_pos hvalid) h
      · cases h
    · cases h

theorem exists_number_of_offsetTime {text : Text} {timing : Timing} {total : ℕ}
    (h : offsetTime text timing = .ok total) :
    ∃ (number : DecimalNumber) (metric : Metric),
      text = number.text ++ metric.suffix := by
  cases hsplit : splitMetric text with
  | none =>
      unfold offsetTime at h
      rw [hsplit] at h
      cases h
  | some parts =>
      rw [offsetTime_of_split hsplit] at h
      split at h
      · cases h
      · rcases exists_number_or_unreadable parts.1 with ⟨number, hnumber⟩ | hnone
        · refine ⟨number, parts.2, ?_⟩
          rw [← hnumber]
          exact text_of_splitMetric hsplit
        · rw [hnone] at h
          cases h

theorem offsetTime_overflow_iff {text : Text} {timing : Timing} :
    offsetTime text timing = .error .overflow ↔
      (∃ number, text = number ++ ['f'] ∧ 2 ^ 64 ≤ 1000 * timing.frames.2) ∨
      ∃ (number : DecimalNumber) (metric : Metric),
        text = number.text ++ metric.suffix ∧ number.Overflows := by
  constructor
  · intro h
    cases hsplit : splitMetric text with
    | none =>
        unfold offsetTime at h
        rw [hsplit] at h
        cases h
    | some parts =>
        obtain ⟨number, metric⟩ := parts
        have htext := text_of_splitMetric hsplit
        rw [offsetTime_of_split hsplit] at h
        split at h
        · next hover =>
            obtain ⟨rfl, hlarge⟩ := hover
            exact .inl ⟨number, htext, hlarge⟩
        · obtain ⟨decimal, rfl, hover⟩ := scaled_overflow_iff.mp h
          exact .inr ⟨decimal, metric, htext, hover⟩
  · rintro (⟨number, rfl, hlarge⟩ | ⟨number, metric, rfl, hover⟩)
    · have hsplit : splitMetric (number ++ Metric.suffix .frames) =
          some (number, .frames) :=
        splitMetric_append fun h => Metric.noConfusion h
      rw [← show Metric.suffix .frames = ['f'] from rfl,
        offsetTime_of_split hsplit, if_pos ⟨rfl, hlarge⟩]
    · rw [offsetTime_of_split (splitMetric_number number metric)]
      split
      · rfl
      · exact scaled_overflow_iff.mpr ⟨number, rfl, hover⟩

/-! ## Clock times -/

/-- A field of `least` to `most` digits. -/
def IsField (least most : ℕ) (field : Text) : Prop :=
  (∀ c ∈ field, c.isDigit = true) ∧ least ≤ field.length ∧ field.length ≤ most

theorem IsField.number {least most : ℕ} {field : Text}
    (h : IsField least most field) :
    number field least most = some (Nat.ofDigitChars 10 field 0) :=
  number_eq_some_iff.mpr ⟨h, rfl⟩

theorem IsField.lt {least most : ℕ} {field : Text}
    (h : IsField least most field) :
    Nat.ofDigitChars 10 field 0 < 10 ^ most :=
  (ofDigitChars_lt h.1).trans_le (Nat.pow_le_pow_right (by decide) h.2.2)

theorem IsField.not_mem {least most : ℕ} {field : Text} {c : Char}
    (h : IsField least most field) (hc : c.isDigit = false) : c ∉ field := by
  intro hmem
  rw [h.1 c hmem] at hc
  cases hc

theorem wholeClock_of_lt {hours minutes seconds : Text} {h m s : ℕ}
    (hhours : number hours 2 10 = some h) (hminutes : number minutes 2 2 = some m)
    (hseconds : number seconds 2 2 = some s) (hm : m < 60) (hs : s < 60)
    (htotal : h * 3600000 + m * 60000 + s * 1000 < 2 ^ 64) :
    wholeClock hours minutes seconds =
      .ok (h * 3600000 + m * 60000 + s * 1000) := by
  have hminute := Nat.lt_of_le_of_lt (Nat.le_add_right ..) htotal
  have hhour := Nat.lt_of_le_of_lt (Nat.le_add_right ..) hminute
  have hm' := Nat.lt_of_le_of_lt (Nat.le_add_left ..) hminute
  have hs' := Nat.lt_of_le_of_lt (Nat.le_add_left ..) htotal
  unfold wholeClock addPart
  rw [hhours, hminutes, hseconds, Option.filter_some, Option.filter_some,
    if_pos (by simpa using hm), if_pos (by simpa using hs), okOr_some, ok_bind,
    okOr_some, ok_bind, okOr_some, ok_bind]
  have hmul : ∀ {a b : ℕ} {failure : TimeFailure}, a * b < 2 ^ 64 →
      okOr (checkedMul (2 ^ 64) a b) failure = .ok (a * b) :=
    fun hlt => okOr_eq_ok_iff.mpr (checkedMul_eq_some_iff.mpr ⟨hlt, rfl⟩)
  have hadd : ∀ {a b : ℕ}, a + b < 2 ^ 64 →
      okOr (checkedAdd (2 ^ 64) a b) TimeFailure.unreadable = .ok (a + b) :=
    fun hlt => okOr_eq_ok_iff.mpr (checkedAdd_eq_some_iff.mpr ⟨hlt, rfl⟩)
  rw [hmul hhour, ok_bind, hmul hm', ok_bind, hadd hminute, ok_bind, hmul hs',
    ok_bind, hadd htotal]

/-- `hh:mm:ss`, with a fraction or without, with frames or without.  What
follows a point in the frames is not counted. -/
structure ClockTime where
  hours : Text
  minutes : Text
  seconds : Text
  fraction : Option Text
  frames : Option (Text × Option Text)
  hours_field : IsField 2 10 hours
  minutes_field : IsField 2 2 minutes
  minutes_lt : Nat.ofDigitChars 10 minutes 0 < 60
  seconds_field : IsField 2 2 seconds
  seconds_lt : Nat.ofDigitChars 10 seconds 0 < 60
  fraction_digits : ∀ c ∈ fraction.getD [], c.isDigit = true
  frames_field : ∀ count ∈ frames, IsField 2 10 count.1 ∧
    ':' ∉ count.2.getD []

namespace ClockTime

variable (clock : ClockTime)

def fields : List Text :=
  clock.hours :: clock.minutes ::
    (clock.seconds ++ afterPoint clock.fraction) ::
    (clock.frames.map fun count => count.1 ++ afterPoint count.2).toList

def text : Text :=
  [':'].intercalate clock.fields

def withoutFrames : ClockTime :=
  { clock with
    frames := none
    frames_field := by simp }

/-- The milliseconds of the whole hours, minutes and seconds. -/
def whole : ℕ :=
  Nat.ofDigitChars 10 clock.hours 0 * 3600000 +
    Nat.ofDigitChars 10 clock.minutes 0 * 60000 +
    Nat.ofDigitChars 10 clock.seconds 0 * 1000

def fractionNumber : DecimalNumber where
  whole := ['0']
  fraction := clock.fraction
  digits := List.forall_mem_append.mpr
    ⟨List.forall_mem_singleton.mpr rfl, clock.fraction_digits⟩
  ne_nil := by simp

/-- The milliseconds of the fraction of a second. -/
def fractionMillis : ℚ :=
  clock.fractionNumber.value * 1000

/-- The milliseconds of the frames. -/
def framesMillis (timing : Timing) : ℚ :=
  clock.frames.elim 0 fun count =>
    Nat.ofDigitChars 10 count.1 0 * Metric.millis timing .frames

theorem whole_lt : clock.whole < 10 ^ 10 * 3600000 := by
  have hhours := clock.hours_field.lt
  have hminutes := clock.minutes_lt
  have hseconds := clock.seconds_lt
  unfold whole
  omega

theorem not_mem_fields {clock : ClockTime} :
    ∀ field ∈ clock.fields, ':' ∉ field := by
  have hpart : ∀ fraction : Option Text, ':' ∉ fraction.getD [] →
      ':' ∉ afterPoint fraction := by
    intro fraction hfree
    cases fraction with
    | none => simp [afterPoint]
    | some fraction =>
        exact List.not_mem_cons_of_ne_of_not_mem (by decide) hfree
  have hfraction : ':' ∉ clock.fraction.getD [] := by
    intro hmem
    have := clock.fraction_digits ':' hmem
    cases this
  have hcolon : (':' : Char).isDigit = false := by decide
  unfold fields
  refine List.forall_mem_cons.mpr ⟨clock.hours_field.not_mem hcolon,
    List.forall_mem_cons.mpr ⟨clock.minutes_field.not_mem hcolon,
      List.forall_mem_cons.mpr ⟨?_, ?_⟩⟩⟩
  · rw [List.mem_append, not_or]
    exact ⟨clock.seconds_field.not_mem hcolon, hpart _ hfraction⟩
  · intro field hfield
    cases hframes : clock.frames with
    | none => simp [hframes] at hfield
    | some count =>
        obtain ⟨hcount, hfree⟩ := clock.frames_field count hframes
        obtain rfl : field = count.1 ++ afterPoint count.2 := by
          simpa [hframes] using hfield
        rw [List.mem_append, not_or]
        exact ⟨hcount.not_mem hcolon, hpart _ hfree⟩

theorem clockFields_text :
    clockFields clock.text =
      .ok (clock.hours, clock.minutes,
        clock.seconds ++ afterPoint clock.fraction,
        clock.frames.map fun count => count.1 ++ afterPoint count.2) := by
  have hsplit : clock.text.splitOn ':' = clock.fields :=
    List.splitOn_intercalate ':' not_mem_fields (List.cons_ne_nil _ _)
  unfold clockFields
  rw [hsplit, fields]
  cases clock.frames <;> rfl

theorem wholeClock_fields :
    wholeClock clock.hours clock.minutes clock.seconds = .ok clock.whole :=
  wholeClock_of_lt clock.hours_field.number clock.minutes_field.number
    clock.seconds_field.number clock.minutes_lt clock.seconds_lt
    (clock.whole_lt.trans (by decide))

theorem fractionNumber_units : clock.fractionNumber.wholeUnits = 0 ∧
    clock.fractionNumber.units < clock.fractionNumber.unit ∧
      clock.fractionNumber.unit ≤ 10 ^ 9 :=
  DecimalNumber.units_of_zero rfl

theorem fractionMillis_nonneg : 0 ≤ clock.fractionMillis :=
  mul_nonneg clock.fractionNumber.value_nonneg (by norm_num)

theorem halfUp_fractionMillis_le : halfUp clock.fractionMillis ≤ 1000 := by
  have hunit : (0 : ℚ) < clock.fractionNumber.unit := by
    exact_mod_cast clock.fractionNumber.unit_pos
  have hlt : clock.fractionNumber.value < 1 := by
    rw [clock.fractionNumber.value_eq, div_lt_one hunit]
    exact_mod_cast clock.fractionNumber_units.2.1
  unfold halfUp
  apply Nat.lt_succ_iff.mp
  rw [Nat.floor_lt (by linarith [clock.fractionMillis_nonneg])]
  unfold fractionMillis
  push_cast
  linarith

theorem scaled_fraction {fraction : Text} (h : clock.fraction = some fraction) :
    scaled ('0' :: '.' :: fraction) 1000 1 =
      .ok (halfUp clock.fractionMillis) := by
  obtain ⟨hwhole, hunits, hunit⟩ := clock.fractionNumber_units
  have htext : clock.fractionNumber.text = '0' :: '.' :: fraction := by
    simp [DecimalNumber.text, fractionNumber, h, afterPoint]
  have hle := clock.halfUp_fractionMillis_le
  rw [← htext, scaled_text, if_pos (by omega), if_pos (by omega),
    nearestQuotient_of_lt clock.fractionNumber.unit_pos Nat.one_pos (by omega),
    ← clock.fractionNumber.value_eq]
  have hvalue : clock.fractionNumber.value * ((1000 : ℕ) / (1 : ℕ)) =
      clock.fractionMillis := by
    unfold fractionMillis
    norm_num
  rw [hvalue, word, if_pos (by omega)]

/-- The milliseconds read of a clock time before its frames. -/
def base : ℕ :=
  clock.whole + halfUp clock.fractionMillis

theorem base_lt : clock.base < 2 ^ 64 := by
  have hwhole := clock.whole_lt
  have hfraction := clock.halfUp_fractionMillis_le
  unfold base
  omega

end ClockTime

theorem frameTime_eq {timing : Timing} (hvalid : timing.Valid) {frames : ℕ}
    (hframes : frames < 10 ^ 10) :
    frameTime frames timing =
      word (halfUp (frames * Metric.millis timing .frames)) := by
  have hmul : frames * 1000 * timing.frames.2 ≤
      10 ^ 10 * 1000 * 2 ^ 64 :=
    Nat.mul_le_mul (Nat.mul_le_mul_right _ hframes.le) hvalid.multiplier_lt.le
  have hle := Nat.div_le_self timing.frames.1 2
  have hlt := hvalid.frames_lt
  unfold frameTime checkedMul checkedAdd
  rw [if_pos (by omega), okOr_some, ok_bind, if_pos (by omega), okOr_some,
    ok_bind, if_pos (by omega), okOr_some, ok_bind,
    add_half_div hvalid.frames_pos]
  unfold Metric.millis
  push_cast
  rw [mul_assoc, mul_div_assoc]

theorem atPoint_field {least most : ℕ} {field : Text}
    (h : IsField least most field) (rest : Option Text) :
    atPoint (field ++ afterPoint rest) = (field, rest) :=
  atPoint_append rest (h.not_mem (by decide))

theorem addFraction_whole (clock : ClockTime) :
    addFraction clock.whole clock.fraction = .ok clock.base := by
  cases hcase : clock.fraction with
  | none =>
      have hzero : clock.fractionMillis = 0 := by
        simp [ClockTime.fractionMillis, ClockTime.fractionNumber,
          DecimalNumber.value, DecimalNumber.cut, hcase, Nat.ofDigitChars_cons]
      unfold ClockTime.base addFraction
      rw [hzero, halfUp_zero, Nat.add_zero]
  | some fraction =>
      rw [addFraction, clock.scaled_fraction hcase, ok_bind, addPart,
        okOr_eq_ok_iff]
      exact checkedAdd_eq_some_iff.mpr ⟨clock.base_lt, rfl⟩

/-- What is computed of a clock time. -/
theorem clockTime_text {timing : Timing} (hvalid : timing.Valid)
    (clock : ClockTime) :
    clockTime clock.text timing =
      if clock.frames = none then .ok clock.base
      else word (halfUp (clock.framesMillis timing)) >>= addPart clock.base := by
  unfold clockTime
  rw [clock.clockFields_text, ok_bind]
  dsimp only
  rw [atPoint_field clock.seconds_field, clock.wholeClock_fields, ok_bind,
    addFraction_whole, ok_bind]
  cases hframes : clock.frames with
  | none => rfl
  | some count =>
      obtain ⟨hcount, -⟩ := clock.frames_field count hframes
      rw [if_neg (by simp), Option.map_some, addFrames, atPoint_field hcount,
        hcount.number, okOr_some, ok_bind, frameTime_eq hvalid hcount.lt,
        ClockTime.framesMillis, hframes, Option.elim_some]

theorem afterPoint_digits {fraction : Text} {total : ℕ}
    (h : scaled ('0' :: '.' :: fraction) 1000 1 = .ok total) :
    ∀ c ∈ fraction, c.isDigit = true := by
  obtain ⟨number, hnumber, -⟩ := scaled_eq_ok Nat.one_pos h
  obtain ⟨-, hfraction⟩ :=
    @DecimalNumber.parts_of_text number ['0'] (some fraction) (by decide) hnumber
  intro c hc
  refine number.digits c (List.mem_append_right _ ?_)
  rwa [hfraction]

theorem wholeClock_eq_ok {hours minutes seconds : Text} {total : ℕ}
    (h : wholeClock hours minutes seconds = .ok total) :
    IsField 2 10 hours ∧
      (IsField 2 2 minutes ∧ Nat.ofDigitChars 10 minutes 0 < 60) ∧
      IsField 2 2 seconds ∧ Nat.ofDigitChars 10 seconds 0 < 60 := by
  have hsmall : ∀ {field : Text} {value : ℕ},
      (number field 2 2).filter (fun value => value < 60) = some value →
      IsField 2 2 field ∧ Nat.ofDigitChars 10 field 0 < 60 := by
    intro field value hvalue
    obtain ⟨hnumber, hlt⟩ := Option.filter_eq_some_iff.mp hvalue
    obtain ⟨hfield, rfl⟩ := number_eq_some_iff.mp hnumber
    exact ⟨hfield, by simpa using hlt⟩
  unfold wholeClock at h
  obtain ⟨_, hhours, h⟩ := bind_eq_ok_iff.mp h
  obtain ⟨_, hminutes, h⟩ := bind_eq_ok_iff.mp h
  obtain ⟨_, hseconds, -⟩ := bind_eq_ok_iff.mp h
  exact ⟨(number_eq_some_iff.mp (okOr_eq_ok_iff.mp hhours)).1,
    hsmall (okOr_eq_ok_iff.mp hminutes), hsmall (okOr_eq_ok_iff.mp hseconds)⟩

theorem clockFields_eq_ok {text hours minutes seconds : Text}
    {frames : Option Text}
    (h : clockFields text = .ok (hours, minutes, seconds, frames)) :
    text = [':'].intercalate (hours :: minutes :: seconds :: frames.toList) ∧
      ∀ field ∈ frames, ':' ∉ field := by
  have htext := @List.intercalate_splitOn _ text _ _ ':'
  have hfree := @not_mem_of_mem_splitOn _ _ ':' text
  unfold clockFields at h
  split at h
  · next hfields =>
      cases h
      rw [hfields] at htext
      exact ⟨htext.symm, by simp⟩
  · next hfields =>
      cases h
      rw [hfields] at htext hfree
      refine ⟨htext.symm, ?_⟩
      rintro field ⟨⟩
      exact hfree _ (by simp)
  · cases h

theorem exists_clock_of_clockTime {text : Text} {timing : Timing} {total : ℕ}
    (h : clockTime text timing = .ok total) :
    ∃ clock : ClockTime, text = clock.text := by
  unfold clockTime at h
  obtain ⟨⟨hours, minutes, seconds, frames⟩, hfields, h⟩ := bind_eq_ok_iff.mp h
  obtain ⟨whole, hwhole, h⟩ := bind_eq_ok_iff.mp h
  obtain ⟨base, hbase, h⟩ := bind_eq_ok_iff.mp h
  obtain ⟨htext, hfree⟩ := clockFields_eq_ok hfields
  obtain ⟨hhours, ⟨hminutes, hminutesLt⟩, hseconds, hsecondsLt⟩ :=
    wholeClock_eq_ok hwhole
  have hfraction : ∀ c ∈ (atPoint seconds).2.getD [], c.isDigit = true := by
    cases hcase : (atPoint seconds).2 with
    | none => simp
    | some fraction =>
        rw [hcase, addFraction] at hbase
        obtain ⟨part, hpart, -⟩ := bind_eq_ok_iff.mp hbase
        exact afterPoint_digits hpart
  have hframes : ∀ field ∈ frames, IsField 2 10 (atPoint field).1 ∧
      ':' ∉ (atPoint field).2.getD [] := by
    rintro field hfield
    obtain rfl : frames = some field := hfield
    rw [addFrames] at h
    obtain ⟨count, hcount, -⟩ := bind_eq_ok_iff.mp h
    refine ⟨(number_eq_some_iff.mp (okOr_eq_ok_iff.mp hcount)).1, ?_⟩
    intro hmem
    have hcolon := hfree field rfl
    rw [text_of_atPoint field] at hcolon
    refine hcolon (List.mem_append_right _ ?_)
    cases hcase : (atPoint field).2 with
    | none => simp [hcase] at hmem
    | some rest =>
        rw [hcase] at hmem
        exact List.mem_cons_of_mem _ hmem
  refine ⟨
    { hours := hours
      minutes := minutes
      seconds := (atPoint seconds).1
      fraction := (atPoint seconds).2
      frames := frames.map atPoint
      hours_field := hhours
      minutes_field := hminutes
      minutes_lt := hminutesLt
      seconds_field := hseconds
      seconds_lt := hsecondsLt
      fraction_digits := hfraction
      frames_field := ?_ }, ?_⟩
  · intro count hcount
    obtain ⟨field, hfield, rfl⟩ := Option.map_eq_some_iff.mp hcount
    exact hframes field hfield
  · rw [htext]
    unfold ClockTime.text ClockTime.fields
    dsimp only
    rw [← text_of_atPoint]
    cases frames with
    | none => rfl
    | some field =>
        simp only [Option.map_some, Option.toList_some]
        rw [← text_of_atPoint]

theorem unreadable_ne_overflow {α : Type} (found : Option α) :
    okOr found TimeFailure.unreadable ≠ .error .overflow :=
  okOr_ne_error (by decide)

theorem word_ne_overflow (milliseconds : ℕ) :
    word milliseconds ≠ .error .overflow := by
  unfold word
  split <;> simp

/-- No product of a clock time leaves its type. -/
theorem wholeClock_ne_overflow (hours minutes seconds : Text) :
    wholeClock hours minutes seconds ≠ .error .overflow := by
  have hproduct : ∀ {field : Text} {value factor : ℕ}, factor ≤ 60000 →
      okOr ((number field 2 2).filter fun value => value < 60)
        TimeFailure.unreadable = .ok value →
      okOr (checkedMul (2 ^ 64) value factor) TimeFailure.overflow ≠
        .error .overflow := by
    intro field value factor hfactor hvalue
    obtain ⟨-, hlt⟩ := Option.filter_eq_some_iff.mp (okOr_eq_ok_iff.mp hvalue)
    have hlt : value < 60 := by simpa using hlt
    have hmul : value * factor ≤ 60 * 60000 := Nat.mul_le_mul hlt.le hfactor
    rw [checkedMul, if_pos (hmul.trans_lt (by decide)), okOr_some]
    simp
  unfold wholeClock addPart
  refine bind_ne_error (unreadable_ne_overflow _) fun h _ => ?_
  refine bind_ne_error (unreadable_ne_overflow _) fun m hm => ?_
  refine bind_ne_error (unreadable_ne_overflow _) fun s hs => ?_
  refine bind_ne_error (unreadable_ne_overflow _) fun _ _ => ?_
  refine bind_ne_error (hproduct (by decide) hm) fun _ _ => ?_
  refine bind_ne_error (unreadable_ne_overflow _) fun _ _ => ?_
  exact bind_ne_error (hproduct (by decide) hs) fun _ _ =>
    unreadable_ne_overflow _

theorem clockTime_ne_overflow {timing : Timing} (hvalid : timing.Valid)
    (text : Text) : clockTime text timing ≠ .error .overflow := by
  have hfields : clockFields text ≠ .error .overflow := by
    unfold clockFields
    split <;> simp
  unfold clockTime
  refine bind_ne_error hfields fun fields _ => ?_
  refine bind_ne_error (wholeClock_ne_overflow _ _ _) fun whole _ => ?_
  refine bind_ne_error ?_ fun base _ => ?_
  · cases (atPoint fields.2.2.1).2 with
    | none => simp [addFraction]
    | some fraction =>
        rw [addFraction]
        refine bind_ne_error ?_ fun _ _ => unreadable_ne_overflow _
        intro hover
        obtain ⟨number, hnumber, -, hlarge⟩ := scaled_overflow_iff.mp hover
        obtain ⟨hzero, -⟩ :=
          @DecimalNumber.parts_of_text number ['0'] (some fraction) (by decide)
            hnumber
        obtain ⟨-, hunits, hunit⟩ := DecimalNumber.units_of_zero hzero
        omega
  · cases fields.2.2.2 with
    | none => simp [addFrames]
    | some frames =>
        rw [addFrames]
        refine bind_ne_error (unreadable_ne_overflow _) fun count hcount => ?_
        refine bind_ne_error ?_ fun _ _ => unreadable_ne_overflow _
        obtain ⟨hfield, rfl⟩ := number_eq_some_iff.mp (okOr_eq_ok_iff.mp hcount)
        rw [frameTime_eq hvalid (IsField.lt hfield)]
        exact word_ne_overflow _

/-! ## Expressions -/

inductive TimeExpression
  | clock (time : ClockTime)
  | offset (number : DecimalNumber) (metric : Metric)

def TimeExpression.text : TimeExpression → Text
  | clock time => time.text
  | offset number metric => number.text ++ metric.suffix

/-- The value of an expression in milliseconds. -/
def TimeExpression.value (timing : Timing) : TimeExpression → ℚ
  | clock time => time.whole + time.fractionMillis + time.framesMillis timing
  | offset number metric => number.value * metric.millis timing

theorem ClockTime.contains_colon (clock : ClockTime) :
    clock.text.contains ':' = true := by
  rw [List.contains_iff_mem]
  unfold ClockTime.text ClockTime.fields
  rw [List.intercalate_cons_of_ne_nil (by simp)]
  simp

theorem offset_contains_colon (number : DecimalNumber) (metric : Metric) :
    (number.text ++ metric.suffix).contains ':' = false := by
  rw [← Bool.not_eq_true, List.contains_iff_mem, List.mem_append, not_or]
  constructor
  · intro hmem
    rcases DecimalNumber.mem_text hmem with hdigit | hpoint
    · cases hdigit
    · cases hpoint
  · cases metric <;> decide

/-- A text is read as a time: nothing overflows, what is read is the value of
the expression that is written, rounded to the nearest, and frames count in a
clock time what they count as an offset. -/
structure ReadExactly (timing : Timing) (text : Text) : Prop where
  no_overflow : parseTime text timing ≠ .error .overflow
  exact : ∀ milliseconds, parseTime text timing = .ok milliseconds →
    (∃ expression : TimeExpression, trim text = expression.text) ∧
      ∀ expression : TimeExpression, trim text = expression.text →
        milliseconds = halfUp (expression.value timing)
  frames : ∀ (clock : ClockTime) (count : Text × Option Text),
    trim text = clock.text → clock.frames = some count →
    parseTime text timing = do
      let base ← parseTime clock.withoutFrames.text timing
      let part ← parseTime (count.1 ++ ['f']) timing
      addPart base part

/-- No product and no sum that is not checked leaves its type, and a fraction
of a second and frames that stand together round to what they come to. -/
structure WithinRange (timing : Timing) (text : Text) : Prop where
  offset_frames : (trim text).contains ':' = false →
    (trim text).getLast? = some 'f' → 1000 * timing.frames.2 < 2 ^ 64
  clock_frames : ∀ clock : ClockTime, trim text = clock.text →
    clock.frames ≠ none → 1000 * timing.frames.2 < 2 ^ 64
  sums : ∀ (number : DecimalNumber) (metric : Metric),
    trim text = number.text ++ metric.suffix → ¬ number.Overflows
  rounding : ∀ clock : ClockTime, trim text = clock.text →
    clock.whole + halfUp clock.fractionMillis +
      halfUp (clock.framesMillis timing) < 2 ^ 64 →
    halfUp (clock.fractionMillis + clock.framesMillis timing) =
      halfUp clock.fractionMillis + halfUp (clock.framesMillis timing)

section Reading

variable {timing : Timing} {text : Text}

theorem parseTime_of_clock {clock : ClockTime} (htext : trim text = clock.text) :
    parseTime text timing = clockTime clock.text timing := by
  unfold parseTime
  rw [htext]
  exact if_pos clock.contains_colon

theorem parseTime_of_offset (htext : (trim text).contains ':' = false) :
    parseTime text timing = offsetTime (trim text) timing := by
  unfold parseTime
  dsimp only
  rw [htext]
  rfl

theorem trim_eq_self (hfree : ∀ c ∈ text, isWhiteSpace c = false) :
    trim text = text := by
  have hstart : trimStart text = text := by
    unfold trimStart
    rw [List.dropWhile_eq_self_iff]
    intro hlength
    rw [hfree _ (List.getElem_mem _)]
    decide
  unfold trim trimEnd
  rw [hstart, List.rdropWhile_eq_self_iff]
  intro hne
  rw [hfree _ (List.getLast_mem hne)]
  decide

theorem trim_withoutFrames (clock : ClockTime) :
    trim clock.withoutFrames.text = clock.withoutFrames.text := by
  have htext : clock.withoutFrames.text = clock.hours ++ ':' ::
      (clock.minutes ++ ':' ::
        (clock.seconds ++ afterPoint clock.fraction)) := by
    simp [ClockTime.text, ClockTime.fields, ClockTime.withoutFrames,
      List.intercalate]
  have hdigits : ∀ field : Text, (∀ c ∈ field, c.isDigit = true) →
      ∀ c ∈ field, isWhiteSpace c = false :=
    fun field h c hc => isWhiteSpace_of_isDigit (h c hc)
  have hfraction : ∀ c ∈ afterPoint clock.fraction,
      isWhiteSpace c = false := by
    have := clock.fraction_digits
    cases hcase : clock.fraction with
    | none => simp [afterPoint]
    | some fraction =>
        rw [hcase] at this
        exact List.forall_mem_cons.mpr ⟨by decide, hdigits _ this⟩
  apply trim_eq_self
  rw [htext]
  exact List.forall_mem_append.mpr ⟨hdigits _ clock.hours_field.1,
    List.forall_mem_cons.mpr ⟨by decide,
      List.forall_mem_append.mpr ⟨hdigits _ clock.minutes_field.1,
        List.forall_mem_cons.mpr ⟨by decide,
          List.forall_mem_append.mpr ⟨hdigits _ clock.seconds_field.1,
            hfraction⟩⟩⟩⟩⟩

/-- What is read of a number of frames as an offset. -/
theorem parseTime_frames (hvalid : timing.Valid) {digits : Text}
    (hdigits : IsField 2 10 digits) :
    parseTime (digits ++ ['f']) timing =
      if 1000 * timing.frames.2 < 2 ^ 64 then
        word (halfUp (Nat.ofDigitChars 10 digits 0 *
          Metric.millis timing .frames))
      else .error .overflow := by
  let number : DecimalNumber :=
    { whole := digits
      fraction := none
      digits := by simpa using hdigits.1
      ne_nil := by
        have := hdigits.2.1
        rintro hnil
        rw [List.append_eq_nil_iff.mp hnil |>.1] at this
        cases this }
  have htext : digits ++ ['f'] = number.text ++ Metric.suffix .frames := by
    simp [number, DecimalNumber.text, afterPoint, Metric.suffix]
  have htrim : trim (digits ++ ['f']) = digits ++ ['f'] := by
    apply trim_eq_self
    exact List.forall_mem_append.mpr
      ⟨fun c hc => isWhiteSpace_of_isDigit (hdigits.1 c hc),
        List.forall_mem_singleton.mpr (by decide)⟩
  have hunit : number.unit = 1 := rfl
  have hwhole : number.wholeUnits = Nat.ofDigitChars 10 digits 0 := by
    unfold DecimalNumber.wholeUnits
    rw [hunit, Nat.mul_one]
  have hunits : number.units = Nat.ofDigitChars 10 digits 0 := by
    unfold DecimalNumber.units
    rw [hwhole]
    rfl
  have hlt := hdigits.lt
  rw [parseTime_of_offset (by rw [htrim, htext]; exact offset_contains_colon _ _),
    htrim, htext, offsetTime_of_split (splitMetric_number number .frames)]
  by_cases hfits : 1000 * timing.frames.2 < 2 ^ 64
  · have hmul : Nat.ofDigitChars 10 digits 0 * (1000 * timing.frames.2) ≤
        10 ^ 10 * 2 ^ 64 := Nat.mul_le_mul hlt.le hfits.le
    have hframes := hvalid.frames_lt
    have hquotient : Nat.ofDigitChars 10 digits 0 *
        (Metric.fraction timing .frames).1 +
          1 * (Metric.fraction timing .frames).2 < 2 ^ 128 := by
      change _ * (1000 * timing.frames.2) + 1 * timing.frames.1 < _
      omega
    rw [if_neg fun h => Nat.not_le.mpr hfits h.2, if_pos hfits, scaled_text,
      if_pos (by omega), if_pos (by omega), hunits, hunit,
      nearestQuotient_of_lt Nat.one_pos (Metric.fraction_pos hvalid _) hquotient,
      Metric.fraction_eq, Nat.cast_one, div_one]
  · rw [if_pos ⟨rfl, Nat.not_lt.mp hfits⟩, if_neg hfits]

theorem frames_count_iff (hvalid : timing.Valid) {clock : ClockTime}
    {count : Text × Option Text} (htext : trim text = clock.text)
    (hcount : clock.frames = some count) :
    (parseTime text timing = do
      let base ← parseTime clock.withoutFrames.text timing
      let part ← parseTime (count.1 ++ ['f']) timing
      addPart base part) ↔ 1000 * timing.frames.2 < 2 ^ 64 := by
  have hfield := (clock.frames_field count hcount).1
  have hmillis : clock.framesMillis timing = Nat.ofDigitChars 10 count.1 0 *
      Metric.millis timing .frames := by
    rw [ClockTime.framesMillis, hcount, Option.elim_some]
  have hbase : parseTime clock.withoutFrames.text timing = .ok clock.base := by
    rw [parseTime_of_clock (trim_withoutFrames clock), clockTime_text hvalid]
    exact if_pos rfl
  rw [parseTime_of_clock htext, hbase, ok_bind, parseTime_frames hvalid hfield,
    ← hmillis]
  constructor
  · intro h
    by_contra hlarge
    rw [if_neg hlarge] at h
    exact clockTime_ne_overflow hvalid _ h
  · intro hfits
    rw [if_pos hfits, clockTime_text hvalid, if_neg (by simp [hcount])]

/-- Where a clock time is read, it is read as its value if its fraction and
its frames round to what they come to. -/
theorem clockTime_eq_ok_iff (hvalid : timing.Valid) (clock : ClockTime)
    {total : ℕ} :
    clockTime clock.text timing = .ok total ↔
      clock.base + halfUp (clock.framesMillis timing) < 2 ^ 64 ∧
        total = clock.base + halfUp (clock.framesMillis timing) := by
  rw [clockTime_text hvalid]
  by_cases hframes : clock.frames = none
  · have hzero : clock.framesMillis timing = 0 := by
      rw [ClockTime.framesMillis, hframes, Option.elim_none]
    have hlt := clock.base_lt
    rw [if_pos hframes, hzero, halfUp_zero, Nat.add_zero, Except.ok.injEq,
      and_iff_right hlt, eq_comm]
  · rw [if_neg hframes, bind_eq_ok_iff]
    unfold word addPart
    constructor
    · rintro ⟨part, hpart, htotal⟩
      split at hpart
      · obtain rfl := Except.ok.inj hpart
        obtain ⟨hlt, rfl⟩ :=
          checkedAdd_eq_some_iff.mp (okOr_eq_ok_iff.mp htotal)
        exact ⟨hlt, rfl⟩
      · cases hpart
    · rintro ⟨hlt, rfl⟩
      refine ⟨halfUp (clock.framesMillis timing), if_pos (by omega), ?_⟩
      exact okOr_eq_ok_iff.mpr (checkedAdd_eq_some_iff.mpr ⟨hlt, rfl⟩)

theorem framesMillis_nonneg (timing : Timing) (clock : ClockTime) :
    0 ≤ clock.framesMillis timing := by
  unfold ClockTime.framesMillis Metric.millis
  cases clock.frames with
  | none => exact le_rfl
  | some count =>
      rw [Option.elim_some]
      positivity

theorem halfUp_clock (timing : Timing) (clock : ClockTime) :
    halfUp (TimeExpression.value timing (.clock clock)) =
      clock.whole +
        halfUp (clock.fractionMillis + clock.framesMillis timing) := by
  have hnonneg := add_nonneg clock.fractionMillis_nonneg
    (framesMillis_nonneg timing clock)
  rw [TimeExpression.value, add_assoc, halfUp_natCast_add _ hnonneg]

theorem ReadExactly.of_withinRange (hvalid : timing.Valid)
    (h : WithinRange timing text) : ReadExactly timing text where
  no_overflow := by
    unfold parseTime
    dsimp only
    split
    · exact clockTime_ne_overflow hvalid _
    · next hcolon =>
        have hcolon : (trim text).contains ':' = false := by
          simpa using hcolon
        intro hover
        rcases offsetTime_overflow_iff.mp hover with
          ⟨number, htext, hlarge⟩ | ⟨number, metric, htext, hover⟩
        · have hfits := h.offset_frames hcolon (by simp [htext])
          omega
        · exact h.sums number metric htext hover
  exact := by
    intro milliseconds hread
    constructor
    · unfold parseTime at hread
      dsimp only at hread
      split at hread
      · obtain ⟨clock, hclock⟩ := exists_clock_of_clockTime hread
        exact ⟨.clock clock, hclock⟩
      · obtain ⟨number, metric, htext⟩ := exists_number_of_offsetTime hread
        exact ⟨.offset number metric, htext⟩
    · intro expression htext
      cases expression with
      | clock clock =>
          rw [parseTime_of_clock htext, clockTime_eq_ok_iff hvalid] at hread
          obtain ⟨hlt, rfl⟩ := hread
          rw [halfUp_clock, h.rounding clock htext hlt, ← Nat.add_assoc]
          rfl
      | offset number metric =>
          have hcolon := offset_contains_colon number metric
          have htext : trim text = number.text ++ metric.suffix := htext
          rw [parseTime_of_offset (by rwa [htext]), htext] at hread
          exact offsetTime_number hvalid hread
  frames := fun clock count htext hcount =>
    (frames_count_iff hvalid htext hcount).mpr
      (h.clock_frames clock htext (by simp [hcount]))

theorem ReadExactly.withinRange (hvalid : timing.Valid)
    (h : ReadExactly timing text) : WithinRange timing text where
  offset_frames := by
    intro hcolon hlast
    by_contra hlarge
    obtain ⟨number, htext⟩ := List.getLast?_eq_some_iff.mp hlast
    refine h.no_overflow ?_
    rw [parseTime_of_offset hcolon, offsetTime_overflow_iff]
    exact .inl ⟨number, htext, Nat.not_lt.mp hlarge⟩
  clock_frames := by
    intro clock htext hframes
    obtain ⟨count, hcount⟩ := Option.ne_none_iff_exists'.mp hframes
    exact (frames_count_iff hvalid htext hcount).mp
      (h.frames clock count htext hcount)
  sums := by
    intro number metric htext hover
    refine h.no_overflow ?_
    rw [parseTime_of_offset (by rw [htext]; exact offset_contains_colon _ _),
      offsetTime_overflow_iff]
    exact .inr ⟨number, metric, htext, hover⟩
  rounding := by
    intro clock htext hlt
    have hread := (clockTime_eq_ok_iff hvalid clock).mpr ⟨hlt, rfl⟩
    rw [← parseTime_of_clock htext] at hread
    have hvalue := (h.exact _ hread).2 (.clock clock) htext
    rw [halfUp_clock] at hvalue
    unfold ClockTime.base at hvalue
    omega

end Reading

/-! ## Parameters -/

theorem parseUnsigned_lt {bound : ℕ} {text : Text} {n : ℕ}
    (h : parseUnsigned bound text = some n) : n < bound := by
  unfold parseUnsigned at h
  obtain ⟨hread, hn⟩ := Option.ite_none_right_eq_some.mp h
  rw [← Option.some.inj hn]
  exact hread.2.2

theorem frameRate_lt {rate : ℕ} {multiplier : Option Text} {frames : ℕ × ℕ}
    (hrate : rate < 2 ^ 64) (h : frameRate rate multiplier = .ok frames) :
    frames.1 < 2 ^ 64 ∧ frames.2 < 2 ^ 64 := by
  unfold frameRate at h
  split at h
  · obtain rfl := Except.ok.inj h
    exact ⟨hrate, Nat.one_lt_two_pow (by decide)⟩
  · next multiplier =>
      split at h
      · next top bottom rest hwords =>
          split at h
          · cases h
          · obtain rfl := Except.ok.inj h
            have hmem : some bottom ∈ (splitWhitespace multiplier).map
                (parseUnsigned (2 ^ 64)) := by
              rw [hwords]
              exact List.mem_cons_of_mem _ List.mem_cons_self
            obtain ⟨word, -, hword⟩ := List.mem_map.mp hmem
            exact ⟨(Nat.min_le_right _ _).trans_lt (by decide),
              parseUnsigned_lt hword⟩
      · cases h

/-- What the root makes of its attributes has neither a rate of zero nor a
number that is no word. -/
theorem valid_of_readParameters {attributes : String → Option Text}
    {timing : Timing} (h : readParameters attributes = .ok timing) :
    timing.Valid := by
  unfold readParameters at h
  dsimp only at h
  split at h
  · cases h
  obtain ⟨frames, hframes, h⟩ := bind_eq_ok_iff.mp h
  split at h
  · cases h
  next hzero =>
  split at h
  · cases h
  next hticks =>
  obtain rfl := Except.ok.inj h
  have hrate : ((attributes "frameRate").bind fun text =>
      parseUnsigned (2 ^ 64) (trim text)).getD 30 < 2 ^ 64 := by
    cases hcase : (attributes "frameRate").bind fun text =>
        parseUnsigned (2 ^ 64) (trim text) with
    | none => decide
    | some rate =>
        obtain ⟨text, -, hparsed⟩ := Option.bind_eq_some_iff.mp hcase
        exact parseUnsigned_lt hparsed
  obtain ⟨hnumerator, hdenominator⟩ := frameRate_lt hrate hframes
  exact
    { frames_pos := Nat.pos_of_ne_zero hzero
      frames_lt := hnumerator
      multiplier_lt := hdenominator
      ticks_pos := Nat.pos_of_ne_zero hticks }

/-- With the rates of any root that is accepted, exactly the texts within range
are read as the time they say. -/
theorem parseTime_readExactly_iff {attributes : String → Option Text}
    {timing : Timing} (h : readParameters attributes = .ok timing)
    (text : Text) : ReadExactly timing text ↔ WithinRange timing text :=
  ⟨ReadExactly.withinRange (valid_of_readParameters h),
    ReadExactly.of_withinRange (valid_of_readParameters h)⟩

/-- The root of a document at 30000/1001 frames a second. -/
def broadcastRoot : String → Option Text
  | "frameRate" => some "30".toList
  | "frameRateMultiplier" => some "1000 1001".toList
  | _ => none

theorem readParameters_broadcastRoot :
    readParameters broadcastRoot = .ok ⟨(30000, 1001), 30⟩ := by
  decide

theorem parseTime_readExactly_broadcast :
    ReadExactly ⟨(30000, 1001), 30⟩ "00:00:01:12".toList ↔
      WithinRange ⟨(30000, 1001), 30⟩ "00:00:01:12".toList :=
  parseTime_readExactly_iff readParameters_broadcastRoot _

/-- The root of a document whose multiplier has a large second number. -/
def slowRoot : String → Option Text
  | "frameRateMultiplier" => some "1000 18446744073709552".toList
  | _ => none

/-- The product of 1000 and the multiplier's second number is no word. -/
theorem slow_frame_overflows :
    readParameters slowRoot = .ok ⟨(30000, 18446744073709552), 1⟩ ∧
      parseTime ['1', 'f'] ⟨(30000, 18446744073709552), 1⟩ =
        .error .overflow ∧
      ¬ ReadExactly ⟨(30000, 18446744073709552), 1⟩ ['1', 'f'] := by
  have hover : parseTime ['1', 'f'] ⟨(30000, 18446744073709552), 1⟩ =
      .error .overflow := by
    decide
  refine ⟨by decide, hover, ?_⟩
  intro hread
  exact hread.no_overflow hover

end Segmentor.Ttml
