import Mathlib.Tactic

/-!
# Numerals

Numbers read off the front of a text, digit by digit in a base of at most 36,
and the numerals `Nat.toDigits` writes, which are read back.
-/

namespace Segmentor.General

/-! ## Letters and digits -/

theorem isUpper_iff {c : Char} :
    c.isUpper = true ↔ 65 ≤ c.toNat ∧ c.toNat ≤ 90 :=
  decide_eq_true_iff

theorem isLower_iff {c : Char} :
    c.isLower = true ↔ 97 ≤ c.toNat ∧ c.toNat ≤ 122 :=
  Bool.and_eq_true_iff.trans (and_congr decide_eq_true_iff decide_eq_true_iff)

theorem isDigit_iff {c : Char} :
    c.isDigit = true ↔ 48 ≤ c.toNat ∧ c.toNat ≤ 57 :=
  Bool.and_eq_true_iff.trans (and_congr decide_eq_true_iff decide_eq_true_iff)

theorem isAlphanum_iff {c : Char} :
    c.isAlphanum = true ↔
      (c.isUpper = true ∨ c.isLower = true) ∨ c.isDigit = true :=
  Bool.or_eq_true_iff.trans (or_congr_left Bool.or_eq_true_iff)

/-! ## Reading -/

def digitValue (c : Char) : Option ℕ :=
  if '0' ≤ c ∧ c ≤ '9' then some (c.toNat - 48)
  else if 'a' ≤ c ∧ c ≤ 'z' then some (c.toNat - 87)
  else if 'A' ≤ c ∧ c ≤ 'Z' then some (c.toNat - 55)
  else none

/-- The value of a digit below `radix`. -/
def toDigit (radix : ℕ) (c : Char) : Option ℕ :=
  (digitValue c).filter (· < radix)

/-- The digits in front, and what follows them. -/
def readDigits (radix : ℕ) : List Char → List ℕ × List Char
  | [] => ([], [])
  | c :: rest =>
      match toDigit radix c with
      | some digit =>
          (digit :: (readDigits radix rest).1, (readDigits radix rest).2)
      | none => ([], c :: rest)

def valueOf (radix : ℕ) (digits : List ℕ) : ℕ :=
  digits.foldl (fun value digit => value * radix + digit) 0

/-- A number of at most `maxDigits` digits below `bound`, and what follows
it. -/
def readNumber (radix maxDigits : ℕ) (allowZeroPrefix : Bool) (bound : ℕ)
    (text : List Char) : Option (ℕ × List Char) :=
  let (digits, rest) := readDigits radix text
  if digits = [] ∨ maxDigits < digits.length then none
  else if allowZeroPrefix = false ∧ text.head? = some '0' ∧
      1 < digits.length then none
  else if valueOf radix digits < bound then some (valueOf radix digits, rest)
  else none

/-! ## What is written -/

theorem toDigit_digitChar {radix digit : ℕ} (hdigit : digit < radix)
    (hradix : radix ≤ 16) : toDigit radix digit.digitChar = some digit := by
  have hvalue : ∀ d : Fin 16, digitValue d.val.digitChar = some d.val := by
    decide
  rw [toDigit, hvalue ⟨digit, by omega⟩]
  exact Option.filter_eq_some_iff.mpr ⟨rfl, by simpa using hdigit⟩

/-- No digit stands in front. -/
def NoDigit (radix : ℕ) (text : List Char) : Prop :=
  ∀ c ∈ text.head?, toDigit radix c = none

theorem readDigits_of_noDigit {radix : ℕ} {text : List Char}
    (h : NoDigit radix text) : readDigits radix text = ([], text) := by
  cases text with
  | nil => rfl
  | cons c rest =>
      rw [readDigits, h c rfl]

theorem readDigits_append {radix : ℕ} (hradix : radix ≤ 16) {digits : List ℕ}
    (hdigits : ∀ digit ∈ digits, digit < radix) {rest : List Char}
    (hrest : NoDigit radix rest) :
    readDigits radix (digits.map Nat.digitChar ++ rest) = (digits, rest) := by
  induction digits with
  | nil => exact readDigits_of_noDigit hrest
  | cons digit digits ih =>
      obtain ⟨hdigit, hdigits⟩ := List.forall_mem_cons.mp hdigits
      rw [List.map_cons, List.cons_append, readDigits,
        toDigit_digitChar hdigit hradix, ih hdigits]

theorem readDigits_suffix (radix : ℕ) (text : List Char) :
    (readDigits radix text).2 <:+ text := by
  induction text with
  | nil => exact List.suffix_rfl
  | cons c rest ih =>
      unfold readDigits
      split
      · exact ih.trans (List.suffix_cons c rest)
      · exact List.suffix_rfl

theorem readNumber_suffix {radix maxDigits bound n : ℕ}
    {allowZeroPrefix : Bool} {text rest : List Char}
    (h : readNumber radix maxDigits allowZeroPrefix bound text =
      some (n, rest)) : rest <:+ text := by
  unfold readNumber at h
  dsimp only at h
  split_ifs at h
  obtain ⟨-, rfl⟩ := Prod.mk.inj (Option.some.inj h)
  exact readDigits_suffix radix text

/-- Nothing is read where no digit stands in front. -/
theorem readNumber_of_noDigit {radix maxDigits bound : ℕ}
    {allowZeroPrefix : Bool} {text : List Char} (h : NoDigit radix text) :
    readNumber radix maxDigits allowZeroPrefix bound text = none := by
  unfold readNumber
  rw [readDigits_of_noDigit h]
  rfl

/-- The digits of a number from the left: none is too large, they have its
value, and only zero itself starts with a zero. -/
structure Writes (radix n : ℕ) (digits : List ℕ) : Prop where
  lt : ∀ digit ∈ digits, digit < radix
  value : valueOf radix digits = n
  head : 0 < n → digits.head? ≠ some 0

theorem exists_writes {radix : ℕ} (hradix : 1 < radix) (n : ℕ) :
    ∃ digits, Nat.toDigits radix n = digits.map Nat.digitChar ∧
      Writes radix n digits := by
  induction n using Nat.strong_induction_on with
  | h n ih =>
      by_cases hn : n < radix
      · refine ⟨[n], Nat.toDigits_of_lt_base hn, ?_, ?_, ?_⟩
        · simpa using hn
        · simp [valueOf]
        · intro hpos
          simpa using hpos.ne'
      · have hle := Nat.le_of_not_lt hn
        obtain ⟨digits, htext, hlt, hvalue, hhead⟩ :=
          ih (n / radix) (Nat.div_lt_self (by omega) hradix)
        have hquotient : 0 < n / radix := Nat.div_pos hle (by omega)
        refine ⟨digits ++ [n % radix], ?_, ?_, ?_, ?_⟩
        · rw [Nat.toDigits_of_base_le hradix hle, htext, List.map_append]
          rfl
        · intro digit hdigit
          rcases List.mem_append.mp hdigit with hdigit | hdigit
          · exact hlt digit hdigit
          · rw [List.mem_singleton.mp hdigit]
            exact Nat.mod_lt n (by omega)
        · rw [valueOf, List.foldl_append]
          change valueOf radix digits * radix + n % radix = n
          rw [hvalue, Nat.div_add_mod']
        · intro _
          have hne : digits ≠ [] := by
            rintro rfl
            rw [← hvalue] at hquotient
            exact absurd hquotient (lt_irrefl 0)
          rw [List.head?_append_of_ne_nil _ hne]
          exact hhead hquotient

/-- A numeral is read back, where no digit follows it. -/
theorem readNumber_toDigits {radix maxDigits bound n : ℕ}
    {allowZeroPrefix : Bool} (hradix : 1 < radix) (hle : radix ≤ 16)
    (hmax : 0 < maxDigits) (hn : n < radix ^ maxDigits) (hbound : n < bound)
    {rest : List Char} (hrest : NoDigit radix rest) :
    readNumber radix maxDigits allowZeroPrefix bound
      (Nat.toDigits radix n ++ rest) = some (n, rest) := by
  have hlength := (Nat.length_toDigits_le_iff hradix hmax).mpr hn
  obtain ⟨digits, htext, hlt, hvalue, hhead⟩ := exists_writes hradix n
  have hne : digits ≠ [] := by
    rintro rfl
    exact Nat.toDigits_ne_nil htext
  rw [htext, List.length_map] at hlength
  have hprefix : ¬ (allowZeroPrefix = false ∧
      (digits.map Nat.digitChar ++ rest).head? = some '0' ∧
        1 < digits.length) := by
    rintro ⟨-, hzero, hlong⟩
    obtain ⟨digit, others, rfl⟩ := List.exists_cons_of_ne_nil hne
    have hdigit : digit = 0 := by
      have hfirst := toDigit_digitChar (hlt digit (by simp)) hle
      rw [Option.some.inj hzero] at hfirst
      have hfound := (Option.filter_eq_some_iff.mp hfirst).1
      exact (Option.some.inj hfound).symm
    rcases Nat.eq_zero_or_pos n with rfl | hpos
    · have hsame := congrArg List.length htext
      rw [Nat.toDigits_zero, List.length_map] at hsame
      exact absurd hsame hlong.ne
    · exact hhead hpos (by rw [hdigit]; rfl)
  unfold readNumber
  rw [htext, readDigits_append hle hlt hrest]
  dsimp only
  rw [if_neg (by simp [hne, hlength]), if_neg hprefix, hvalue,
    if_pos hbound]

end Segmentor.General
