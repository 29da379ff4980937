import Segmentor.HttpMessages

/-!
# What a byte range means

The ranges of RFC 9110 that name a single stretch of a body, how they are
written, and how the written ones are read: a position may stand behind a
plus sign there, and must fit a word.
-/

namespace Segmentor

open General

/-! ## Ranges -/

/-- A single byte range. -/
inductive ByteRangeSpec
  | between (first last : ℕ)
  | onward (first : ℕ)
  | suffix (length : ℕ)
  deriving DecidableEq, Repr

namespace ByteRangeSpec

/-- The part of a body of `total` bytes the range names, if it can be
satisfied: a last position past the end, and a suffix longer than the body,
are cut to the body. -/
def interval (total : ℕ) : ByteRangeSpec → Option ByteInterval
  | between first last =>
      if first ≤ last ∧ first < total then
        some { start := first, stop := min (last + 1) total }
      else none
  | onward first =>
      if first < total then some { start := first, stop := total } else none
  | suffix length =>
      if 0 < length ∧ 0 < total then
        some { start := total - length, stop := total }
      else none

/-- The position that ends the range fits a word, and so does the one behind
it. -/
def Fits : ByteRangeSpec → Prop
  | between _ last => last + 1 < 2 ^ 64
  | onward _ => True
  | suffix length => length < 2 ^ 64

end ByteRangeSpec

/-! ## Written ranges -/

/-- One or more decimal digits. -/
def IsDigits (text : Text) : Prop :=
  text ≠ [] ∧ ∀ c ∈ text, c.isDigit = true

/-- A position: decimal digits, behind a plus sign or not. -/
inductive Position : Bool → Text → ℕ → Prop
  | plain {digits : Text} (h : IsDigits digits) :
      Position false digits (Nat.ofDigitChars 10 digits 0)
  | signed {digits : Text} (h : IsDigits digits) :
      Position true ('+' :: digits) (Nat.ofDigitChars 10 digits 0)

/-- A header's text and the single range it writes down, where the flag tells
whether a position is signed. -/
inductive Writes : Bool → Text → ByteRangeSpec → Prop
  | between {s t : Bool} {first last : Text} {a b : ℕ}
      (hfirst : Position s first a) (hlast : Position t last b) :
      Writes (s || t) ("bytes=".toList ++ (first ++ '-' :: last))
        (.between a b)
  | onward {s : Bool} {first : Text} {a : ℕ} (hfirst : Position s first a) :
      Writes s ("bytes=".toList ++ (first ++ ['-'])) (.onward a)
  | suffix {s : Bool} {length : Text} {n : ℕ}
      (hlength : Position s length n) :
      Writes s ("bytes=".toList ++ '-' :: length) (.suffix n)

/-! ## Reading positions -/

theorem isDigits_of_all {text : Text} (hne : text ≠ [])
    (h : text.all Char.isDigit = true) : IsDigits text :=
  ⟨hne, List.all_eq_true.mp h⟩

theorem IsDigits.head?_ne {digits : Text} (h : IsDigits digits) :
    digits.head? ≠ some '+' := by
  intro hhead
  have hdigit := h.2 '+' (List.mem_of_head? hhead)
  cases hdigit

theorem parseUnsigned_eq_some_iff {bound : ℕ} {text : Text} {n : ℕ} :
    parseUnsigned bound text = some n ↔
      (∃ s, Position s text n) ∧ n < bound := by
  unfold parseUnsigned
  dsimp only
  by_cases hplus : text.head? = some '+'
  · obtain ⟨tail, rfl⟩ := List.head?_eq_some_iff.mp hplus
    rw [if_pos hplus, List.tail_cons, Option.ite_none_right_eq_some,
      List.all_eq_true]
    constructor
    · rintro ⟨⟨hne, hall, hbound⟩, hn⟩
      obtain rfl := Option.some.inj hn
      exact ⟨⟨true, .signed ⟨hne, hall⟩⟩, hbound⟩
    · rintro ⟨⟨s, hposition⟩, hbound⟩
      cases hposition with
      | plain h => exact absurd hplus h.head?_ne
      | signed h => exact ⟨⟨h.1, h.2, hbound⟩, rfl⟩
  · rw [if_neg hplus, Option.ite_none_right_eq_some, List.all_eq_true]
    constructor
    · rintro ⟨⟨hne, hall, hbound⟩, hn⟩
      obtain rfl := Option.some.inj hn
      exact ⟨⟨false, .plain ⟨hne, hall⟩⟩, hbound⟩
    · rintro ⟨⟨s, hposition⟩, hbound⟩
      cases hposition with
      | plain h => exact ⟨⟨h.1, h.2, hbound⟩, rfl⟩
      | signed h => exact absurd rfl hplus

theorem Position.ne_nil {s : Bool} {text : Text} {n : ℕ}
    (h : Position s text n) : text ≠ [] := by
  cases h with
  | plain h => exact h.1
  | signed h => simp

theorem Position.free {s : Bool} {text : Text} {n : ℕ}
    (h : Position s text n) {c : Char} (hdigit : c.isDigit = false)
    (hplus : c ≠ '+') : c ∉ text := by
  intro hc
  cases h with
  | plain h =>
      rw [h.2 c hc] at hdigit
      cases hdigit
  | signed h =>
      rcases List.mem_cons.mp hc with rfl | hc
      · exact hplus rfl
      · rw [h.2 c hc] at hdigit
        cases hdigit

theorem Position.no_hyphen {s : Bool} {text : Text} {n : ℕ}
    (h : Position s text n) : '-' ∉ text :=
  h.free rfl (by decide)

theorem Position.no_comma {s : Bool} {text : Text} {n : ℕ}
    (h : Position s text n) : ',' ∉ text :=
  h.free rfl (by decide)

/-- A text is a position in one way only. -/
theorem Position.unique {s t : Bool} {text : Text} {m n : ℕ}
    (h : Position s text m) (hother : Position t text n) : s = t ∧ m = n := by
  cases h with
  | plain h =>
      cases hother with
      | plain => exact ⟨rfl, rfl⟩
      | signed => exact absurd rfl h.head?_ne
  | signed h =>
      cases hother with
      | plain hother => exact absurd rfl hother.head?_ne
      | signed => exact ⟨rfl, rfl⟩

/-! ## Reading ranges -/

theorem exists_parts_of_rangeInterval {value : Text} {total : ℕ}
    {interval : ByteInterval}
    (h : rangeInterval value total = some interval) :
    ∃ start stop, value = "bytes=".toList ++ (start ++ '-' :: stop) ∧
      '-' ∉ start ∧ ',' ∉ start ++ '-' :: stop := by
  unfold rangeInterval at h
  dsimp only at h
  split at h
  swap
  · cases h
  next hprefix =>
  obtain ⟨rest, rfl⟩ := List.isPrefixOf_iff_prefix.mp hprefix
  replace h : (if rest.contains ',' = true then none else _) =
    some interval := h
  split at h
  · cases h
  next hcomma =>
  obtain ⟨⟨start, stop⟩, hparts, -⟩ := Option.bind_eq_some_iff.mp h
  obtain ⟨hstart, a, ha, rfl⟩ := splitAtFirst_eq_some_iff.mp hparts
  obtain rfl : a = '-' := by simpa using ha
  refine ⟨start, stop, rfl, ?_, by simpa using hcomma⟩
  intro hmem
  have hfree := hstart '-' hmem
  cases hfree

/-- How the two parts are read: a position that must be there fits a word. -/
theorem rangeInterval_parts {start stop : Text} {total : ℕ}
    (hhyphen : '-' ∉ start) (hcomma : ',' ∉ start ++ '-' :: stop) :
    rangeInterval ("bytes=".toList ++ (start ++ '-' :: stop)) total =
      if start = [] then
        (parseUnsigned (2 ^ 64) stop).bind fun length =>
          (ByteRangeSpec.suffix length).interval total
      else
        (parseUnsigned (2 ^ 64) start).bind fun first =>
          if stop = [] then (ByteRangeSpec.onward first).interval total
          else
            (parseUnsigned (2 ^ 64) stop).bind fun last =>
              if last + 1 < 2 ^ 64 then
                (ByteRangeSpec.between first last).interval total
              else none := by
  have hsplit : splitAtFirst (· == '-') (start ++ '-' :: stop) =
      some (start, stop) := by
    apply splitAtFirst_append _ rfl
    intro c hc
    rw [beq_eq_false_iff_ne]
    rintro rfl
    exact hhyphen hc
  have hdrop : ("bytes=".toList ++ (start ++ '-' :: stop)).drop 6 =
      start ++ '-' :: stop := rfl
  unfold rangeInterval ByteRangeSpec.interval
  simp only [hdrop]
  rw [if_pos (by simp)]
  simp only [Option.bind_eq_bind, Option.bind_some]
  rw [if_neg (by simpa using hcomma), hsplit, Option.bind_some]
  split
  · congr 1
    funext length
    split_ifs <;> first | rfl | omega
  · congr 1
    funext first
    split
    · split_ifs <;> first | rfl | omega
    · congr 1
      funext last
      unfold checkedAdd
      split_ifs <;> simp <;> omega

/-- What is read of a text: the range it writes down, signed or not, where the
range fits. -/
theorem rangeInterval_eq_some_iff {value : Text} {total : ℕ}
    {interval : ByteInterval} (htotal : total < 2 ^ 64) :
    rangeInterval value total = some interval ↔
      ∃ s range, Writes s value range ∧ range.Fits ∧
        range.interval total = some interval := by
  constructor
  · intro h
    obtain ⟨start, stop, rfl, hhyphen, hcomma⟩ :=
      exists_parts_of_rangeInterval h
    rw [rangeInterval_parts hhyphen hcomma] at h
    by_cases hstart : start = []
    · rw [if_pos hstart] at h
      obtain ⟨length, hlength, hinterval⟩ := Option.bind_eq_some_iff.mp h
      obtain ⟨⟨s, hposition⟩, hfits⟩ := parseUnsigned_eq_some_iff.mp hlength
      subst hstart
      exact ⟨s, _, .suffix hposition, hfits, hinterval⟩
    rw [if_neg hstart] at h
    obtain ⟨first, hfirst, hread⟩ := Option.bind_eq_some_iff.mp h
    obtain ⟨⟨s, hfirst⟩, -⟩ := parseUnsigned_eq_some_iff.mp hfirst
    by_cases hstop : stop = []
    · rw [if_pos hstop] at hread
      subst hstop
      exact ⟨s, _, .onward hfirst, trivial, hread⟩
    rw [if_neg hstop] at hread
    obtain ⟨last, hlast, hread⟩ := Option.bind_eq_some_iff.mp hread
    obtain ⟨⟨t, hlast⟩, -⟩ := parseUnsigned_eq_some_iff.mp hlast
    obtain ⟨hfits, hinterval⟩ := Option.ite_none_right_eq_some.mp hread
    exact ⟨s || t, _, .between hfirst hlast, hfits, hinterval⟩
  · rintro ⟨s, range, hwrites, hfits, hinterval⟩
    cases hwrites with
    | @between s t start stop first last hfirst hlast =>
        obtain ⟨hordered, hinside⟩ : first ≤ last ∧ first < total := by
          unfold ByteRangeSpec.interval at hinterval
          exact (Option.ite_none_right_eq_some.mp hinterval).1
        have hfits : last + 1 < 2 ^ 64 := hfits
        rw [rangeInterval_parts hfirst.no_hyphen
            (by simp [hfirst.no_comma, hlast.no_comma]),
          if_neg hfirst.ne_nil,
          parseUnsigned_eq_some_iff.mpr ⟨⟨s, hfirst⟩, by omega⟩,
          Option.bind_some, if_neg hlast.ne_nil,
          parseUnsigned_eq_some_iff.mpr ⟨⟨t, hlast⟩, by omega⟩,
          Option.bind_some, if_pos hfits, hinterval]
    | @onward s start first hfirst =>
        have hinside : first < total := by
          unfold ByteRangeSpec.interval at hinterval
          exact (Option.ite_none_right_eq_some.mp hinterval).1
        rw [rangeInterval_parts hfirst.no_hyphen
            (by simp [hfirst.no_comma]),
          if_neg hfirst.ne_nil,
          parseUnsigned_eq_some_iff.mpr ⟨⟨s, hfirst⟩, by omega⟩,
          Option.bind_some, if_pos rfl, hinterval]
    | @suffix s stop length hlength =>
        have hread := @rangeInterval_parts [] stop total (by simp)
          (by simp [hlength.no_comma])
        rw [List.nil_append] at hread
        rw [hread, if_pos rfl,
          parseUnsigned_eq_some_iff.mpr ⟨⟨s, hlength⟩, hfits⟩,
          Option.bind_some, hinterval]

/-- The parts around the first hyphen of a range. -/
theorem parts_unique {start stop other rest : Text}
    (h : "bytes=".toList ++ (start ++ '-' :: stop) =
      "bytes=".toList ++ (other ++ '-' :: rest))
    (hstart : '-' ∉ start) (hother : '-' ∉ other) :
    start = other ∧ stop = rest := by
  have hsplit : ∀ front back : Text, '-' ∉ front →
      splitAtFirst (· == '-') (front ++ '-' :: back) = some (front, back) := by
    intro front back hfront
    apply splitAtFirst_append _ rfl
    intro c hc
    rw [beq_eq_false_iff_ne]
    rintro rfl
    exact hfront hc
  have hfound := hsplit start stop hstart
  rw [List.append_cancel_left h, hsplit other rest hother] at hfound
  obtain ⟨rfl, rfl⟩ := Prod.mk.inj (Option.some.inj hfound)
  exact ⟨rfl, rfl⟩

/-- A text writes down one range at most. -/
theorem Writes.unique {s t : Bool} {value : Text} {range other : ByteRangeSpec}
    (h : Writes s value range) (hother : Writes t value other) :
    s = t ∧ range = other := by
  generalize hsame : value = text at hother
  cases h with
  | between hfirst hlast =>
      cases hother with
      | between hstart hstop =>
          obtain ⟨rfl, rfl⟩ :=
            parts_unique hsame hfirst.no_hyphen hstart.no_hyphen
          obtain ⟨rfl, rfl⟩ := hfirst.unique hstart
          obtain ⟨rfl, rfl⟩ := hlast.unique hstop
          exact ⟨rfl, rfl⟩
      | onward hstart =>
          exact absurd (parts_unique hsame hfirst.no_hyphen
            hstart.no_hyphen).2 hlast.ne_nil
      | suffix hlength =>
          exact absurd (@parts_unique _ _ [] _ hsame hfirst.no_hyphen
            (by simp)).1 hfirst.ne_nil
  | onward hfirst =>
      cases hother with
      | between hstart hstop =>
          exact absurd (parts_unique hsame hfirst.no_hyphen
            hstart.no_hyphen).2.symm hstop.ne_nil
      | onward hstart =>
          obtain ⟨rfl, -⟩ :=
            parts_unique hsame hfirst.no_hyphen hstart.no_hyphen
          obtain ⟨rfl, rfl⟩ := hfirst.unique hstart
          exact ⟨rfl, rfl⟩
      | suffix hlength =>
          exact absurd (@parts_unique _ _ [] _ hsame hfirst.no_hyphen
            (by simp)).1 hfirst.ne_nil
  | suffix hlength =>
      cases hother with
      | between hstart hstop =>
          exact absurd (@parts_unique [] _ _ _ hsame (by simp)
            hstart.no_hyphen).1.symm hstart.ne_nil
      | onward hstart =>
          exact absurd (@parts_unique [] _ _ _ hsame (by simp)
            hstart.no_hyphen).1.symm hstart.ne_nil
      | suffix hother =>
          obtain ⟨-, rfl⟩ := @parts_unique [] _ [] _ hsame (by simp) (by simp)
          obtain ⟨rfl, rfl⟩ := hlength.unique hother
          exact ⟨rfl, rfl⟩

theorem Position.headerText {s : Bool} {text : Text} {n : ℕ}
    (h : Position s text n) : ∀ c ∈ text, isHeaderText c = true := by
  have hdigit : ∀ c : Char, c.isDigit = true → isHeaderText c = true := by
    intro c hc
    have hbounds : 48 ≤ c.toNat ∧ c.toNat ≤ 57 := by
      simpa [Char.isDigit, UInt32.le_iff_toNat_le] using hc
    unfold isHeaderText isVisibleAscii
    simp only [Bool.or_eq_true, Bool.and_eq_true, decide_eq_true_eq]
    omega
  intro c hc
  cases h with
  | plain h => exact hdigit c (h.2 c hc)
  | signed h =>
      rcases List.mem_cons.mp hc with rfl | hc
      · rfl
      · exact hdigit c (h.2 c hc)

theorem Writes.headerText {s : Bool} {value : Text} {range : ByteRangeSpec}
    (h : Writes s value range) : value.all isHeaderText = true := by
  have hunit : "bytes=".toList.all isHeaderText = true := by decide
  rw [List.all_eq_true] at hunit ⊢
  intro c hc
  cases h with
  | between hfirst hlast =>
      simp only [List.mem_append, List.mem_cons] at hc
      rcases hc with hc | hc | rfl | hc
      · exact hunit c hc
      · exact hfirst.headerText c hc
      · rfl
      · exact hlast.headerText c hc
  | onward hfirst =>
      simp only [List.mem_append, List.mem_singleton] at hc
      rcases hc with hc | hc | rfl
      · exact hunit c hc
      · exact hfirst.headerText c hc
      · rfl
  | suffix hlength =>
      simp only [List.mem_append, List.mem_cons] at hc
      rcases hc with hc | rfl | hc
      · exact hunit c hc
      · rfl
      · exact hlength.headerText c hc

/-! ## Requests -/

/-- The request's range, where it is not conditional on another tag. -/
def freshRange (headers : Headers) (etag : HeaderValue) : Option HeaderValue :=
  if (getFirst headers .ifRange).any fun condition => condition != etag then
    none
  else getFirst headers .range

/-- A fresh range that writes down a satisfiable range is served as it
stands; every other is refused; without one the whole body is. -/
structure RangeObeyed (headers : Headers) (total : ℕ) (etag : HeaderValue) :
    Prop where
  whole : freshRange headers etag = none →
    requestedRange headers total etag = .ok none
  served_iff : ∀ value, freshRange headers etag = some value →
    ∀ interval, requestedRange headers total etag = .ok (some interval) ↔
      ∃ range, Writes false value range ∧
        range.interval total = some interval
  refused : ∀ value, freshRange headers etag = some value →
    (∀ range, Writes false value range → range.interval total = none) →
    requestedRange headers total etag = .error ()
  inside : ∀ interval, requestedRange headers total etag = .ok (some interval) →
    interval.start < interval.stop ∧ interval.stop ≤ total

/-- A text that names a part of the body, signs aside, has no sign exactly
where its positions fit a word. -/
def ReadAsWritten (value : Text) (total : ℕ) : Prop :=
  ∀ s range, Writes s value range → (range.interval total).isSome = true →
    (range.Fits ↔ s = false)

theorem requestedRange_whole {headers : Headers} {total : ℕ}
    {etag : HeaderValue} (h : freshRange headers etag = none) :
    requestedRange headers total etag = .ok none := by
  unfold freshRange at h
  unfold requestedRange
  split at h
  · next hstale =>
      simp only [hstale, if_true]
      split
      · rfl
      · rfl
  · rw [h]

/-- A header's text that is not one is not a range either. -/
theorem requestedRange_fresh {headers : Headers} {total : ℕ}
    {etag : HeaderValue} {value : HeaderValue}
    (h : freshRange headers etag = some value) (htotal : total < 2 ^ 64) :
    requestedRange headers total etag =
      match rangeInterval value total with
      | some interval => .ok (some interval)
      | none => .error () := by
  unfold freshRange at h
  split at h
  · cases h
  next hfresh =>
  unfold requestedRange
  rw [h]
  simp only [hfresh, Bool.false_eq_true, if_false]
  by_cases htext : value.all isHeaderText = true
  · have hread : headerToStr value = some value := if_pos htext
    cases hinterval : rangeInterval value total with
    | none => simp only [hread, Option.bind_some, hinterval]
    | some interval => simp only [hread, Option.bind_some, hinterval]
  · rw [headerToStr, if_neg htext, Option.bind_none]
    cases hread : rangeInterval value total with
    | none => rfl
    | some interval =>
        obtain ⟨s, range, hwrites, -⟩ :=
          (rangeInterval_eq_some_iff htotal).mp hread
        exact absurd hwrites.headerText htext

theorem ByteRangeSpec.interval_inside {range : ByteRangeSpec} {total : ℕ}
    {interval : ByteInterval} (h : range.interval total = some interval) :
    interval.start < interval.stop ∧ interval.stop ≤ total := by
  cases range with
  | between first last =>
      obtain ⟨hinside, hinterval⟩ := Option.ite_none_right_eq_some.mp h
      obtain rfl := Option.some.inj hinterval
      dsimp only
      omega
  | onward first =>
      obtain ⟨hinside, hinterval⟩ := Option.ite_none_right_eq_some.mp h
      obtain rfl := Option.some.inj hinterval
      exact ⟨hinside, Nat.le_refl _⟩
  | suffix length =>
      obtain ⟨hinside, hinterval⟩ := Option.ite_none_right_eq_some.mp h
      obtain rfl := Option.some.inj hinterval
      dsimp only
      omega

/-- Ranges mean what the standard says exactly where no sign is accepted and
no large position refused. -/
theorem range_requests_obeyed_iff {headers : Headers} {total : ℕ}
    {etag : HeaderValue} (htotal : total < 2 ^ 64) :
    RangeObeyed headers total etag ↔
      ∀ value, freshRange headers etag = some value →
        ReadAsWritten value total := by
  constructor
  · intro h value hvalue s range hwrites hsome
    obtain ⟨interval, hinterval⟩ := Option.isSome_iff_exists.mp hsome
    have hserved := h.served_iff value hvalue interval
    rw [requestedRange_fresh hvalue htotal] at hserved
    constructor
    · intro hfits
      have hread := (rangeInterval_eq_some_iff htotal).mpr
        ⟨s, range, hwrites, hfits, hinterval⟩
      rw [hread] at hserved
      obtain ⟨plain, hplain, -⟩ := hserved.mp rfl
      exact (hwrites.unique hplain).1
    · rintro rfl
      have hok := hserved.mpr ⟨range, hwrites, hinterval⟩
      cases hread : rangeInterval value total with
      | none =>
          rw [hread] at hok
          cases hok
      | some found =>
          obtain ⟨t, other, hother, hfits, -⟩ :=
            (rangeInterval_eq_some_iff htotal).mp hread
          rwa [(hwrites.unique hother).2]
  · intro h
    constructor
    · exact requestedRange_whole
    · intro value hvalue interval
      rw [requestedRange_fresh hvalue htotal]
      constructor
      · intro hok
        cases hread : rangeInterval value total with
        | none =>
            rw [hread] at hok
            cases hok
        | some found =>
            rw [hread] at hok
            obtain rfl := Option.some.inj (Except.ok.inj hok)
            obtain ⟨s, range, hwrites, hfits, hinterval⟩ :=
              (rangeInterval_eq_some_iff htotal).mp hread
            obtain rfl := (h value hvalue s range hwrites
              (by rw [hinterval]; rfl)).mp hfits
            exact ⟨range, hwrites, hinterval⟩
      · rintro ⟨range, hwrites, hinterval⟩
        have hfits := (h value hvalue false range hwrites
          (by rw [hinterval]; rfl)).mpr rfl
        rw [(rangeInterval_eq_some_iff htotal).mpr
          ⟨false, range, hwrites, hfits, hinterval⟩]
    · intro value hvalue hnone
      rw [requestedRange_fresh hvalue htotal]
      cases hread : rangeInterval value total with
      | none => rfl
      | some found =>
          obtain ⟨s, range, hwrites, hfits, hinterval⟩ :=
            (rangeInterval_eq_some_iff htotal).mp hread
          obtain rfl := (h value hvalue s range hwrites
            (by rw [hinterval]; rfl)).mp hfits
          rw [hnone range hwrites] at hinterval
          cases hinterval
    · intro interval hok
      cases hvalue : freshRange headers etag with
      | none =>
          rw [requestedRange_whole hvalue] at hok
          cases hok
      | some value =>
          rw [requestedRange_fresh hvalue htotal] at hok
          cases hread : rangeInterval value total with
          | none =>
              rw [hread] at hok
              cases hok
          | some found =>
              rw [hread] at hok
              obtain rfl := Option.some.inj (Except.ok.inj hok)
              obtain ⟨s, range, -, -, hinterval⟩ :=
                (rangeInterval_eq_some_iff htotal).mp hread
              exact ByteRangeSpec.interval_inside hinterval

/-- A request for all from the first byte on, its last position the largest
word. -/
def wholeWord : Headers :=
  [(.range, "bytes=0-18446744073709551615".toList)]

/-- A request for five bytes, with a sign before the first position. -/
def signedFive : Headers :=
  [(.range, "bytes=+0-4".toList)]

theorem wholeWord_refused_signedFive_served :
    ¬ RangeObeyed wholeWord 10 [] ∧ ¬ RangeObeyed signedFive 10 [] := by
  constructor
  · intro h
    have hwrites : Writes false "bytes=0-18446744073709551615".toList
        (.between 0 18446744073709551615) :=
      @Writes.between _ _ ['0'] "18446744073709551615".toList _ _
        (.plain (isDigits_of_all (by decide) (by decide)))
        (.plain (isDigits_of_all (by decide) (by decide)))
    have hserved := (h.served_iff _ rfl ⟨0, 10⟩).mpr ⟨_, hwrites, by decide⟩
    have hrefused : requestedRange wholeWord 10 [] = .error () := by decide
    rw [hrefused] at hserved
    cases hserved
  · intro h
    have hwrites : Writes true "bytes=+0-4".toList (.between 0 4) :=
      @Writes.between _ _ ['+', '0'] ['4'] _ _
        (.signed (isDigits_of_all (by decide) (by decide)))
        (.plain (isDigits_of_all (by decide) (by decide)))
    have hserved : requestedRange signedFive 10 [] = .ok (some ⟨0, 5⟩) := by
      decide
    obtain ⟨range, hplain, -⟩ := (h.served_iff _ rfl ⟨0, 5⟩).mp hserved
    cases (hwrites.unique hplain).1

/-- The same bytes, asked for without a sign. -/
theorem range_requests_obeyed_iff_five :
    RangeObeyed [(.range, "bytes=0-4".toList)] 10 [] ↔
      ∀ value, freshRange [(.range, "bytes=0-4".toList)] [] = some value →
        ReadAsWritten value 10 :=
  range_requests_obeyed_iff (by decide)

end Segmentor
