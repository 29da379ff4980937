import Segmentor.General.Numerals
import Segmentor.IpAddresses
import Segmentor.SubtitleText

/-!
# Addresses as texts

The standard library's reader of IP addresses, and the canonical form in which
a URL has them: four decimal numbers, or eight hexadecimal ones with the
longest run of zeros left out.  A canonical text is read as its address.
-/

namespace Segmentor

open General

/-! ## Reading -/

/-- What `inner` reads, behind a separator except at the start. -/
def readSeparator {α : Type} (separator : Char) (index : ℕ)
    (inner : Text → Option (α × Text)) (text : Text) : Option (α × Text) :=
  if index = 0 then inner text
  else
    match text with
    | [] => none
    | c :: rest => if c = separator then inner rest else none

def readOctet (text : Text) : Option (UInt8 × Text) :=
  (readNumber 10 3 false (2 ^ 8) text).map fun (n, rest) =>
    (UInt8.ofNat n, rest)

def readSegment (text : Text) : Option (UInt16 × Text) :=
  (readNumber 16 4 true (2 ^ 16) text).map fun (n, rest) =>
    (UInt16.ofNat n, rest)

def readIpv4Addr (text : Text) : Option (Ipv4Addr × Text) := do
  let (a, text) ← readSeparator '.' 0 readOctet text
  let (b, text) ← readSeparator '.' 1 readOctet text
  let (c, text) ← readSeparator '.' 2 readOctet text
  let (d, text) ← readSeparator '.' 3 readOctet text
  some (⟨a, b, c, d⟩, text)

/-- What is read of an IPv6 address, from segment `index` on and `left` at
most, and whether it ends with an IPv4 address. -/
def readGroups : (left index : ℕ) → Text → List UInt16 × Bool × Text
  | 0, _, text => ([], false, text)
  | left + 1, index, text =>
      -- An embedded address needs two segments.
      let embedded := if left = 0 then none
        else readSeparator ':' index readIpv4Addr text
      match embedded with
      | some (v4, rest) =>
          ([v4.a.toUInt16 * 256 + v4.b.toUInt16,
            v4.c.toUInt16 * 256 + v4.d.toUInt16], true, rest)
      | none =>
          match readSeparator ':' index readSegment text with
          | some (segment, rest) =>
              let (segments, ended, rest) := readGroups left (index + 1) rest
              (segment :: segments, ended, rest)
          | none => ([], false, text)

/-- The part before `::`, the part after it, and zeros between them. -/
def Ipv6Addr.fill (head tail : List UInt16)
    (h : head.length + tail.length ≤ 8) : Ipv6Addr where
  segments := head ++
    (List.replicate (8 - (head.length + tail.length)) 0 ++ tail)
  length_eq := by
    simp only [List.length_append, List.length_replicate]
    omega

def readIpv6Addr (text : Text) : Option (Ipv6Addr × Text) :=
  let (head, ended, text) := readGroups 8 0 text
  if hhead : head.length = 8 then some (⟨head, hhead⟩, text)
  else if ended then none
  else
    match text with
    | ':' :: ':' :: text =>
        let tail := readGroups (8 - (head.length + 1)) 0 text
        if h : head.length + tail.1.length ≤ 8 then
          some (.fill head tail.1 h, tail.2.2)
        else none
    | _ => none

def readIpAddr (text : Text) : Option (IpAddr × Text) :=
  match readIpv4Addr text with
  | some (address, rest) => some (.v4 address, rest)
  | none => (readIpv6Addr text).map fun (address, rest) => (.v6 address, rest)

/-- An address that is the whole text. -/
def parseIpAddr (text : Text) : Option IpAddr :=
  match readIpAddr text with
  | some (address, []) => some address
  | _ => none

/-! ## The canonical form -/

def ipv4Text (address : Ipv4Addr) : Text :=
  Nat.toDigits 10 address.a.toNat ++ '.' ::
    (Nat.toDigits 10 address.b.toNat ++ '.' ::
      (Nat.toDigits 10 address.c.toNat ++ '.' ::
        Nat.toDigits 10 address.d.toNat))

/-- Segments in hexadecimal, each behind a colon. -/
def colonGroups (segments : List UInt16) : Text :=
  segments.flatMap fun segment => ':' :: Nat.toDigits 16 segment.toNat

/-- Segments in hexadecimal with colons between them. -/
def groupsText : List UInt16 → Text
  | [] => []
  | segment :: segments =>
      Nat.toDigits 16 segment.toNat ++ colonGroups segments

/-- Where a run of two or more zeros starts, and how long it is: the first of
the longest. -/
def zeroRun (segments : List UInt16) : Option (ℕ × ℕ) :=
  ((List.range' 2 7).reverse.flatMap fun length =>
      (List.range (9 - length)).map fun start => (start, length)).find?
    fun (start, length) =>
      (segments.drop start).take length = List.replicate length 0

def ipv6Text (address : Ipv6Addr) : Text :=
  match zeroRun address.segments with
  | none => groupsText address.segments
  | some (start, length) =>
      groupsText (address.segments.take start) ++
        ':' :: ':' :: groupsText (address.segments.drop (start + length))

/-! ## Canonical texts are read -/

theorem noDigit_nil {radix : ℕ} : NoDigit radix [] := by
  simp [NoDigit]

theorem noDigit_dot {text : Text} : NoDigit 10 ('.' :: text) := by
  intro c hc
  obtain rfl := Option.some.inj hc
  decide

theorem noDigit_colon {text : Text} : NoDigit 16 (':' :: text) := by
  intro c hc
  obtain rfl := Option.some.inj hc
  decide

theorem readSeparator_zero {α : Type} {separator : Char}
    {inner : Text → Option (α × Text)} {text : Text} :
    readSeparator separator 0 inner text = inner text := rfl

theorem readSeparator_cons {α : Type} {separator : Char} {index : ℕ}
    {inner : Text → Option (α × Text)} {rest : Text} (h : index ≠ 0) :
    readSeparator separator index inner (separator :: rest) = inner rest := by
  rw [readSeparator, if_neg h]
  exact if_pos rfl

theorem readOctet_toDigits (octet : UInt8) {rest : Text}
    (h : NoDigit 10 rest) :
    readOctet (Nat.toDigits 10 octet.toNat ++ rest) = some (octet, rest) := by
  have hlt := octet.toNat_lt
  rw [readOctet, readNumber_toDigits (by norm_num) (by norm_num) (by norm_num)
    (by omega) hlt h, Option.map_some]
  dsimp only
  rw [UInt8.ofNat_toNat]

theorem readSegment_toDigits (segment : UInt16) {rest : Text}
    (h : NoDigit 16 rest) :
    readSegment (Nat.toDigits 16 segment.toNat ++ rest) =
      some (segment, rest) := by
  have hlt := segment.toNat_lt
  rw [readSegment, readNumber_toDigits (by norm_num) (by norm_num)
    (by norm_num) (by omega) hlt h, Option.map_some]
  dsimp only
  rw [UInt16.ofNat_toNat]

theorem parseIpAddr_ipv4Text (address : Ipv4Addr) :
    parseIpAddr (ipv4Text address) = some (.v4 address) := by
  have hread : readIpv4Addr (ipv4Text address) = some (address, []) := by
    unfold readIpv4Addr ipv4Text
    rw [readSeparator_zero, readOctet_toDigits _ noDigit_dot]
    simp only [Option.bind_eq_bind, Option.bind_some]
    rw [readSeparator_cons (by norm_num), readOctet_toDigits _ noDigit_dot]
    simp only [Option.bind_some]
    rw [readSeparator_cons (by norm_num), readOctet_toDigits _ noDigit_dot]
    simp only [Option.bind_some]
    have hlast := readOctet_toDigits address.d noDigit_nil
    rw [List.append_nil] at hlast
    rw [readSeparator_cons (by norm_num), hlast]
    rfl
  rw [parseIpAddr, readIpAddr, hread]

/-- An IPv4 address has dots. -/
theorem readIpv4Addr_of_no_dot {text : Text} (h : '.' ∉ text) :
    readIpv4Addr text = none := by
  unfold readIpv4Addr
  rw [readSeparator_zero]
  cases hoctet : readOctet text with
  | none => rfl
  | some read =>
      obtain ⟨octet, rest⟩ := read
      obtain ⟨⟨n, after⟩, hnumber, hsame⟩ := Option.map_eq_some_iff.mp hoctet
      obtain ⟨-, rfl⟩ := Prod.mk.inj hsame
      have hrest : '.' ∉ after :=
        fun hmem => h ((readNumber_suffix hnumber).subset hmem)
      have hnone : readSeparator '.' 1 readOctet after = none := by
        cases after with
        | nil => rfl
        | cons c after =>
            rw [List.mem_cons, not_or] at hrest
            exact if_neg (Ne.symm hrest.1)
      simp only [Option.bind_eq_bind, Option.bind_some]
      rw [hnone]
      rfl

/-! The characters of a canonical IPv6 text. -/

def IsGroupChar (c : Char) : Prop :=
  c = ':' ∨ ∃ digit < 16, c = Nat.digitChar digit

theorem isGroupChar_of_mem_toDigits {n : ℕ} {c : Char}
    (h : c ∈ Nat.toDigits 16 n) : IsGroupChar c := by
  obtain ⟨digits, htext, hlt, -, -⟩ := exists_writes (by norm_num : 1 < 16) n
  rw [htext] at h
  obtain ⟨digit, hdigit, rfl⟩ := List.mem_map.mp h
  exact .inr ⟨digit, hlt digit hdigit, rfl⟩

theorem isGroupChar_of_mem_colonGroups {segments : List UInt16} {c : Char}
    (h : c ∈ colonGroups segments) : IsGroupChar c := by
  obtain ⟨segment, -, hc⟩ := List.mem_flatMap.mp h
  rcases List.mem_cons.mp hc with rfl | hc
  · exact .inl rfl
  · exact isGroupChar_of_mem_toDigits hc

theorem isGroupChar_of_mem_groupsText {segments : List UInt16} {c : Char}
    (h : c ∈ groupsText segments) : IsGroupChar c := by
  cases segments with
  | nil => cases h
  | cons segment segments =>
      rcases List.mem_append.mp h with h | h
      · exact isGroupChar_of_mem_toDigits h
      · exact isGroupChar_of_mem_colonGroups h

theorem isGroupChar_of_mem_ipv6Text {address : Ipv6Addr} {c : Char}
    (h : c ∈ ipv6Text address) : IsGroupChar c := by
  unfold ipv6Text at h
  split at h
  · exact isGroupChar_of_mem_groupsText h
  · simp only [List.mem_append, List.mem_cons] at h
    rcases h with h | rfl | rfl | h
    · exact isGroupChar_of_mem_groupsText h
    · exact .inl rfl
    · exact .inl rfl
    · exact isGroupChar_of_mem_groupsText h

theorem IsGroupChar.ne_dot {c : Char} (h : IsGroupChar c) : c ≠ '.' := by
  rcases h with rfl | ⟨digit, hdigit, rfl⟩
  · decide
  · have hall : ∀ d : Fin 16, d.val.digitChar ≠ '.' := by decide
    exact hall ⟨digit, hdigit⟩

/-! Groups are read up to their end. -/

/-- Nothing is left, or a double colon. -/
def EndsGroups (text : Text) : Prop :=
  '.' ∉ text ∧ (text = [] ∨ ∃ rest, text = ':' :: ':' :: rest)

theorem EndsGroups.readSegment_eq_none {text : Text} (h : EndsGroups text)
    (index : ℕ) : readSeparator ':' index readSegment text = none := by
  have hnone : ∀ {text : Text}, NoDigit 16 text → readSegment text = none := by
    intro text htext
    rw [readSegment, readNumber_of_noDigit htext]
    rfl
  unfold readSeparator
  split
  · rcases h.2 with rfl | ⟨rest, rfl⟩
    · exact hnone noDigit_nil
    · exact hnone noDigit_colon
  · rcases h.2 with rfl | ⟨rest, rfl⟩
    · rfl
    · exact hnone noDigit_colon

theorem readEmbedded_of_no_dot {text : Text} (h : '.' ∉ text)
    (index : ℕ) : readSeparator ':' index readIpv4Addr text = none := by
  unfold readSeparator
  split
  · exact readIpv4Addr_of_no_dot h
  · cases text with
    | nil => rfl
    | cons c rest =>
        dsimp only
        split
        · exact readIpv4Addr_of_no_dot fun hmem => h (List.mem_cons_of_mem c hmem)
        · rfl

theorem readGroups_of_ends {text : Text} (h : EndsGroups text)
    (left index : ℕ) : readGroups left index text = ([], false, text) := by
  cases left with
  | zero => rfl
  | succ left =>
      have hembedded : (if left = 0 then none
          else readSeparator ':' index readIpv4Addr text) = none := by
        rw [readEmbedded_of_no_dot h.1, ite_self]
      unfold readGroups
      dsimp only
      rw [hembedded, h.readSegment_eq_none]

theorem no_dot_append {text rest : Text} (htext : ∀ c ∈ text, IsGroupChar c)
    (h : '.' ∉ rest) : '.' ∉ text ++ rest := by
  rw [List.mem_append, not_or]
  exact ⟨fun hmem => (htext _ hmem).ne_dot rfl, h⟩

theorem noDigit_colonGroups {segments : List UInt16} {rest : Text}
    (h : EndsGroups rest) : NoDigit 16 (colonGroups segments ++ rest) := by
  cases segments with
  | nil =>
      rcases h.2 with rfl | ⟨more, rfl⟩
      · exact noDigit_nil
      · exact noDigit_colon
  | cons segment segments => exact noDigit_colon

theorem readGroups_succ {left index : ℕ} {text rest : Text}
    {segment : UInt16} (hdot : '.' ∉ text)
    (hread : readSeparator ':' index readSegment text = some (segment, rest)) :
    readGroups (left + 1) index text =
      (segment :: (readGroups left (index + 1) rest).1,
        (readGroups left (index + 1) rest).2) := by
  have hembedded : (if left = 0 then none
      else readSeparator ':' index readIpv4Addr text) = none := by
    rw [readEmbedded_of_no_dot hdot, ite_self]
  rw [readGroups]
  dsimp only
  rw [hembedded, hread]

theorem readGroups_colonGroups {segments : List UInt16} {rest : Text}
    (hrest : EndsGroups rest) {left index : ℕ} (hindex : index ≠ 0)
    (hleft : segments.length ≤ left) :
    readGroups left index (colonGroups segments ++ rest) =
      (segments, false, rest) := by
  induction segments generalizing left index with
  | nil => exact readGroups_of_ends hrest left index
  | cons segment segments ih =>
      obtain ⟨left, rfl⟩ : ∃ fewer, left = fewer + 1 :=
        Nat.exists_eq_add_one.mpr (Nat.zero_lt_of_lt hleft)
      have hdot : '.' ∉ colonGroups (segment :: segments) ++ rest :=
        no_dot_append (fun c => isGroupChar_of_mem_colonGroups) hrest.1
      have hread : readSeparator ':' index readSegment
          (colonGroups (segment :: segments) ++ rest) =
            some (segment, colonGroups segments ++ rest) := by
        rw [colonGroups, List.flatMap_cons, List.cons_append, List.cons_append,
          readSeparator_cons hindex, List.append_assoc]
        exact readSegment_toDigits segment (noDigit_colonGroups hrest)
      rw [readGroups_succ hdot hread, ih (by omega) (by simpa using hleft)]

theorem readGroups_groupsText {segments : List UInt16} {rest : Text}
    (hrest : EndsGroups rest) {left : ℕ} (hleft : segments.length ≤ left) :
    readGroups left 0 (groupsText segments ++ rest) =
      (segments, false, rest) := by
  cases segments with
  | nil => exact readGroups_of_ends hrest left 0
  | cons segment segments =>
      obtain ⟨left, rfl⟩ : ∃ fewer, left = fewer + 1 :=
        Nat.exists_eq_add_one.mpr (Nat.zero_lt_of_lt hleft)
      have hdot : '.' ∉ groupsText (segment :: segments) ++ rest :=
        no_dot_append (fun c => isGroupChar_of_mem_groupsText) hrest.1
      have hread : readSeparator ':' 0 readSegment
          (groupsText (segment :: segments) ++ rest) =
            some (segment, colonGroups segments ++ rest) := by
        rw [readSeparator_zero, groupsText, List.append_assoc]
        exact readSegment_toDigits segment (noDigit_colonGroups hrest)
      rw [readGroups_succ hdot hread,
        readGroups_colonGroups hrest (by omega) (by simpa using hleft)]

theorem zeroRun_eq_some {segments : List UInt16} {start length : ℕ}
    (h : zeroRun segments = some (start, length)) :
    2 ≤ length ∧ start + length ≤ 8 ∧
      (segments.drop start).take length = List.replicate length 0 := by
  have hzeros := List.find?_some h
  have hmem := List.mem_of_find?_eq_some h
  simp only [List.mem_flatMap, List.mem_reverse, List.mem_range'_1,
    List.mem_map, List.mem_range, Prod.mk.injEq] at hmem
  obtain ⟨_, ⟨htwo, -⟩, _, hstart, rfl, rfl⟩ := hmem
  exact ⟨htwo, by omega, by simpa using hzeros⟩

theorem readIpv6Addr_ipv6Text (address : Ipv6Addr) :
    readIpv6Addr (ipv6Text address) = some (address, []) := by
  have hends : EndsGroups [] := ⟨List.not_mem_nil, .inl rfl⟩
  have hlast : ∀ {segments : List UInt16} {left : ℕ},
      segments.length ≤ left →
      readGroups left 0 (groupsText segments) = (segments, false, []) := by
    intro segments left hleft
    have hread := readGroups_groupsText hends hleft
    rwa [List.append_nil] at hread
  unfold ipv6Text
  split
  · unfold readIpv6Addr
    rw [hlast address.length_eq.le]
    exact dif_pos address.length_eq
  · next start length hrun =>
      obtain ⟨htwo, hinside, hzeros⟩ := zeroRun_eq_some hrun
      have height := address.length_eq
      have hhead : (address.segments.take start).length = start := by
        rw [List.length_take]
        omega
      have htail : (address.segments.drop (start + length)).length =
          8 - (start + length) := by
        rw [List.length_drop, height]
      have hmiddle : EndsGroups
          (':' :: ':' :: groupsText (address.segments.drop (start + length))) := by
        refine ⟨fun hmem => ?_, .inr ⟨_, rfl⟩⟩
        simp only [List.mem_cons] at hmem
        rcases hmem with hmem | hmem | hmem
        · cases hmem
        · cases hmem
        · exact (isGroupChar_of_mem_groupsText hmem).ne_dot rfl
      have hread := readGroups_groupsText hmiddle
        (hhead.trans_le (by omega : start ≤ 8))
      have hroom : (address.segments.take start).length +
          (address.segments.drop (start + length)).length ≤ 8 := by omega
      have hfill : Ipv6Addr.fill (address.segments.take start)
          (address.segments.drop (start + length)) hroom = address := by
        have hzeroes : 8 - ((address.segments.take start).length +
            (address.segments.drop (start + length)).length) = length := by
          omega
        cases address
        simp only [Ipv6Addr.fill, Ipv6Addr.mk.injEq] at hzeroes ⊢
        rw [hzeroes, ← hzeros, ← List.drop_drop, List.take_append_drop,
          List.take_append_drop]
      unfold readIpv6Addr
      rw [hread]
      dsimp only
      rw [dif_neg (by omega), if_neg (by simp)]
      split
      · next text hsame =>
          obtain rfl := (List.cons.inj (List.cons.inj hsame).2).2
          rw [hlast (by omega), dif_pos hroom, hfill]
      · next hne => exact absurd rfl (hne _)

theorem parseIpAddr_ipv6Text (address : Ipv6Addr) :
    parseIpAddr (ipv6Text address) = some (.v6 address) := by
  have hdot : '.' ∉ ipv6Text address :=
    fun hmem => (isGroupChar_of_mem_ipv6Text hmem).ne_dot rfl
  rw [parseIpAddr, readIpAddr, readIpv4Addr_of_no_dot hdot,
    readIpv6Addr_ipv6Text]
  rfl

end Segmentor
