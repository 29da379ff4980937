import Segmentor.Error
import Segmentor.General.BitReading

/-!
# NAL units

A NAL unit is a raw byte sequence in which a byte three stands between two
zeros and a byte below four.  Headers are read bit by bit without those bytes,
each byte keeping where it came from, so that a length in bits becomes a length
in bytes of the unit.
-/

namespace Segmentor

open General

/-! ## Without the escapes -/

/-- The bytes left when those that prevent emulation are taken out, after
`zeros` zeros. -/
def unescaped {α : Type} : ℕ → List (UInt8 × α) → List (UInt8 × α)
  | _, [] => []
  | zeros, (byte, place) :: rest =>
      if 2 ≤ zeros ∧ byte = 3 then unescaped 0 rest
      else
        (byte, place) ::
          unescaped (if byte = 0 then saturatingAdd (2 ^ 8) zeros 1 else 0) rest

/-- The payload of a NAL unit, with the place of each byte in the unit. -/
structure Rbsp where
  bytes : List UInt8
  origin : List ℕ
  deriving DecidableEq, Repr

namespace Rbsp

/-- Unescapes at most `limit` bytes. -/
def new (nal : List UInt8) (limit : ℕ) : Rbsp :=
  let kept := unescaped 0 (nal.zipIdx.take limit)
  { bytes := kept.map Prod.fst
    origin := kept.map Prod.snd }

def reader (rbsp : Rbsp) : BitReader where
  data := rbsp.bytes
  bit := 0

/-- How many bytes of the unit cover the first `bits` bits, through the byte
with the last of them. -/
def nalBytesCovering (rbsp : Rbsp) (bits : ℕ) : Option ℕ :=
  if bits = 0 then some 0
  else rbsp.origin[(bits - 1) / 8]?.map (· + 1)

end Rbsp

/-! ## With the escapes -/

/-- The unit with the payload `bytes`, after `zeros` zeros. -/
def escaped : ℕ → List UInt8 → List UInt8
  | _, [] => []
  | zeros, byte :: rest =>
      if 2 ≤ zeros ∧ byte ≤ 3 then
        3 :: byte :: escaped (if byte = 0 then 1 else 0) rest
      else byte :: escaped (if byte = 0 then zeros + 1 else 0) rest

/-- The zeros counted at the end of the bytes, `zeros` of them counted
before. -/
def zerosAfter : ℕ → List UInt8 → ℕ
  | zeros, [] => zeros
  | zeros, byte :: rest =>
      if 2 ≤ zeros ∧ byte = 3 then zerosAfter 0 rest
      else zerosAfter (if byte = 0 then saturatingAdd (2 ^ 8) zeros 1 else 0) rest

theorem unescaped_cons {α : Type} (zeros : ℕ) (byte : UInt8) (place : α)
    (rest : List (UInt8 × α)) :
    unescaped zeros ((byte, place) :: rest) =
      if 2 ≤ zeros ∧ byte = 3 then unescaped 0 rest
      else
        (byte, place) ::
          unescaped (if byte = 0 then saturatingAdd (2 ^ 8) zeros 1 else 0)
            rest := rfl

theorem escaped_cons (zeros : ℕ) (byte : UInt8) (rest : List UInt8) :
    escaped zeros (byte :: rest) =
      if 2 ≤ zeros ∧ byte ≤ 3 then
        3 :: byte :: escaped (if byte = 0 then 1 else 0) rest
      else byte :: escaped (if byte = 0 then zeros + 1 else 0) rest := rfl

theorem zerosAfter_cons (zeros : ℕ) (byte : UInt8) (rest : List UInt8) :
    zerosAfter zeros (byte :: rest) =
      if 2 ≤ zeros ∧ byte = 3 then zerosAfter 0 rest
      else
        zerosAfter (if byte = 0 then saturatingAdd (2 ^ 8) zeros 1 else 0)
          rest := rfl

theorem unescaped_append {α : Type} (zeros : ℕ)
    (front back : List (UInt8 × α)) :
    unescaped zeros (front ++ back) =
      unescaped zeros front ++
        unescaped (zerosAfter zeros (front.map Prod.fst)) back := by
  induction front generalizing zeros with
  | nil => rfl
  | cons entry front ih =>
      rw [List.cons_append, unescaped_cons, unescaped_cons, List.map_cons,
        zerosAfter_cons]
      split
      · exact ih 0
      · rw [ih, List.cons_append]

theorem unescaped_sublist {α : Type} (zeros : ℕ) (l : List (UInt8 × α)) :
    (unescaped zeros l).Sublist l := by
  induction l generalizing zeros with
  | nil => exact .slnil
  | cons entry l ih =>
      rw [unescaped_cons]
      split
      · exact (ih 0).cons _
      · exact (ih _).cons_cons _

/-- Escaping a payload loses nothing of it. -/
theorem unescaped_escaped (bytes : List UInt8) {zeros : ℕ} (hzeros : zeros ≤ 2)
    (place : ℕ) :
    (unescaped zeros ((escaped zeros bytes).zipIdx place)).map Prod.fst =
      bytes := by
  induction bytes generalizing zeros place with
  | nil => rfl
  | cons byte rest ih =>
      rw [escaped_cons]
      by_cases hescape : 2 ≤ zeros ∧ byte ≤ 3
      · rw [if_pos hescape, List.zipIdx_cons, unescaped_cons,
          if_pos ⟨hescape.1, rfl⟩, List.zipIdx_cons, unescaped_cons,
          if_neg (by omega), List.map_cons]
        by_cases hzero : byte = 0
        · rw [if_pos hzero, if_pos hzero]
          exact congrArg _ (ih (show 1 ≤ 2 by decide) _)
        · rw [if_neg hzero, if_neg hzero]
          exact congrArg _ (ih (Nat.zero_le 2) _)
      · rw [if_neg hescape, List.zipIdx_cons, unescaped_cons,
          if_neg (by rintro ⟨htwo, rfl⟩; exact hescape ⟨htwo, by decide⟩),
          List.map_cons]
        by_cases hzero : byte = 0
        · have hlt : zeros < 2 := by
            by_contra hge
            exact hescape ⟨by omega, by rw [hzero]; decide⟩
          rw [if_pos hzero, if_pos hzero]
          have hnext : saturatingAdd (2 ^ 8) zeros 1 = zeros + 1 := by
            unfold saturatingAdd
            omega
          rw [hnext]
          exact congrArg _ (ih (by omega) _)
        · rw [if_neg hzero, if_neg hzero]
          exact congrArg _ (ih (by omega) _)

namespace Rbsp

theorem bytes_new (nal : List UInt8) (limit : ℕ) :
    (new nal limit).bytes =
      (unescaped 0 (nal.zipIdx.take limit)).map Prod.fst := rfl

theorem origin_new (nal : List UInt8) (limit : ℕ) :
    (new nal limit).origin =
      (unescaped 0 (nal.zipIdx.take limit)).map Prod.snd := rfl

theorem new_of_le (nal : List UInt8) {limit more : ℕ} (h : limit ≤ more) :
    ∃ later : List (UInt8 × ℕ),
      (new nal more).bytes = (new nal limit).bytes ++ later.map Prod.fst ∧
      (new nal more).origin = (new nal limit).origin ++ later.map Prod.snd ∧
      ∀ entry ∈ later, limit ≤ entry.2 := by
  have hsplit : nal.zipIdx.take more =
      nal.zipIdx.take limit ++ (nal.zipIdx.take more).drop limit := by
    conv_lhs => rw [← List.take_append_drop limit (nal.zipIdx.take more)]
    rw [List.take_take, Nat.min_eq_left h]
  have happend := unescaped_append 0 (nal.zipIdx.take limit)
    ((nal.zipIdx.take more).drop limit)
  rw [← hsplit] at happend
  refine ⟨unescaped (zerosAfter 0 ((nal.zipIdx.take limit).map Prod.fst))
    ((nal.zipIdx.take more).drop limit), ?_, ?_, ?_⟩
  · rw [bytes_new, bytes_new, happend, List.map_append]
  · rw [origin_new, origin_new, happend, List.map_append]
  · intro entry hentry
    have hmem := (unescaped_sublist _ _).subset hentry
    obtain ⟨index, hindex⟩ := List.mem_iff_getElem?.mp hmem
    rw [List.getElem?_drop, List.getElem?_take] at hindex
    split at hindex
    · rw [List.getElem?_zipIdx, Option.map_eq_some_iff] at hindex
      obtain ⟨byte, -, rfl⟩ := hindex
      dsimp only
      omega
    · cases hindex

theorem length_origin (nal : List UInt8) (limit : ℕ) :
    (new nal limit).origin.length = (new nal limit).bytes.length := by
  rw [origin_new, bytes_new, List.length_map, List.length_map]

theorem nalBytesCovering_eq_some_iff {rbsp : Rbsp} {bits count : ℕ} :
    rbsp.nalBytesCovering bits = some count ↔
      bits = 0 ∧ count = 0 ∨
        bits ≠ 0 ∧ ∃ place, rbsp.origin[(bits - 1) / 8]? = some place ∧
          count = place + 1 := by
  unfold nalBytesCovering
  by_cases hbits : bits = 0
  · simp [hbits, eq_comm]
  · simp [hbits, eq_comm]

theorem nalBytesCovering_le {nal : List UInt8} {limit bits count : ℕ}
    (h : (new nal limit).nalBytesCovering bits = some count) :
    count ≤ nal.length ∧ count ≤ limit := by
  rcases nalBytesCovering_eq_some_iff.mp h with
    ⟨-, rfl⟩ | ⟨-, place, hplace, rfl⟩
  · exact ⟨Nat.zero_le _, Nat.zero_le _⟩
  · obtain ⟨⟨byte, _⟩, hentry, rfl⟩ :=
      List.mem_map.mp (List.mem_of_getElem? hplace)
    have hmem := (unescaped_sublist _ _).subset hentry
    obtain ⟨index, hindex⟩ := List.mem_iff_getElem?.mp hmem
    rw [List.getElem?_take] at hindex
    split at hindex
    · rw [List.getElem?_zipIdx, Option.map_eq_some_iff] at hindex
      obtain ⟨other, hother, hpair⟩ := hindex
      have hlt := (List.getElem?_eq_some_iff.mp hother).1
      have hindex := congrArg Prod.snd hpair
      dsimp only at hindex ⊢
      omega
    · cases hindex

theorem nalBytesCovering_of_le {nal : List UInt8} {limit more bits count : ℕ}
    (hle : limit ≤ more)
    (h : (new nal limit).nalBytesCovering bits = some count) :
    (new nal more).nalBytesCovering bits = some count := by
  obtain ⟨later, -, horigin, -⟩ := new_of_le nal hle
  refine nalBytesCovering_eq_some_iff.mpr ?_
  refine (nalBytesCovering_eq_some_iff.mp h).imp_right ?_
  rintro ⟨hbits, place, hplace, hcount⟩
  have hlt := (List.getElem?_eq_some_iff.mp hplace).1
  exact ⟨hbits, place, by rwa [horigin, List.getElem?_append_left hlt], hcount⟩

theorem nalBytesCovering_of_count_le {nal : List UInt8}
    {limit more bits count : ℕ} (hle : limit ≤ more) (hcount : count ≤ limit)
    (h : (new nal more).nalBytesCovering bits = some count) :
    (new nal limit).nalBytesCovering bits = some count := by
  obtain ⟨later, -, horigin, hlater⟩ := new_of_le nal hle
  refine nalBytesCovering_eq_some_iff.mpr ?_
  refine (nalBytesCovering_eq_some_iff.mp h).imp_right ?_
  rintro ⟨hbits, place, hplace, rfl⟩
  rw [horigin] at hplace
  by_cases hlt : (bits - 1) / 8 < (new nal limit).origin.length
  · rw [List.getElem?_append_left hlt] at hplace
    exact ⟨hbits, place, hplace, rfl⟩
  · rw [List.getElem?_append_right (by omega)] at hplace
    obtain ⟨entry, hentry, rfl⟩ :=
      List.mem_map.mp (List.mem_of_getElem? hplace)
    have hbeyond := hlater entry hentry
    omega

/-- What is covered was read. -/
theorem bits_le_of_nalBytesCovering {nal : List UInt8} {limit bits count : ℕ}
    (h : (new nal limit).nalBytesCovering bits = some count) :
    bits ≤ 8 * (new nal limit).bytes.length := by
  rcases nalBytesCovering_eq_some_iff.mp h with
    ⟨rfl, -⟩ | ⟨-, place, hplace, -⟩
  · exact Nat.zero_le _
  · have hlt := (List.getElem?_eq_some_iff.mp hplace).1
    rw [length_origin] at hlt
    omega

/-- The payload of an escaped payload is that payload. -/
theorem bytes_new_escaped (payload : List UInt8) {limit : ℕ}
    (h : (escaped 0 payload).length ≤ limit) :
    (new (escaped 0 payload) limit).bytes = payload := by
  rw [bytes_new, List.take_of_length_le (by rwa [List.length_zipIdx])]
  exact unescaped_escaped payload (Nat.zero_le 2) 0

end Rbsp

/-! ## Fields -/

abbrev BitReading := Reading Error

namespace BitReading

def truncated : Error :=
  .invalidMedia "a slice or parameter set is truncated"

def bit : BitReading Bool :=
  Reading.nextBit truncated

def bits (count : ℕ) : BitReading ℕ :=
  if 32 < count then
    Reading.fail (.invalidMedia "a field is wider than 32 bits")
  else do
    let read ← Reading.times count bit
    pure (ofBits read)

def skip (count : ℕ) : BitReading Unit :=
  Reading.skipBits truncated count

/-- The zeros in front of the next one, after `zeros` of them; at most
thirty-one in all. -/
def leadingZeros : ℕ → ℕ → BitReading ℕ
  | 0, _ => Reading.fail (.invalidMedia "an exp-Golomb code is too long")
  | left + 1, zeros => do
      if ← bit then pure zeros
      else leadingZeros left (zeros + 1)

/-- An unsigned exp-Golomb code. -/
def ue : BitReading ℕ := do
  let zeros ← leadingZeros 32 0
  let suffix ← bits zeros
  let value := 2 ^ zeros - 1 + suffix
  Reading.ofExcept (okOr (if value < 2 ^ 32 then some value else none)
    truncated)

/-- A signed exp-Golomb code. -/
def se : BitReading ℤ := do
  let code ← ue
  let magnitude : ℤ := (code + 1) / 2
  pure (if code % 2 = 1 then magnitude else -magnitude)

/-! ## What fields read -/

open Reading

theorem inverts_bit :
    bit.Inverts (fun value => [value]) (fun _ => True) :=
  inverts_nextBit truncated

@[simp] theorem reads_bit (value : Bool) : bit.Reads [value] value :=
  inverts_bit.reads trivial

theorem reads_skip {field : List Bool} {count : ℕ}
    (h : field.length = count) : (skip count).Reads field () :=
  reads_skipBits truncated h

theorem reads_skipOptional {condition : Prop} [Decidable condition]
    {field : List Bool} {count : ℕ} (h : field.length = count) :
    (present condition (skip count) ()).Reads (if condition then field else [])
      () :=
  reads_optional (a := ()) Iff.rfl fun _ => reads_skip h

theorem inverts_bits {width : ℕ} (hwidth : width ≤ 32) :
    (bits width).Inverts (toBits width) (· < 2 ^ width) := by
  unfold bits
  rw [if_neg (by omega)]
  refine (inverts_bit.times width).bind_value
    (fun read _ => inverts_pure (ofBits read)) (fun value => ?_) ?_
  · constructor
    · intro hvalue
      refine ⟨toBits width value, ⟨length_toBits width value, fun _ _ => trivial⟩,
        ?_⟩
      rw [ofBits_toBits, Nat.mod_eq_of_lt hvalue]
    · rintro ⟨read, ⟨rfl, -⟩, rfl⟩
      exact ofBits_lt read
  · rintro read value ⟨rfl, -⟩ rfl
    rw [List.flatMap_singleton', toBits_ofBits]

theorem reads_bits {width value : ℕ} (hwidth : width ≤ 32) :
    (bits width).Reads (toBits width value) (value % 2 ^ width) := by
  have hlow := (inverts_bits hwidth).reads
    (Nat.mod_lt value (Nat.two_pow_pos width))
  rwa [toBits_mod] at hlow

/-- The zeros are counted where there are few enough. -/
theorem inverts_leadingZeros (left zeros : ℕ) :
    (leadingZeros left zeros).Inverts
      (fun count => List.replicate (count - zeros) false ++ [true])
      (fun count => zeros ≤ count ∧ count < zeros + left) := by
  induction left generalizing zeros with
  | zero =>
      intro reader count stop
      refine iff_of_false nofun ?_
      rintro ⟨⟨hle, hlt⟩, -⟩
      omega
  | succ left ih =>
      refine @Inverts.bind _ _ _ bit _ (fun value => [value]) (fun _ => True)
        (fun value count => if value = true then []
          else List.replicate (count - (zeros + 1)) false ++ [true])
        (fun value count => if value = true then count = zeros
          else zeros + 1 ≤ count ∧ count < zeros + 1 + left) _ _
        inverts_bit (fun value _ => ?_) (fun count => ?_) ?_
      · cases value with
        | true => exact inverts_pure zeros
        | false => exact ih (zeros + 1)
      · simp only [Bool.exists_bool, true_and, Bool.false_eq_true, if_false,
          if_true]
        omega
      · intro value count _ hcount
        cases value with
        | true =>
            obtain rfl : count = zeros := hcount
            rw [Nat.sub_self]
            rfl
        | false =>
            have hlow : zeros + 1 ≤ count := hcount.1
            have hsplit : count - zeros = count - (zeros + 1) + 1 := by omega
            rw [hsplit]
            rfl

/-- The codes with at most thirty-one zeros are read back, and no others. -/
theorem inverts_ue : ue.Inverts golomb (fun value => value + 1 < 2 ^ 32) := by
  refine @Inverts.bind _ _ _ (leadingZeros 32 0) _ _ _
    (fun zeros value => toBits zeros (value + 1))
    (fun zeros value => 2 ^ zeros ≤ value + 1 ∧ value + 1 < 2 ^ (zeros + 1)) _ _
    (inverts_leadingZeros 32 0) (fun zeros hzeros => ?_) (fun value => ?_) ?_
  · have hword : 2 ^ (zeros + 1) ≤ 2 ^ 32 :=
      Nat.pow_le_pow_right (by decide) (by omega)
    have hpos : 0 < 2 ^ zeros := Nat.two_pow_pos zeros
    rw [pow_succ] at hword ⊢
    refine (inverts_bits (by omega)).bind_value
      (fun code _ => inverts_ofExcept _) (fun value => ?_) ?_
    · constructor
      · rintro ⟨hlow, hhigh⟩
        refine ⟨value + 1 - 2 ^ zeros, by omega, ?_⟩
        rw [if_pos (by omega), okOr_some]
        exact congrArg _ (by omega)
      · rintro ⟨code, hcode, hvalue⟩
        rw [if_pos (by omega), okOr_some] at hvalue
        have := Except.ok.inj hvalue
        omega
    · intro code value hcode hvalue
      rw [if_pos (by omega), okOr_some] at hvalue
      have hsum := Except.ok.inj hvalue
      have hsucc : value + 1 = 2 ^ zeros + code := by omega
      rw [hsucc, toBits_two_pow_add]
  · constructor
    · intro hvalue
      refine ⟨(value + 1).log2, ⟨Nat.zero_le _, ?_⟩,
        Nat.log2_self_le (Nat.succ_ne_zero value), Nat.lt_log2_self⟩
      rw [Nat.zero_add]
      exact (Nat.log2_lt (Nat.succ_ne_zero value)).mpr hvalue
    · rintro ⟨zeros, ⟨-, hzeros⟩, -, hhigh⟩
      exact hhigh.trans_le (Nat.pow_le_pow_right (by decide) (by omega))
  · rintro zeros value - ⟨hlow, hhigh⟩
    have hlog : (value + 1).log2 = zeros :=
      (Nat.log2_eq_iff (Nat.succ_ne_zero value)).mpr ⟨hlow, hhigh⟩
    rw [golomb_eq, hlog, List.append_assoc]
    rfl

theorem reads_ue {value : ℕ} (hvalue : value + 1 < 2 ^ 32) :
    ue.Reads (golomb value) value :=
  inverts_ue.reads hvalue

theorem signedCode_lt {value : ℤ} (hlow : -(2 ^ 31) < value)
    (hhigh : value < 2 ^ 31) : signedCode value + 1 < 2 ^ 32 := by
  unfold signedCode
  split <;> omega

/-- The values of the codes that can be read are those of thirty-two bits with
a sign, but for the smallest. -/
theorem inverts_se :
    se.Inverts signedGolomb (fun value => -2 ^ 31 < value ∧ value < 2 ^ 31) := by
  refine inverts_ue.bind_value (fun code _ => inverts_pure _)
    (fun value => ?_) ?_
  · constructor
    · rintro ⟨hlow, hhigh⟩
      refine ⟨signedCode value, signedCode_lt hlow hhigh, ?_⟩
      unfold signedCode
      split <;> split <;> omega
    · rintro ⟨code, hcode, rfl⟩
      split <;> omega
  · rintro code value - rfl
    refine congrArg golomb ?_
    unfold signedCode
    split <;> split <;> omega

theorem reads_se {value : ℤ} (hlow : -2 ^ 31 < value)
    (hhigh : value < 2 ^ 31) : se.Reads (signedGolomb value) value :=
  inverts_se.reads ⟨hlow, hhigh⟩

end BitReading

end Segmentor
