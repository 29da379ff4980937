import Mathlib.Order.Bounds.Basic
import Segmentor.NalUnits

/-!
# Reading a NAL unit undoes writing it

Taking the escapes out gives back the payload they were put into, also where
the unit ends with one.  The bytes that cover some bits of the payload are the
shortest part of the unit from which those bits can be read.  Exp-Golomb codes
are read as the values they stand for, and nothing else is.
-/

namespace Segmentor

open General

theorem zerosAfter_append (zeros : ℕ) (front back : List UInt8) :
    zerosAfter zeros (front ++ back) =
      zerosAfter (zerosAfter zeros front) back := by
  induction front generalizing zeros with
  | nil => rfl
  | cons byte front ih =>
      rw [List.cons_append, zerosAfter, zerosAfter]
      split
      · exact ih 0
      · exact ih _

/-- Two zeros at the end are counted, whatever stands before them. -/
theorem two_le_zerosAfter {bytes : List UInt8} (h : [0, 0] <:+ bytes)
    (zeros : ℕ) : 2 ≤ zerosAfter zeros bytes := by
  obtain ⟨front, rfl⟩ := h
  have hne : ¬ (0 : UInt8) = 3 := by decide
  rw [zerosAfter_append, zerosAfter, if_neg fun h => hne h.2, zerosAfter,
    if_neg fun h => hne h.2, zerosAfter, if_pos rfl, if_pos rfl]
  unfold saturatingAdd
  omega

/-- The unit with the payload `bytes`; a three follows two zeros that it would
end with. -/
def closed (bytes : List UInt8) : List UInt8 :=
  if [0, 0] <:+ escaped 0 bytes then escaped 0 bytes ++ [3]
  else escaped 0 bytes

namespace Rbsp

variable {nal : List UInt8} {limit bits count : ℕ}

/-- The escape at the end is taken out like the others. -/
theorem bytes_new_closed {payload : List UInt8}
    (h : (closed payload).length ≤ limit) :
    (new (closed payload) limit).bytes = payload := by
  unfold closed at h ⊢
  by_cases hzeros : [0, 0] <:+ escaped 0 payload
  · rw [if_pos hzeros] at h ⊢
    have hescape : 2 ≤ zerosAfter 0
        ((escaped 0 payload).zipIdx.map Prod.fst) := by
      rw [List.zipIdx_map_fst]
      exact two_le_zerosAfter hzeros 0
    unfold new
    dsimp only
    rw [List.take_of_length_le (by rwa [List.length_zipIdx]),
      List.zipIdx_append, unescaped_append, List.zipIdx_cons, unescaped,
      if_pos ⟨hescape, rfl⟩, List.zipIdx_nil, unescaped, List.append_nil]
    exact unescaped_escaped payload (Nat.zero_le 2) 0
  · rw [if_neg hzeros] at h ⊢
    exact bytes_new_escaped payload h

/-! ## The shortest cover -/

/-- What can be read from the first `count` bytes of the unit starts with the
first `bits` bits of what was read of it. -/
def Holds (nal : List UInt8) (limit bits count : ℕ) : Prop :=
  (bitsOf (new nal limit).bytes).take bits <+:
    bitsOf (new (nal.take count) count).bytes

theorem new_take (nal : List UInt8) (count : ℕ) :
    new (nal.take count) count = new nal count := by
  have htake : (nal.take count).zipIdx.take count =
      nal.zipIdx.take count := by
    refine List.ext_getElem? fun index => ?_
    simp only [List.getElem?_take, List.getElem?_zipIdx]
    split <;> rfl
  unfold new
  rw [htake]

theorem bits_le_of_holds (hbits : bits ≤ 8 * (new nal limit).bytes.length)
    (h : Holds nal limit bits count) :
    bits ≤ 8 * (new nal count).bytes.length := by
  have hle := h.length_le
  rwa [List.length_take, length_bitsOf, Nat.min_eq_left hbits, new_take,
    length_bitsOf] at hle

theorem exists_nalBytesCovering
    (hbits : bits ≤ 8 * (new nal limit).bytes.length) :
    ∃ count, (new nal limit).nalBytesCovering bits = some count := by
  by_cases hzero : bits = 0
  · exact ⟨0, nalBytesCovering_eq_some_iff.mpr (.inl ⟨hzero, rfl⟩)⟩
  · have hlt : (bits - 1) / 8 < (new nal limit).origin.length := by
      rw [length_origin]
      omega
    exact ⟨_, nalBytesCovering_eq_some_iff.mpr
      (.inr ⟨hzero, _, List.getElem?_eq_getElem hlt, rfl⟩)⟩

theorem holds_of_nalBytesCovering
    (h : (new nal limit).nalBytesCovering bits = some count) :
    Holds nal limit bits count := by
  have hlimit := (nalBytesCovering_le h).2
  have hbits := bits_le_of_nalBytesCovering
    (nalBytesCovering_of_count_le hlimit le_rfl h)
  obtain ⟨later, hbytes, -⟩ := new_of_le nal hlimit
  unfold Holds
  rw [new_take, hbytes, bitsOf_append,
    List.take_append_of_le_length (by rwa [length_bitsOf])]
  exact List.take_prefix bits _

/-- No shorter part of the unit holds the bits. -/
theorem nalBytesCovering_le_of_holds {shorter : ℕ}
    (h : (new nal limit).nalBytesCovering bits = some count)
    (hholds : Holds nal limit bits shorter) : count ≤ shorter := by
  obtain ⟨found, hfound⟩ := exists_nalBytesCovering
    (bits_le_of_holds (bits_le_of_nalBytesCovering h) hholds)
  have hshorter := (nalBytesCovering_le hfound).2
  rcases le_total shorter limit with hle | hle
  · have hsame := nalBytesCovering_of_le hle hfound
    rw [h] at hsame
    exact (Option.some.inj hsame).trans_le hshorter
  · exact (nalBytesCovering_le h).2.trans hle

/-- The cover of the bits is the shortest part of the unit that holds them. -/
theorem isLeast_of_nalBytesCovering
    (h : (new nal limit).nalBytesCovering bits = some count) :
    IsLeast {shorter | Holds nal limit bits shorter} count :=
  ⟨holds_of_nalBytesCovering h, fun _ hholds =>
    nalBytesCovering_le_of_holds h hholds⟩

end Rbsp

/-- Escaped payloads are read back, with a last escape or without; bits are
covered by the shortest part that holds them; and exp-Golomb codes of both
kinds are read as their values, from their bits and no others. -/
theorem escapes_and_codes_inverted :
    (∀ payload limit, (escaped 0 payload).length ≤ limit →
      (Rbsp.new (escaped 0 payload) limit).bytes = payload) ∧
    (∀ payload limit, (closed payload).length ≤ limit →
      (Rbsp.new (closed payload) limit).bytes = payload) ∧
    (∀ nal limit bits, bits ≤ 8 * (Rbsp.new nal limit).bytes.length →
      ∃ count, (Rbsp.new nal limit).nalBytesCovering bits = some count ∧
        IsLeast {shorter | Rbsp.Holds nal limit bits shorter} count) ∧
    BitReading.ue.Inverts golomb (fun value => value + 1 < 2 ^ 32) ∧
    BitReading.se.Inverts signedGolomb
      (fun value => -2 ^ 31 < value ∧ value < 2 ^ 31) := by
  refine ⟨fun payload _ h => Rbsp.bytes_new_escaped payload h,
    fun _ _ h => Rbsp.bytes_new_closed h, fun nal limit bits hbits => ?_,
    BitReading.inverts_ue, BitReading.inverts_se⟩
  obtain ⟨count, hcount⟩ := Rbsp.exists_nalBytesCovering hbits
  exact ⟨count, hcount, Rbsp.isLeast_of_nalBytesCovering hcount⟩

theorem escapes_and_codes_inverted_zeros :
    (Rbsp.new [0, 0, 3, 1, 0, 0, 3] 7).bytes = [0, 0, 1, 0, 0] ∧
      (∃ count, (Rbsp.new [0, 0, 3, 1] 4).nalBytesCovering 17 = some count ∧
        IsLeast {shorter | Rbsp.Holds [0, 0, 3, 1] 4 17 shorter} count) ∧
      BitReading.ue.Reads (golomb 4294967294) 4294967294 ∧
      BitReading.se.Reads (signedGolomb (-2)) (-2) := by
  obtain ⟨-, hclosed, hcover, hue, hse⟩ := escapes_and_codes_inverted
  exact ⟨hclosed [0, 0, 1, 0, 0] 7 (by decide), hcover _ _ _ (by decide),
    hue.reads (by norm_num), hse.reads (by norm_num)⟩

/-- The codes of 0, 1, 2, 3 and −2, one after the other. -/
example :
    (do
      let values ← Reading.times 4 BitReading.ue
      let signed ← BitReading.se
      pure (values, signed) : BitReading (List ℕ × ℤ)).run
        (Rbsp.new [0xA6, 0x42, 0x80] 3).reader =
      .ok (([0, 1, 2, 3], -2), ⟨[0xA6, 0x42, 0x80], 17⟩) := by
  rfl

end Segmentor
