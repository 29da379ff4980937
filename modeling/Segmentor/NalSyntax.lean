import Segmentor.NalUnits

/-!
# Syntax elements as bits

What the standards write: fixed and exp-Golomb codes whose values carry their
ranges, and NAL units that hold a string of bits with anything behind it.
-/

namespace Segmentor

open General BitReading

/-! ## Codes -/

/-- The value of an unsigned exp-Golomb code. -/
abbrev UeValue := {value : ℕ // value + 1 < 2 ^ 32}

/-- The value of a signed exp-Golomb code. -/
abbrev SeValue := {value : ℤ // -(2 ^ 31) < value ∧ value < 2 ^ 31}

theorem UeValue.zero_fits : 0 + 1 < 2 ^ 32 := by decide

theorem SeValue.zero_fits : -(2 ^ 31) < (0 : ℤ) ∧ (0 : ℤ) < 2 ^ 31 := by decide

def UeValue.bits (value : UeValue) : List Bool :=
  golomb value.1

def SeValue.bits (value : SeValue) : List Bool :=
  signedGolomb value.1

theorem reads_ueValue (value : UeValue) : ue.Reads value.bits value.1 :=
  reads_ue value.2

theorem reads_seValue (value : SeValue) : se.Reads value.bits value.1 :=
  reads_se value.2.1 value.2.2

theorem reads_finUe {bound : ℕ} (value : Fin bound) (hbound : bound < 2 ^ 32) :
    ue.Reads (golomb value) value :=
  reads_ue (by omega)

theorem reads_twoUe (first second : UeValue) :
    (Reading.times 2 ue).Reads (first.bits ++ second.bits)
      [first.1, second.1] := by
  simpa using @Reading.reads_times _ _ _ ue UeValue.bits Subtype.val
    [first, second] fun value _ => reads_ueValue value

theorem reads_twoSe (first second : SeValue) :
    (Reading.times 2 se).Reads (first.bits ++ second.bits) [first.1, second.1] := by
  simpa using @Reading.reads_times _ _ _ se SeValue.bits Subtype.val [first, second]
    fun value _ => reads_seValue value

theorem reads_fourSe (first second third fourth : SeValue) :
    (Reading.times 4 se).Reads (first.bits ++ second.bits ++ third.bits ++ fourth.bits)
      [first.1, second.1, third.1, fourth.1] := by
  simpa using @Reading.reads_times _ _ _ se SeValue.bits Subtype.val
    [first, second, third, fourth] fun value _ => reads_seValue value

theorem reads_finBits {width : ℕ} (value : Fin (2 ^ width))
    (hwidth : width ≤ 32) :
    (BitReading.bits width).Reads (toBits width value) value := by
  have hreads := @reads_bits width value hwidth
  rwa [Nat.mod_eq_of_lt value.2] at hreads

/-- A flag, and what it announces. -/
def announced {α : Type} (write : α → List Bool) : Option α → List Bool
  | none => [false]
  | some a => [true] ++ write a

theorem reads_announced {α : Type} {write : α → List Bool} {value : Option α}
    {m : BitReading Unit} (h : ∀ a ∈ value, m.Reads (write a) ()) :
    (do
      let there ← bit
      Reading.present there m () : BitReading Unit).Reads
      (announced write value) () := by
  cases value with
  | none =>
      exact (reads_bit false).before (Reading.reads_absent Bool.false_ne_true)
  | some a => exact (reads_bit true).bind (Reading.reads_there rfl (h a rfl))

theorem reads_announced_append {α β γ : Type} {write : α → List Bool}
    {read : α → β} {missing : β} {m : BitReading β}
    {f : Bool → β → BitReading γ} {back : List Bool} {c : γ}
    (value : Option α) (h : ∀ a ∈ value, m.Reads (write a) (read a))
    (hf : (f value.isSome (value.elim missing read)).Reads back c) :
    (do
      let there ← bit
      let read ← Reading.present there m missing
      f there read : BitReading γ).Reads
      (announced write value ++ back) c := by
  cases value with
  | none =>
      exact (reads_bit false).bind
        ((Reading.reads_absent Bool.false_ne_true).after hf)
  | some a =>
      rw [announced, List.append_assoc]
      exact (reads_bit true).bind ((Reading.reads_there rfl (h a rfl)).bind hf)

/-- A flag and what it announces, the first of several fields. -/
theorem reads_announcedField {α β γ : Type} {write : α → List Bool}
    {read : α → β} {missing : β} {m : BitReading β}
    {f : Bool → β → BitReading γ} {fields : List (List Bool)} {c : γ}
    (value : Option α) (h : ∀ a ∈ value, m.Reads (write a) (read a))
    (hf : (f value.isSome (value.elim missing read)).Reads fields.flatten c) :
    (do
      let there ← bit
      let read ← Reading.present there m missing
      f there read : BitReading γ).Reads
      (announced write value :: fields).flatten c :=
  reads_announced_append value h hf

theorem length_announced_le {α : Type} {write : α → List Bool} {bound : ℕ}
    (h : ∀ a, (write a).length ≤ bound) (value : Option α) :
    (announced write value).length ≤ bound + 1 := by
  cases value with
  | none => exact Nat.succ_le_succ (Nat.zero_le bound)
  | some a =>
      rw [announced, List.length_append, List.length_singleton,
        Nat.add_comm 1]
      exact Nat.succ_le_succ (h a)

theorem length_ueBits_le (value : UeValue) : value.bits.length ≤ 63 := by
  have hlog : (value.1 + 1).log2 < 32 :=
    (Nat.log2_lt (Nat.succ_ne_zero value.1)).mpr value.2
  rw [UeValue.bits, length_golomb]
  omega

theorem length_seBits_le (value : SeValue) : value.bits.length ≤ 63 :=
  length_ueBits_le ⟨signedCode value.1, signedCode_lt value.2.1 value.2.2⟩

theorem length_golomb_le {value : ℕ} (hvalue : value + 1 < 2 ^ 32) :
    (golomb value).length ≤ 63 :=
  length_ueBits_le ⟨value, hvalue⟩

theorem length_flatMap_le {α β : Type} {f : α → List β} {bound : ℕ}
    {l : List α} (h : ∀ a ∈ l, (f a).length ≤ bound) :
    (l.flatMap f).length ≤ l.length * bound := by
  rw [List.length_flatMap]
  have hsum := List.sum_le_card_nsmul (l.map fun a => (f a).length) bound
    (by simpa using h)
  rwa [List.length_map, smul_eq_mul] at hsum

/-! ## Units that hold bits -/

/-- A number's high digits stand in front of its low ones. -/
theorem toBits_add (high low value : ℕ) :
    toBits (high + low) value =
      toBits high (value / 2 ^ low) ++ toBits low value := by
  induction high with
  | zero => simp [toBits]
  | succ high ih =>
      rw [Nat.add_right_comm, toBits, ih, toBits, List.cons_append,
        Nat.testBit_div_two_pow]

theorem head?_mod_of_bits {bytes : List UInt8} {front back : List Bool}
    {width value : ℕ} (hwidth : front.length + (width + back.length) = 8)
    (h : front ++ (toBits width value ++ back) <+: bitsOf bytes) :
    ∃ byte, bytes.head? = some byte ∧
      byte.toNat / 2 ^ back.length % 2 ^ width = value % 2 ^ width := by
  have hlength : (front ++ (toBits width value ++ back)).length = 8 := by
    rw [List.length_append, List.length_append, length_toBits, hwidth]
  cases bytes with
  | nil =>
      have hle := h.length_le
      rw [hlength, bitsOf_nil, List.length_nil] at hle
      omega
  | cons byte rest =>
      refine ⟨byte, rfl, ?_⟩
      rw [bitsOf_cons] at h
      have heq := (List.prefix_of_prefix_length_le h
        (List.prefix_append (byteBits byte) (bitsOf rest)) (by
          rw [hlength, length_byteBits])).eq_of_length (by
            rw [hlength, length_byteBits])
      rw [byteBits, ← hwidth, toBits_add, toBits_add] at heq
      have hback := (List.append_inj heq (by rw [length_toBits])).2
      have hmiddle := (List.append_inj hback (by rw [length_toBits,
        length_toBits])).1
      have hvalues := congrArg ofBits hmiddle
      rw [ofBits_toBits, ofBits_toBits] at hvalues
      exact hvalues.symm

theorem head?_escaped (payload : List UInt8) :
    (escaped 0 payload).head? = payload.head? := by
  cases payload with
  | nil => rfl
  | cons byte rest =>
      rw [escaped, if_neg (by omega)]
      rfl

theorem escaped_append (zeros : ℕ) (front back : List UInt8) :
    ∃ seen, escaped zeros (front ++ back) =
      escaped zeros front ++ escaped seen back := by
  induction front generalizing zeros with
  | nil => exact ⟨zeros, rfl⟩
  | cons byte front ih =>
      rw [List.cons_append, escaped, escaped]
      split
      · obtain ⟨seen, hseen⟩ := ih (if byte = 0 then 1 else 0)
        exact ⟨seen, by rw [hseen, List.cons_append, List.cons_append]⟩
      · obtain ⟨seen, hseen⟩ := ih (if byte = 0 then zeros + 1 else 0)
        exact ⟨seen, by rw [hseen, List.cons_append]⟩

theorem length_escaped_le (zeros : ℕ) (payload : List UInt8) :
    (escaped zeros payload).length ≤ 2 * payload.length := by
  induction payload generalizing zeros with
  | nil => exact le_rfl
  | cons byte payload ih =>
      rw [escaped]
      split
      · have hrest := ih (if byte = 0 then 1 else 0)
        simp only [List.length_cons]
        omega
      · have hrest := ih (if byte = 0 then zeros + 1 else 0)
        simp only [List.length_cons]
        omega

theorem bitsOf_mono {front whole : List UInt8} (h : front <+: whole) :
    bitsOf front <+: bitsOf whole := by
  obtain ⟨rest, rfl⟩ := h
  rw [bitsOf_append]
  exact List.prefix_append _ _

/-- What a unit begins with is read, if it is within the limit. -/
theorem front_prefix_bytes (front tail : List UInt8) {limit : ℕ}
    (hlimit : (escaped 0 front).length ≤ limit) :
    front <+: (Rbsp.new (escaped 0 front ++ tail) limit).bytes := by
  have hfront : (Rbsp.new (escaped 0 front ++ tail)
      (escaped 0 front).length).bytes = front := by
    have hsame := Rbsp.bytes_new_escaped front le_rfl
    unfold Rbsp.new at hsame ⊢
    dsimp only at hsame ⊢
    rw [List.zipIdx_append, List.take_left' (by rw [List.length_zipIdx])]
    rwa [List.take_of_length_le (by rw [List.length_zipIdx])] at hsame
  obtain ⟨later, hbytes, -, -⟩ := Rbsp.new_of_le (escaped 0 front ++ tail)
    hlimit
  rw [hbytes, hfront]
  exact List.prefix_append _ _

/-- Half of the limit is enough for a payload: at most every other byte of a
unit is an escape. -/
theorem bits_prefix_of_short {front tail : List UInt8} {bits : List Bool}
    {limit : ℕ} (hbits : bits <+: bitsOf front)
    (hlimit : bits.length + 8 ≤ 4 * limit) :
    bits <+: bitsOf (Rbsp.new (escaped 0 front ++ tail) limit).bytes := by
  obtain ⟨seen, hseen⟩ := escaped_append 0
    (front.take ((bits.length + 7) / 8)) (front.drop ((bits.length + 7) / 8))
  rw [List.take_append_drop] at hseen
  have hle := hbits.length_le
  rw [length_bitsOf] at hle
  have hlength := length_escaped_le 0 (front.take ((bits.length + 7) / 8))
  rw [List.length_take, Nat.min_eq_left (by omega)] at hlength
  have hfront := front_prefix_bytes (front.take ((bits.length + 7) / 8))
    (escaped seen (front.drop ((bits.length + 7) / 8)) ++ tail)
    (show _ ≤ limit by omega)
  rw [← List.append_assoc, ← hseen] at hfront
  refine List.IsPrefix.trans ?_ (bitsOf_mono hfront)
  refine List.prefix_of_prefix_length_le hbits
    (bitsOf_mono (List.take_prefix _ _)) ?_
  rw [length_bitsOf, List.length_take]
  omega

/-- Reading the payload of a unit. -/
theorem run_of_reads {α : Type} {m : BitReading α} {bits : List Bool} {a : α}
    {rbsp : Rbsp} (hreads : m.Reads bits a) (hbits : bits <+: bitsOf rbsp.bytes) :
    m.run rbsp.reader =
      .ok (a, { data := rbsp.bytes, bit := bits.length }) := by
  have hrun := hreads rbsp.reader (Nat.zero_le _) hbits
  unfold BitReader.ahead Rbsp.reader at hrun
  rwa [Nat.zero_add] at hrun

/-- What a short payload of a unit says is read, whatever stands behind it. -/
theorem map_run_of_reads_short {α : Type} {m : BitReading α}
    {bits : List Bool} {a : α} {front tail : List UInt8} {limit : ℕ}
    (hreads : m.Reads bits a) (hbits : bits <+: bitsOf front)
    (hlimit : bits.length + 8 ≤ 4 * limit) :
    (m.run (Rbsp.new (escaped 0 front ++ tail) limit).reader).map Prod.fst =
      .ok a := by
  rw [run_of_reads hreads (bits_prefix_of_short hbits hlimit)]
  rfl

theorem exists_reads_of_run {α : Type} {m : BitReading α} {a : α} {rbsp : Rbsp}
    {stop : BitReader} (h : m.run rbsp.reader = .ok (a, stop)) :
    ∃ bits, bits <+: bitsOf rbsp.bytes ∧ m.Reads bits a ∧
      stop = { data := rbsp.bytes, bit := bits.length } := by
  obtain ⟨bits, hbits, rfl, hreads⟩ := m.taken _ a stop (Nat.zero_le _) h
  refine ⟨bits, hbits, hreads, ?_⟩
  unfold BitReader.ahead Rbsp.reader
  rw [Nat.zero_add]

/-- A reading of a unit ends with an error, or with a result within the unit's
payload, which is made of bytes of the unit. -/
def StaysInside {α : Type} (m : BitReading α) (nal : List UInt8)
    (limit : ℕ) : Prop :=
  (Rbsp.new nal limit).bytes.Sublist nal ∧
    ((∃ error, m.run (Rbsp.new nal limit).reader = .error error) ∨
      ∃ value stop, m.run (Rbsp.new nal limit).reader = .ok (value, stop) ∧
        stop.bit ≤ 8 * (Rbsp.new nal limit).bytes.length)

theorem staysInside {α : Type} (m : BitReading α) (nal : List UInt8)
    (limit : ℕ) : StaysInside m nal limit := by
  constructor
  · have hkept := ((unescaped_sublist 0 (nal.zipIdx.take limit)).trans
      (List.take_sublist _ _)).map Prod.fst
    rwa [List.zipIdx_map_fst] at hkept
  · cases hrun : m.run (Rbsp.new nal limit).reader with
    | error error => exact Or.inl ⟨error, rfl⟩
    | ok result =>
        obtain ⟨hdata, -, hwithin⟩ := m.bit_le_of_run (Nat.zero_le _) hrun
        refine Or.inr ⟨result.1, result.2, rfl, ?_⟩
        rw [BitReader.Within, hdata] at hwithin
        exact hwithin

end Segmentor
