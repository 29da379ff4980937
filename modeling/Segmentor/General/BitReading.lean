import Mathlib.Tactic
import Segmentor.General.Fallible

/-!
# Reading bits

Bytes are strings of bits, the most significant first.  A reading is a function
from a place in them to a value and a later place that looks at nothing past
that place, and it carries this as a field: what it took it takes again
wherever the same bits stand.  Readings compose, so a reader of a whole syntax
structure does not look ahead either, and reading what a writer wrote is a
matter of reading each piece.
-/

namespace Segmentor.General

/-! ## Numbers as bits -/

/-- The low `width` bits of a number, the most significant first. -/
def toBits : ℕ → ℕ → List Bool
  | 0, _ => []
  | width + 1, value => value.testBit width :: toBits width value

def ofBits (bits : List Bool) : ℕ :=
  bits.foldl (fun value bit => 2 * value + bit.toNat) 0

@[simp] theorem length_toBits (width value : ℕ) :
    (toBits width value).length = width := by
  induction width with
  | zero => rfl
  | succ width ih => rw [toBits, List.length_cons, ih]

theorem foldl_toBits (width value start : ℕ) :
    (toBits width value).foldl (fun value bit => 2 * value + bit.toNat) start =
      start * 2 ^ width + value % 2 ^ width := by
  induction width generalizing start with
  | zero => simp [toBits, Nat.mod_one]
  | succ width ih =>
      have hbit : (value.testBit width).toNat = value / 2 ^ width % 2 := by
        rw [Nat.testBit_eq_decide_div_mod_eq]
        rcases Nat.mod_two_eq_zero_or_one (value / 2 ^ width) with h | h <;>
          simp [h]
      rw [toBits, List.foldl_cons, ih, hbit, Nat.mod_pow_succ]
      ring

theorem ofBits_toBits (width value : ℕ) :
    ofBits (toBits width value) = value % 2 ^ width := by
  unfold ofBits
  rw [foldl_toBits, Nat.zero_mul, Nat.zero_add]

theorem toBits_congr {width value other : ℕ}
    (h : ∀ index < width, value.testBit index = other.testBit index) :
    toBits width value = toBits width other := by
  induction width with
  | zero => rfl
  | succ width ih =>
      rw [toBits, toBits, h width (Nat.lt_succ_self width),
        ih fun index hindex => h index (hindex.trans (Nat.lt_succ_self width))]

theorem toBits_mod (width value : ℕ) :
    toBits width (value % 2 ^ width) = toBits width value := by
  refine toBits_congr fun index hindex => ?_
  rw [Nat.testBit_mod_two_pow, decide_eq_true hindex, Bool.true_and]

theorem toBits_two_pow_add (width value : ℕ) :
    toBits width (2 ^ width + value) = toBits width value := by
  refine toBits_congr fun index hindex => ?_
  exact Nat.testBit_two_pow_add_gt hindex value

theorem foldl_start (bits : List Bool) (start : ℕ) :
    bits.foldl (fun value bit => 2 * value + bit.toNat) start =
      start * 2 ^ bits.length + ofBits bits := by
  induction bits generalizing start with
  | nil => simp [ofBits]
  | cons bit bits ih =>
      unfold ofBits at ih ⊢
      rw [List.foldl_cons, List.foldl_cons, ih, ih (2 * 0 + bit.toNat),
        List.length_cons, pow_succ]
      ring

theorem ofBits_cons (bit : Bool) (bits : List Bool) :
    ofBits (bit :: bits) = bit.toNat * 2 ^ bits.length + ofBits bits := by
  rw [ofBits, List.foldl_cons, foldl_start, Nat.mul_zero, Nat.zero_add]

theorem ofBits_lt (bits : List Bool) : ofBits bits < 2 ^ bits.length := by
  induction bits with
  | nil => exact Nat.one_pos
  | cons bit bits ih =>
      have hbit : bit.toNat ≤ 1 := Bool.toNat_le bit
      have hmul : bit.toNat * 2 ^ bits.length ≤ 1 * 2 ^ bits.length :=
        Nat.mul_le_mul_right _ hbit
      rw [ofBits_cons, List.length_cons, pow_succ]
      omega

theorem toBits_ofBits (bits : List Bool) :
    toBits bits.length (ofBits bits) = bits := by
  induction bits with
  | nil => rfl
  | cons bit bits ih =>
      have hlt := ofBits_lt bits
      cases bit with
      | false =>
          rw [ofBits_cons, Bool.toNat_false, Nat.zero_mul, Nat.zero_add,
            List.length_cons, toBits, ih, Nat.testBit_lt_two_pow hlt]
      | true =>
          rw [ofBits_cons, Bool.toNat_true, Nat.one_mul, List.length_cons,
            toBits, toBits_two_pow_add, ih, Nat.testBit_two_pow_add_eq,
            Nat.testBit_lt_two_pow hlt, Bool.not_false]

/-! ## Bytes as bits -/

def byteBits (byte : UInt8) : List Bool :=
  toBits 8 byte.toNat

def bitsOf (data : List UInt8) : List Bool :=
  data.flatMap byteBits

@[simp] theorem bitsOf_nil : bitsOf [] = [] := rfl

@[simp] theorem bitsOf_cons (byte : UInt8) (data : List UInt8) :
    bitsOf (byte :: data) = byteBits byte ++ bitsOf data := rfl

@[simp] theorem length_byteBits (byte : UInt8) :
    (byteBits byte).length = 8 :=
  length_toBits 8 byte.toNat

@[simp] theorem length_bitsOf (data : List UInt8) :
    (bitsOf data).length = 8 * data.length := by
  induction data with
  | nil => rfl
  | cons byte data ih =>
      rw [bitsOf_cons, List.length_append, ih, length_byteBits,
        List.length_cons]
      omega

theorem bitsOf_append (front back : List UInt8) :
    bitsOf (front ++ back) = bitsOf front ++ bitsOf back :=
  List.flatMap_append

theorem getElem?_toBits {width value index : ℕ} (h : index < width) :
    (toBits width value)[index]? = some (value.testBit (width - 1 - index)) := by
  induction width generalizing index with
  | zero => omega
  | succ width ih =>
      cases index with
      | zero => rfl
      | succ index =>
          rw [toBits, List.getElem?_cons_succ, ih (by omega)]
          congr 2
          omega

theorem getElem?_bitsOf (data : List UInt8) (index : ℕ) :
    (bitsOf data)[index]? =
      data[index / 8]?.map fun byte => byte.toNat.testBit (7 - index % 8) := by
  induction data generalizing index with
  | nil => rfl
  | cons byte data ih =>
      rw [bitsOf_cons]
      by_cases hfirst : index < 8
      · rw [List.getElem?_append_left (by rwa [length_byteBits]),
          Nat.div_eq_of_lt hfirst, Nat.mod_eq_of_lt hfirst]
        exact getElem?_toBits hfirst
      · rw [List.getElem?_append_right (by rw [length_byteBits]; omega),
          length_byteBits, ih]
        have hnext : index / 8 = (index - 8) / 8 + 1 := by omega
        have hsame : (index - 8) % 8 = index % 8 := by omega
        rw [hnext, List.getElem?_cons_succ, hsame]

/-! ## Readers -/

/-- A place in bytes, counted in bits. -/
structure BitReader where
  data : List UInt8
  bit : ℕ
  deriving DecidableEq, Repr

namespace BitReader

def left (reader : BitReader) : List Bool :=
  (bitsOf reader.data).drop reader.bit

def ahead (reader : BitReader) (count : ℕ) : BitReader :=
  { reader with bit := reader.bit + count }

/-- The place is not past the end. -/
def Within (reader : BitReader) : Prop :=
  reader.bit ≤ 8 * reader.data.length

@[simp] theorem data_ahead (reader : BitReader) (count : ℕ) :
    (reader.ahead count).data = reader.data := rfl

@[simp] theorem bit_ahead (reader : BitReader) (count : ℕ) :
    (reader.ahead count).bit = reader.bit + count := rfl

@[simp] theorem ahead_zero (reader : BitReader) : reader.ahead 0 = reader := rfl

theorem ahead_ahead (reader : BitReader) (first second : ℕ) :
    (reader.ahead first).ahead second = reader.ahead (first + second) := by
  unfold ahead
  rw [Nat.add_assoc]

theorem left_ahead (reader : BitReader) (count : ℕ) :
    (reader.ahead count).left = reader.left.drop count := by
  unfold left
  rw [List.drop_drop, data_ahead, bit_ahead]

theorem length_left (reader : BitReader) :
    reader.left.length = 8 * reader.data.length - reader.bit := by
  unfold left
  rw [List.length_drop, length_bitsOf]

theorem Within.ahead {reader : BitReader} (h : reader.Within)
    {bits : List Bool} (hbits : bits <+: reader.left) :
    (reader.ahead bits.length).Within := by
  have hle := hbits.length_le
  rw [length_left] at hle
  unfold Within at h ⊢
  rw [bit_ahead, data_ahead]
  omega

end BitReader

theorem prefix_append_iff {front back whole : List Bool} :
    front ++ back <+: whole ↔
      front <+: whole ∧ back <+: whole.drop front.length := by
  constructor
  · rintro ⟨rest, rfl⟩
    rw [List.append_assoc, List.drop_left]
    exact ⟨List.prefix_append _ _, List.prefix_append _ _⟩
  · rintro ⟨⟨rest, rfl⟩, hback⟩
    rw [List.drop_left] at hback
    exact List.prefix_append_right_inj _ |>.mpr hback

/-! ## Readings -/

section Readings

variable {ε α β : Type}

/-- Wherever `bits` come next, `run` gives `a` and stops after them. -/
def Takes (run : BitReader → Except ε (α × BitReader)) (bits : List Bool)
    (a : α) : Prop :=
  ∀ reader : BitReader, reader.Within → bits <+: reader.left →
    run reader = .ok (a, reader.ahead bits.length)

/-- A reader that looks at nothing past the place it stops at. -/
structure Reading (ε α : Type) where
  run : BitReader → Except ε (α × BitReader)
  taken : ∀ reader a stop, reader.Within → run reader = .ok (a, stop) →
    ∃ bits, bits <+: reader.left ∧ stop = reader.ahead bits.length ∧
      Takes run bits a

namespace Reading

/-- What `m` reads from a string of bits, whatever follows it. -/
def Reads (m : Reading ε α) (bits : List Bool) (a : α) : Prop :=
  Takes m.run bits a

protected def pure (a : α) : Reading ε α where
  run reader := .ok (a, reader)
  taken := by
    intro reader b stop _ hrun
    obtain ⟨rfl, rfl⟩ := Prod.mk.inj (Except.ok.inj hrun)
    exact ⟨[], List.nil_prefix, rfl, fun _ _ _ => rfl⟩

theorem takes_bind {m : BitReader → Except ε (α × BitReader)}
    {f : α → BitReader → Except ε (β × BitReader)} {front back : List Bool}
    {a : α} {b : β} (hm : Takes m front a) (hf : Takes (f a) back b) :
    Takes (fun reader => m reader >>= fun next => f next.1 next.2)
      (front ++ back) b := by
  intro reader hwithin hbits
  obtain ⟨hfront, hback⟩ := prefix_append_iff.mp hbits
  rw [← BitReader.left_ahead] at hback
  dsimp only
  rw [hm reader hwithin hfront, ok_bind]
  dsimp only
  rw [hf _ (hwithin.ahead hfront) hback, BitReader.ahead_ahead,
    List.length_append]

protected def bind (m : Reading ε α) (f : α → Reading ε β) : Reading ε β where
  run reader := m.run reader >>= fun next => (f next.1).run next.2
  taken := by
    intro reader b stop hwithin hrun
    obtain ⟨⟨a, middle⟩, hm, hf⟩ := bind_eq_ok_iff.mp hrun
    obtain ⟨front, hfront, rfl, htakes⟩ := m.taken reader a middle hwithin hm
    obtain ⟨back, hback, rfl, htakes'⟩ :=
      (f a).taken _ b stop (hwithin.ahead hfront) hf
    rw [BitReader.left_ahead] at hback
    refine ⟨front ++ back, prefix_append_iff.mpr ⟨hfront, hback⟩, ?_,
      @takes_bind _ _ _ m.run (fun a => (f a).run) _ _ _ _ htakes htakes'⟩
    rw [BitReader.ahead_ahead, List.length_append]

instance : Monad (Reading ε) where
  pure := Reading.pure
  bind := Reading.bind

/-- Fails wherever it is. -/
def fail (error : ε) : Reading ε α where
  run _ := .error error
  taken := by
    intro reader a stop _ hrun
    cases hrun

/-- A value that needs no bits. -/
def ofExcept : Except ε α → Reading ε α
  | .ok a => pure a
  | .error error => fail error

theorem head?_left (reader : BitReader) :
    reader.left.head? =
      reader.data[reader.bit / 8]?.map fun byte =>
        byte.toNat.testBit (7 - reader.bit % 8) := by
  rw [BitReader.left, List.head?_drop, getElem?_bitsOf]

theorem takes_nextBit (truncated : ε) (bit : Bool) :
    Takes (fun reader =>
      (okOr reader.data[reader.bit / 8]? truncated).map fun byte =>
        (byte.toNat.testBit (7 - reader.bit % 8), reader.ahead 1))
      [bit] bit := by
  intro reader _ hbits
  have hhead : reader.left.head? = some bit := by
    obtain ⟨rest, hrest⟩ := hbits
    rw [← hrest]
    rfl
  rw [head?_left, Option.map_eq_some_iff] at hhead
  obtain ⟨byte, hbyte, hbit⟩ := hhead
  dsimp only
  rw [hbyte, okOr_some, Except.map, hbit]
  rfl

/-- The next bit; `truncated` if there is none. -/
def nextBit (truncated : ε) : Reading ε Bool where
  run reader :=
    (okOr reader.data[reader.bit / 8]? truncated).map fun byte =>
      (byte.toNat.testBit (7 - reader.bit % 8), reader.ahead 1)
  taken := by
    intro reader bit stop _ hrun
    have hhead := head?_left reader
    cases hbyte : reader.data[reader.bit / 8]? with
    | none =>
        rw [hbyte] at hrun
        cases hrun
    | some byte =>
        rw [hbyte] at hrun hhead
        obtain ⟨rfl, rfl⟩ := Prod.mk.inj (Except.ok.inj hrun)
        obtain ⟨rest, hrest⟩ := List.head?_eq_some_iff.mp hhead
        refine ⟨[byte.toNat.testBit (7 - reader.bit % 8)], ?_, rfl,
          takes_nextBit truncated _⟩
        rw [hrest]
        exact List.prefix_append [_] rest

/-- Moves on over `count` bits; `truncated` if there are fewer. -/
def skipBits (truncated : ε) (count : ℕ) : Reading ε Unit where
  run reader :=
    if 8 * reader.data.length < reader.bit + count then .error truncated
    else .ok ((), reader.ahead count)
  taken := by
    intro reader _ stop _ hrun
    by_cases hover : 8 * reader.data.length < reader.bit + count
    · rw [if_pos hover] at hrun
      cases hrun
    · rw [if_neg hover] at hrun
      obtain ⟨-, rfl⟩ := Prod.mk.inj (Except.ok.inj hrun)
      have hlength : (reader.left.take count).length = count := by
        rw [List.length_take, BitReader.length_left]
        omega
      refine ⟨reader.left.take count, List.take_prefix _ _, by rw [hlength], ?_⟩
      intro other hwithin hbits
      have hle := hbits.length_le
      rw [hlength, BitReader.length_left] at hle
      unfold BitReader.Within at hwithin
      dsimp only
      rw [hlength, if_neg (by omega)]

/-! ## What readings read -/

theorem reads_pure (a : α) : (pure a : Reading ε α).Reads [] a :=
  fun _ _ _ => rfl

theorem reads_ofExcept {x : Except ε α} {a : α} (h : x = .ok a) :
    (ofExcept x).Reads [] a := by
  rw [h]
  exact reads_pure a

theorem Reads.bind {m : Reading ε α} {f : α → Reading ε β}
    {front back : List Bool} {a : α} {b : β} (hm : m.Reads front a)
    (hf : (f a).Reads back b) : (m >>= f).Reads (front ++ back) b :=
  @takes_bind _ _ _ m.run (fun a => (f a).run) _ _ _ _ hm hf

/-- A reading of the first of several fields, and of the others after it. -/
theorem Reads.field {m : Reading ε α} {f : α → Reading ε β}
    {front : List Bool} {fields : List (List Bool)} {a : α} {b : β}
    (hm : m.Reads front a) (hf : (f a).Reads fields.flatten b) :
    (m >>= f).Reads (front :: fields).flatten b :=
  hm.bind hf

/-- A reading behind one that takes no bits. -/
theorem Reads.after {m : Reading ε α} {f : α → Reading ε β}
    {bits : List Bool} {a : α} {b : β} (hm : m.Reads [] a)
    (hf : (f a).Reads bits b) : (m >>= f).Reads bits b :=
  hm.bind hf

/-- A reading in front of one that takes no bits. -/
theorem Reads.before {m : Reading ε α} {f : α → Reading ε β}
    {bits : List Bool} {a : α} {b : β} (hm : m.Reads bits a)
    (hf : (f a).Reads [] b) : (m >>= f).Reads bits b := by
  rw [← List.append_nil bits]
  exact hm.bind hf

/-- A reading whose value is made of what was read. -/
theorem Reads.map {m : Reading ε α} {bits : List Bool} {a : α}
    (hm : m.Reads bits a) (f : α → β) :
    (m >>= fun a => pure (f a)).Reads bits (f a) :=
  hm.before (reads_pure (f a))

/-- A last field. -/
theorem Reads.last {m : Reading ε α} {bits : List Bool} {a : α}
    (hm : m.Reads bits a) : m.Reads [bits].flatten a := by
  rwa [List.flatten_singleton]

/-- A field that is there under a condition, with a value where it is not. -/
def present (condition : Prop) [Decidable condition] (m : Reading ε α)
    (missing : α) : Reading ε α :=
  if condition then m else pure missing

theorem reads_there {condition : Prop} [Decidable condition]
    {m : Reading ε α} {bits : List Bool} {a missing : α} (h : condition)
    (hm : m.Reads bits a) : (present condition m missing).Reads bits a := by
  unfold present
  rwa [if_pos h]

theorem reads_absent {condition : Prop} [Decidable condition]
    {m : Reading ε α} {missing : α} (h : ¬ condition) :
    (present condition m missing).Reads [] missing := by
  unfold present
  rw [if_neg h]
  exact reads_pure missing

theorem reads_present {condition : Prop} [Decidable condition]
    {m : Reading ε α} {bits : List Bool} {a missing : α}
    (hm : condition → m.Reads bits a) (hmissing : ¬ condition → missing = a) :
    (present condition m missing).Reads
      (if condition then bits else []) a := by
  by_cases h : condition
  · rw [if_pos h]
    exact reads_there h (hm h)
  · rw [if_neg h, ← hmissing h]
    exact reads_absent h

/-- A field that was written under an equivalent condition. -/
theorem reads_optional {condition written : Prop} [Decidable condition]
    [Decidable written] {m : Reading ε α} {bits : List Bool} {a missing : α}
    (h : condition ↔ written) (hm : condition → m.Reads bits a) :
    (present condition m missing).Reads (if written then bits else [])
      (if condition then a else missing) := by
  by_cases hcondition : condition
  · rw [if_pos hcondition, if_pos (h.mp hcondition)]
    exact reads_there hcondition (hm hcondition)
  · rw [if_neg hcondition, if_neg (mt h.mpr hcondition)]
    exact reads_absent hcondition

/-- A field that was written if a value is there. -/
theorem reads_elim {γ : Type} {condition : Prop} [Decidable condition]
    {write : γ → List Bool} {read : γ → α} {m : Reading ε α} {missing : α}
    {value : Option γ} (h : condition ↔ value.isSome)
    (hm : ∀ c ∈ value, m.Reads (write c) (read c)) :
    (present condition m missing).Reads (value.elim [] write)
      (value.elim missing read) := by
  cases value with
  | none => exact reads_absent (mt h.mp Bool.false_ne_true)
  | some c => exact reads_there (h.mpr rfl) (hm c rfl)

theorem reads_skipBits (truncated : ε) {bits : List Bool} {count : ℕ}
    (h : bits.length = count) : (skipBits truncated count).Reads bits () := by
  intro reader hwithin hbits
  have hle := hbits.length_le
  rw [BitReader.length_left] at hle
  unfold BitReader.Within at hwithin
  unfold skipBits
  dsimp only
  rw [if_neg (by omega), h]

/-- The same reading again and again. -/
def times : ℕ → Reading ε α → Reading ε (List α)
  | 0, _ => pure []
  | count + 1, m => do
      let a ← m
      let others ← times count m
      pure (a :: others)

theorem reads_times {γ : Type} {m : Reading ε α} {write : γ → List Bool}
    {value : γ → α} {l : List γ}
    (h : ∀ c ∈ l, m.Reads (write c) (value c)) :
    (times l.length m).Reads (l.flatMap write) (l.map value) := by
  induction l with
  | nil => exact reads_pure []
  | cons c l ih =>
      rw [List.flatMap_cons]
      refine (h c List.mem_cons_self).bind ?_
      exact (ih fun d hd => h d (List.mem_cons_of_mem c hd)).map _

/-- The same reading for each index. -/
theorem reads_times_range {m : Reading ε α} {write : ℕ → List Bool}
    {value : ℕ → α} {count : ℕ}
    (h : ∀ index < count, m.Reads (write index) (value index)) :
    (times count m).Reads ((List.range count).flatMap write)
      ((List.range count).map value) := by
  have hall := reads_times fun index hindex => h index (List.mem_range.mp hindex)
  rwa [List.length_range] at hall

/-- One reading after another. -/
def forEach (l : List α) (f : α → Reading ε Unit) : Reading ε Unit :=
  match l with
  | [] => pure ()
  | a :: l => do
      f a
      forEach l f

theorem reads_forEach {write : α → List Bool} {f : α → Reading ε Unit}
    {l : List α} (h : ∀ a ∈ l, (f a).Reads (write a) ()) :
    (forEach l f).Reads (l.flatMap write) () := by
  induction l with
  | nil => exact reads_pure ()
  | cons a l ih =>
      rw [List.flatMap_cons, forEach]
      exact (h a List.mem_cons_self).bind
        (ih fun c hc => h c (List.mem_cons_of_mem a hc))

theorem forEach_map {γ : Type} (l : List γ) (g : γ → α)
    (f : α → Reading ε Unit) :
    forEach (l.map g) f = forEach l fun c => f (g c) := by
  induction l with
  | nil => rfl
  | cons c l ih => rw [List.map_cons, forEach, forEach, ih]

/-! ## Readings that invert a code -/

/-- `m` reads the valid values off their codes, each where its code comes next
and nowhere else, and stops behind it. -/
def Inverts (m : Reading ε α) (code : α → List Bool) (valid : α → Prop) :
    Prop :=
  ∀ reader a stop, m.run reader = .ok (a, stop) ↔
    valid a ∧ code a <+: reader.left ∧ stop = reader.ahead (code a).length

section Inverts

variable {m : Reading ε α} {f : α → Reading ε β} {code : α → List Bool}
  {valid : α → Prop}

theorem Inverts.reads (h : m.Inverts code valid) {a : α} (ha : valid a) :
    m.Reads (code a) a :=
  fun reader _ hbits => (h reader a _).mpr ⟨ha, hbits, rfl⟩

theorem run_bind_eq_ok_iff {reader stop : BitReader} {b : β} :
    (m >>= f).run reader = .ok (b, stop) ↔
      ∃ a middle, m.run reader = .ok (a, middle) ∧
        (f a).run middle = .ok (b, stop) := by
  show m.run reader >>= _ = _ ↔ _
  rw [bind_eq_ok_iff]
  exact Prod.exists

/-- A code of two parts, the second of which depends on what the first says. -/
theorem Inverts.bind {rest : α → β → List Bool} {follows : α → β → Prop}
    {whole : β → List Bool} {both : β → Prop} (hm : m.Inverts code valid)
    (hf : ∀ a, valid a → (f a).Inverts (rest a) (follows a))
    (hboth : ∀ b, both b ↔ ∃ a, valid a ∧ follows a b)
    (hwhole : ∀ a b, valid a → follows a b → whole b = code a ++ rest a b) :
    (m >>= f).Inverts whole both := by
  intro reader b stop
  rw [run_bind_eq_ok_iff]
  constructor
  · rintro ⟨a, middle, hfirst, hsecond⟩
    obtain ⟨ha, hfront, rfl⟩ := (hm reader a middle).mp hfirst
    obtain ⟨hb, hback, rfl⟩ := (hf a ha _ b stop).mp hsecond
    rw [BitReader.left_ahead] at hback
    rw [hwhole a b ha hb, BitReader.ahead_ahead, List.length_append]
    exact ⟨(hboth b).mpr ⟨a, ha, hb⟩, prefix_append_iff.mpr ⟨hfront, hback⟩,
      rfl⟩
  · rintro ⟨hb, hbits, rfl⟩
    obtain ⟨a, ha, hfollows⟩ := (hboth b).mp hb
    rw [hwhole a b ha hfollows] at hbits ⊢
    obtain ⟨hfront, hback⟩ := prefix_append_iff.mp hbits
    rw [← BitReader.left_ahead] at hback
    refine ⟨a, reader.ahead (code a).length,
      (hm reader a _).mpr ⟨ha, hfront, rfl⟩,
      (hf a ha _ b _).mpr ⟨hfollows, hback, ?_⟩⟩
    rw [BitReader.ahead_ahead, List.length_append]

/-- A value of no bits behind what says which. -/
theorem Inverts.bind_value {follows : α → β → Prop} {whole : β → List Bool}
    {both : β → Prop} (hm : m.Inverts code valid)
    (hf : ∀ a, valid a → (f a).Inverts (fun _ => []) (follows a))
    (hboth : ∀ b, both b ↔ ∃ a, valid a ∧ follows a b)
    (hwhole : ∀ a b, valid a → follows a b → whole b = code a) :
    (m >>= f).Inverts whole both :=
  hm.bind hf hboth fun a b ha hb => by rw [hwhole a b ha hb, List.append_nil]

theorem inverts_ofExcept (x : Except ε α) :
    (ofExcept x).Inverts (fun _ => []) (fun a => x = .ok a) := by
  intro reader a stop
  cases x with
  | error error => exact iff_of_false nofun fun h => nomatch h.1
  | ok b =>
      show Except.ok (b, reader) = _ ↔ _
      simp [eq_comm]

theorem inverts_pure (a : α) :
    (pure a : Reading ε α).Inverts (fun _ => []) (fun b => b = a) := by
  intro reader b stop
  show Except.ok (a, reader) = _ ↔ _
  simp [eq_comm]

theorem inverts_nextBit (truncated : ε) :
    (nextBit truncated).Inverts (fun bit => [bit]) (fun _ => True) := by
  intro reader bit stop
  have hhead := head?_left reader
  unfold nextBit
  dsimp only
  cases hbyte : reader.data[reader.bit / 8]? with
  | none =>
      rw [hbyte, Option.map_none, List.head?_eq_none_iff] at hhead
      refine iff_of_false nofun ?_
      rintro ⟨-, hbits, -⟩
      rw [hhead, List.prefix_nil] at hbits
      cases hbits
  | some byte =>
      rw [hbyte, Option.map_some] at hhead
      obtain ⟨rest, hleft⟩ := List.head?_eq_some_iff.mp hhead
      rw [okOr_some, Except.map, hleft, List.cons_prefix_cons,
        Except.ok.injEq, Prod.mk.injEq]
      constructor
      · rintro ⟨rfl, rfl⟩
        exact ⟨trivial, ⟨rfl, List.nil_prefix⟩, rfl⟩
      · rintro ⟨-, ⟨rfl, -⟩, rfl⟩
        exact ⟨rfl, rfl⟩

/-- As many codes one after another. -/
theorem Inverts.times (hm : m.Inverts code valid) (count : ℕ) :
    (times count m).Inverts (fun l => l.flatMap code)
      (fun l => l.length = count ∧ ∀ a ∈ l, valid a) := by
  induction count with
  | zero =>
      intro reader l stop
      rw [Reading.times, inverts_pure]
      constructor
      · rintro ⟨rfl, -, hstop⟩
        exact ⟨⟨rfl, nofun⟩, List.nil_prefix, hstop⟩
      · rintro ⟨⟨hlength, -⟩, -, hstop⟩
        obtain rfl := List.length_eq_zero_iff.mp hlength
        exact ⟨rfl, List.nil_prefix, hstop⟩
  | succ count ih =>
      refine @Inverts.bind _ _ _ m _ code valid
        (fun _ l => l.tail.flatMap code)
        (fun a l => ∃ others, (others.length = count ∧ ∀ b ∈ others, valid b) ∧
          l = a :: others) _ _ hm (fun a _ => ?_) (fun l => ?_) ?_
      · refine ih.bind_value (fun others _ => inverts_pure (a :: others))
          (fun l => Iff.rfl) ?_
        rintro others l - rfl
        rfl
      · constructor
        · rintro ⟨hlength, hvalid⟩
          obtain ⟨a, others, rfl⟩ := List.exists_cons_of_length_eq_add_one hlength
          obtain ⟨ha, hothers⟩ := List.forall_mem_cons.mp hvalid
          exact ⟨a, ha, others, ⟨Nat.succ.inj hlength, hothers⟩, rfl⟩
        · rintro ⟨a, ha, others, ⟨hlength, hothers⟩, rfl⟩
          exact ⟨congrArg Nat.succ hlength,
            List.forall_mem_cons.mpr ⟨ha, hothers⟩⟩
      · rintro a l - ⟨others, -, rfl⟩
        exact List.flatMap_cons

end Inverts

/-! ## What a reading depends on -/

theorem run_bind_congr {m : Reading ε α} {f g : α → Reading ε β}
    {reader : BitReader}
    (h : ∀ a stop, m.run reader = .ok (a, stop) → f a = g a) :
    (m >>= f).run reader = (m >>= g).run reader := by
  show m.run reader >>= _ = m.run reader >>= _
  cases hrun : m.run reader with
  | error error => rfl
  | ok next =>
      rw [ok_bind, ok_bind, h next.1 next.2 hrun]

/-- A reading goes forwards, and not past the end. -/
theorem bit_le_of_run (m : Reading ε α) {reader stop : BitReader} {a : α}
    (hwithin : reader.Within) (hrun : m.run reader = .ok (a, stop)) :
    stop.data = reader.data ∧ reader.bit ≤ stop.bit ∧ stop.Within := by
  obtain ⟨bits, hbits, rfl, -⟩ := m.taken reader a stop hwithin hrun
  exact ⟨rfl, Nat.le_add_right _ _, hwithin.ahead hbits⟩

end Reading

end Readings

/-! ## Exp-Golomb codes -/

/-- As many zeros as there are digits after the first of the successor, and
the successor in binary. -/
def golomb (n : ℕ) : List Bool :=
  List.replicate (n + 1).log2 false ++ toBits ((n + 1).log2 + 1) (n + 1)

/-- The number of a signed value: positive values at the odd numbers. -/
def signedCode (value : ℤ) : ℕ :=
  if 0 < value then (2 * value - 1).toNat else (-2 * value).toNat

def signedGolomb (value : ℤ) : List Bool :=
  golomb (signedCode value)

theorem golomb_eq (n : ℕ) :
    golomb n = List.replicate (n + 1).log2 false ++
      true :: toBits (n + 1).log2 (n + 1) := by
  have htop : (n + 1).testBit (n + 1).log2 = true :=
    Nat.testBit_log2 (Nat.succ_ne_zero n)
  rw [golomb, toBits, htop]

theorem length_golomb (n : ℕ) :
    (golomb n).length = 2 * (n + 1).log2 + 1 := by
  rw [golomb, List.length_append, List.length_replicate, length_toBits]
  omega

end Segmentor.General
