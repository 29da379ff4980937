import Mathlib.Tactic

/-!
# Big-endian words

Numbers written as a fixed number of bytes, the most significant first, and
read back.  A number that fits its width survives; a signed number is written
as the word of its residue.
-/

namespace Segmentor.General

/-- The low `width` bytes of a number, the most significant first. -/
def encode : ℕ → ℕ → List UInt8
  | 0, _ => []
  | width + 1, n => encode width (n / 256) ++ [UInt8.ofNat n]

def decode (bytes : List UInt8) : ℕ :=
  bytes.foldl (fun n byte => n * 256 + byte.toNat) 0

@[simp] theorem length_encode (width n : ℕ) : (encode width n).length = width := by
  induction width generalizing n with
  | zero => rfl
  | succ width ih => simp [encode, ih]

theorem drop_encode (width n : ℕ) :
    (encode (width + 1) n).drop 1 = encode width n := by
  induction width generalizing n with
  | zero => simp [encode]
  | succ width ih =>
      rw [encode, List.drop_append_of_le_length (by simp), ih, encode]

theorem encode_of_lt {width n : ℕ} (hn : n < 256 ^ width) (padding : ℕ) :
    encode (padding + width) n =
      List.replicate padding 0 ++ encode width n := by
  induction width generalizing n with
  | zero =>
      obtain rfl : n = 0 := by simpa using hn
      rw [encode, List.append_nil, Nat.add_zero]
      induction padding with
      | zero => rfl
      | succ padding ih =>
          rw [encode, Nat.zero_div, ih, List.replicate_succ']
          rfl
  | succ width ih =>
      rw [← Nat.add_assoc, encode, ih (Nat.div_lt_of_lt_mul (by
        rwa [pow_succ'] at hn)), encode, List.append_assoc]

@[simp] theorem decode_nil : decode [] = 0 := rfl

theorem decode_concat (bytes : List UInt8) (byte : UInt8) :
    decode (bytes ++ [byte]) = decode bytes * 256 + byte.toNat := by
  simp [decode]

theorem decode_encode (width n : ℕ) :
    decode (encode width n) = n % 256 ^ width := by
  induction width generalizing n with
  | zero => simp [encode, Nat.mod_one]
  | succ width ih =>
      have hpow : 256 ^ (width + 1) = 256 * 256 ^ width := pow_succ' 256 width
      rw [encode, decode_concat, ih, UInt8.toNat_ofNat', hpow, Nat.mod_mul]
      omega

theorem decode_encode_of_lt {width n : ℕ} (hn : n < 256 ^ width) :
    decode (encode width n) = n := by
  rw [decode_encode, Nat.mod_eq_of_lt hn]

/-- Bytes are the digits of what they say. -/
theorem encode_decode (bytes : List UInt8) :
    encode bytes.length (decode bytes) = bytes := by
  induction bytes using List.reverseRecOn with
  | nil => rfl
  | append_singleton bytes byte ih =>
      have hlt := byte.toNat_lt
      have hdiv : (decode bytes * 256 + byte.toNat) / 256 = decode bytes := by
        omega
      have hbyte : UInt8.ofNat (decode bytes * 256 + byte.toNat) = byte := by
        apply UInt8.toNat.inj
        rw [UInt8.toNat_ofNat']
        omega
      rw [List.length_append, List.length_singleton, decode_concat, encode,
        hdiv, ih, hbyte]

theorem decode_lt (bytes : List UInt8) : decode bytes < 256 ^ bytes.length := by
  induction bytes using List.reverseRecOn with
  | nil => simp
  | append_singleton bytes byte ih =>
      rw [decode_concat, List.length_append, List.length_singleton, pow_succ]
      have := byte.toNat_lt
      omega

/-- The word a signed number is written as. -/
def toWord (bits : ℕ) (z : ℤ) : ℕ :=
  (z % 2 ^ bits).toNat

/-- The signed number a word stands for. -/
def ofWord (bits n : ℕ) : ℤ :=
  if n < 2 ^ (bits - 1) then n else n - 2 ^ bits

theorem toWord_lt (bits : ℕ) (z : ℤ) : toWord bits z < 2 ^ bits := by
  have hpos : (0 : ℤ) < 2 ^ bits := by positivity
  have h₀ := Int.emod_nonneg z hpos.ne'
  have h₁ := Int.emod_lt_of_pos z hpos
  have hcast : ((2 ^ bits : ℕ) : ℤ) = 2 ^ bits := by push_cast; rfl
  unfold toWord
  omega

theorem ofWord_toWord {z : ℤ} (hlow : -2 ^ 31 ≤ z) (hhigh : z < 2 ^ 31) :
    ofWord 32 (toWord 32 z) = z := by
  unfold ofWord toWord
  by_cases hz : 0 ≤ z
  · rw [Int.emod_eq_of_lt hz (by omega), if_pos (by norm_num; omega)]
    omega
  · have hmod : z % 2 ^ 32 = z + 2 ^ 32 := by omega
    rw [hmod, if_neg (by norm_num; omega)]
    omega

end Segmentor.General
