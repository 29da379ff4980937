import Mathlib.Tactic

/-!
# Modes of a block cipher

A block cipher under one key, and the two ways a message is enciphered with
it.  In cipher block chaining each block is combined with the enciphered block
before it; in counter mode the bytes are combined with a keystream that depends
on their positions only.
-/

namespace Segmentor.General

/-- A cipher on blocks of `size` bytes under one key. -/
structure BlockCipher (size : ℕ) where
  encrypt : List UInt8 → List UInt8
  decrypt : List UInt8 → List UInt8
  length_encrypt : ∀ block, block.length = size →
    (encrypt block).length = size
  length_decrypt : ∀ block, block.length = size →
    (decrypt block).length = size
  decrypt_encrypt : ∀ block, block.length = size →
    decrypt (encrypt block) = block

theorem BlockCipher.encrypt_inj {size : ℕ} (cipher : BlockCipher size)
    {block other : List UInt8} (hblock : block.length = size)
    (hother : other.length = size) :
    cipher.encrypt block = cipher.encrypt other ↔ block = other := by
  constructor
  · intro heq
    rw [← cipher.decrypt_encrypt block hblock, heq,
      cipher.decrypt_encrypt other hother]
  · rintro rfl
    rfl

theorem length_swap {block block' : List UInt8}
    (h : block.length = block'.length) (other : List UInt8) :
    (Equiv.swap block block' other).length = other.length := by
  rw [Equiv.swap_apply_def]
  split
  · rename_i heq
    rw [heq, h]
  · split
    · rename_i heq
      rw [heq, h]
    · rfl

/-- The cipher that exchanges the blocks of each pair and leaves others as they
are. -/
def BlockCipher.exchanging (size : ℕ)
    (pairs : List (List UInt8 × List UInt8))
    (h : ∀ pair ∈ pairs, pair.1.length = pair.2.length) : BlockCipher size :=
  let cipher : Equiv.Perm (List UInt8) :=
    pairs.foldr (fun pair others => Equiv.swap pair.1 pair.2 * others) 1
  have hlength : ∀ block, (cipher block).length = block.length := by
    intro block
    induction pairs with
    | nil => rfl
    | cons pair pairs ih =>
        obtain ⟨hpair, hpairs⟩ := List.forall_mem_cons.mp h
        exact (length_swap hpair _).trans (ih hpairs)
  { encrypt := cipher
    decrypt := cipher.symm
    length_encrypt := fun block hblock => (hlength block).trans hblock
    length_decrypt := fun block hblock => by
      rw [← hlength, Equiv.apply_symm_apply, hblock]
    decrypt_encrypt := fun block _ => Equiv.symm_apply_apply cipher block }

/-! ## Combining bytes -/

/-- Each byte combined with the one at its place in `key`, where there is
one. -/
def xorBytes (bytes key : List UInt8) : List UInt8 :=
  bytes.mapIdx fun index byte => byte ^^^ key.getD index 0

@[simp] theorem length_xorBytes (bytes key : List UInt8) :
    (xorBytes bytes key).length = bytes.length := by
  simp [xorBytes]

theorem xor_xor_cancel (byte key : UInt8) : byte ^^^ key ^^^ key = byte := by
  rw [UInt8.xor_assoc, UInt8.xor_self, UInt8.xor_zero]

theorem xor_xor_eq_iff (byte key other : UInt8) :
    byte ^^^ key ^^^ other = byte ↔ key = other := by
  constructor
  · intro heq
    have hkeys : byte ^^^ (byte ^^^ (key ^^^ other)) = byte ^^^ byte := by
      rw [← UInt8.xor_assoc byte key, heq]
    rw [← UInt8.xor_assoc, UInt8.xor_self, UInt8.zero_xor] at hkeys
    have hother : key ^^^ other ^^^ other = 0 ^^^ other := by rw [hkeys]
    rwa [xor_xor_cancel, UInt8.zero_xor] at hother
  · rintro rfl
    exact xor_xor_cancel byte key

@[simp] theorem xorBytes_xorBytes (bytes key : List UInt8) :
    xorBytes (xorBytes bytes key) key = bytes := by
  unfold xorBytes
  rw [List.mapIdx_mapIdx]
  apply List.ext_getElem
  · simp
  · intro index hindex hbyte
    rw [List.getElem_mapIdx]
    exact xor_xor_cancel _ _

/-! ## Cipher block chaining -/

section Chaining

variable {size : ℕ} (cipher : BlockCipher size)

def cbcEncrypt : List UInt8 → List (List UInt8) → List (List UInt8)
  | _, [] => []
  | chain, block :: blocks =>
      let enciphered := cipher.encrypt (xorBytes block chain)
      enciphered :: cbcEncrypt enciphered blocks

def cbcDecrypt : List UInt8 → List (List UInt8) → List (List UInt8)
  | _, [] => []
  | chain, block :: blocks =>
      xorBytes (cipher.decrypt block) chain :: cbcDecrypt block blocks

theorem cbcDecrypt_cbcEncrypt {chain : List UInt8}
    {blocks : List (List UInt8)} (h : ∀ block ∈ blocks, block.length = size) :
    cbcDecrypt cipher chain (cbcEncrypt cipher chain blocks) = blocks := by
  induction blocks generalizing chain with
  | nil => rfl
  | cons block blocks ih =>
      obtain ⟨hblock, hblocks⟩ := List.forall_mem_cons.mp h
      dsimp only [cbcEncrypt, cbcDecrypt]
      rw [cipher.decrypt_encrypt _ (by rw [length_xorBytes, hblock]),
        xorBytes_xorBytes, ih hblocks]

end Chaining

/-! ## Counter mode -/

/-- The bytes of the blocks of `size` bytes that a counter gives. -/
def keystream (size : ℕ) (block : ℕ → List UInt8) (position : ℕ) : UInt8 :=
  (block (position / size)).getD (position % size) 0

/-- Bytes combined with a keystream from a position on. -/
def xorFrom (stream : ℕ → UInt8) (position : ℕ) (bytes : List UInt8) :
    List UInt8 :=
  bytes.mapIdx fun index byte => byte ^^^ stream (position + index)

/-- Parts of a message combined with a keystream that runs on from each part
to the next. -/
def counterMode (stream : ℕ → UInt8) :
    ℕ → List (List UInt8) → List (List UInt8)
  | _, [] => []
  | position, part :: parts =>
      xorFrom stream position part ::
        counterMode stream (position + part.length) parts

section Counter

variable {stream other : ℕ → UInt8} {position : ℕ}

@[simp] theorem length_xorFrom (stream : ℕ → UInt8) (position : ℕ)
    (bytes : List UInt8) :
    (xorFrom stream position bytes).length = bytes.length := by
  simp [xorFrom]

theorem xorFrom_append (bytes others : List UInt8) :
    xorFrom stream position (bytes ++ others) =
      xorFrom stream position bytes ++
        xorFrom stream (position + bytes.length) others := by
  unfold xorFrom
  rw [List.mapIdx_append]
  congr 1
  apply List.mapIdx_eq_mapIdx_iff.mpr
  intro index hindex
  rw [Nat.add_assoc, Nat.add_comm bytes.length]

theorem xorFrom_xorFrom_eq_iff {bytes : List UInt8} :
    xorFrom other position (xorFrom stream position bytes) = bytes ↔
      ∀ index < bytes.length,
        stream (position + index) = other (position + index) := by
  constructor
  · intro heq index hindex
    have hbyte := congrArg (·[index]?) heq
    simpa [xorFrom, hindex, xor_xor_eq_iff] using hbyte
  · intro h
    apply List.ext_getElem
    · simp
    · intro index hindex hbyte
      simpa [xorFrom, xor_xor_eq_iff] using h index hbyte

theorem counterMode_counterMode_eq_iff {parts : List (List UInt8)} :
    counterMode other position (counterMode stream position parts) = parts ↔
      ∀ index < parts.flatten.length,
        stream (position + index) = other (position + index) := by
  induction parts generalizing position with
  | nil => simp [counterMode]
  | cons part parts ih =>
      dsimp only [counterMode]
      rw [List.cons_eq_cons, length_xorFrom, xorFrom_xorFrom_eq_iff, ih,
        List.flatten_cons, List.length_append]
      constructor
      · rintro ⟨hpart, hparts⟩ index hindex
        rcases Nat.lt_or_ge index part.length with hlt | hge
        · exact hpart index hlt
        · have hlater := hparts (index - part.length) (by omega)
          rwa [Nat.add_assoc, Nat.add_sub_cancel' hge] at hlater
      · intro h
        refine ⟨fun index hindex => h index (by omega), fun index hindex => ?_⟩
        rw [Nat.add_assoc]
        exact h (part.length + index) (by omega)

/-- Two keystreams agree on the bytes of a block up to some byte if and only if
the blocks they are of agree so far. -/
theorem take_eq_take_iff {block block' : List UInt8} {size count : ℕ}
    (hblock : block.length = size) (hblock' : block'.length = size)
    (hcount : count ≤ size) :
    block.take count = block'.take count ↔
      ∀ index < count, block.getD index 0 = block'.getD index 0 := by
  constructor
  · intro heq index hindex
    have hbyte := congrArg (·[index]?) heq
    simp only [List.getElem?_take, if_pos hindex] at hbyte
    rw [List.getD_eq_getElem?_getD, List.getD_eq_getElem?_getD, hbyte]
  · intro h
    apply List.ext_getElem
    · rw [List.length_take, List.length_take, hblock, hblock']
    · intro index hindex hindex'
      rw [List.length_take] at hindex hindex'
      have hbyte := h index (by omega)
      rw [List.getD_eq_getElem?_getD, List.getD_eq_getElem?_getD,
        List.getElem?_eq_getElem (by omega),
        List.getElem?_eq_getElem (by omega)] at hbyte
      simpa using hbyte

end Counter

/-! ## Padding to whole blocks -/

/-- PKCS #7: as many bytes as are missing to a whole block, at least one, each
of them that number. -/
def pad (size : ℕ) (bytes : List UInt8) : List UInt8 :=
  let missing := size - bytes.length % size
  bytes ++ List.replicate missing (UInt8.ofNat missing)

/-- The message without its padding, where that is well formed. -/
def unpad (size : ℕ) (bytes : List UInt8) : Option (List UInt8) :=
  match bytes.getLast? with
  | some last =>
      let missing := last.toNat
      if 0 < missing ∧ missing ≤ size ∧ missing ≤ bytes.length ∧
          bytes.drop (bytes.length - missing) = List.replicate missing last then
        some (bytes.take (bytes.length - missing))
      else none
  | none => none

theorem length_pad {size : ℕ} (hsize : 0 < size) (bytes : List UInt8) :
    (pad size bytes).length = size * (bytes.length / size + 1) := by
  have hmod := Nat.mod_lt bytes.length hsize
  have hdiv := Nat.div_add_mod bytes.length size
  unfold pad
  rw [List.length_append, List.length_replicate, Nat.mul_succ]
  omega

theorem unpad_pad {size : ℕ} (hsize : 0 < size) (hbyte : size < 256)
    (bytes : List UInt8) : unpad size (pad size bytes) = some bytes := by
  have hmod := Nat.mod_lt bytes.length hsize
  unfold pad unpad
  dsimp only
  generalize hmissing : size - bytes.length % size = missing
  have hpos : 0 < missing := by omega
  have hlast : (bytes ++ List.replicate missing (UInt8.ofNat missing)).getLast?
      = some (UInt8.ofNat missing) := by
    rw [List.getLast?_append, List.getLast?_replicate, if_neg (by omega)]
    rfl
  have hnumber : (UInt8.ofNat missing).toNat = missing := by
    rw [UInt8.toNat_ofNat']
    omega
  rw [hlast]
  dsimp only
  rw [hnumber, List.length_append, List.length_replicate,
    Nat.add_sub_cancel_right, List.drop_left, List.take_left]
  exact if_pos ⟨hpos, by omega, by omega, rfl⟩

end Segmentor.General
