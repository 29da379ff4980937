import Segmentor.SampleCiphers

/-!
# Block chaining

In `cbc1` one chain runs through the whole blocks of all protected ranges; in
`cbcs` it starts again in every range, over the blocks of a pattern.  A whole
segment is one chain over its blocks and their padding.
-/

namespace Segmentor

open General

/-- The enciphered block, which is also the next chain. -/
def chainBlock (cipher : BlockCipher 16) (chain block : List UInt8) :
    List UInt8 × List UInt8 :=
  let enciphered := cipher.encrypt (xorBytes block chain)
  (enciphered, enciphered)

namespace SampleDecryptor

/-- The blocks of a sample that are enciphered. -/
def chainedBlocks (decryptor : SampleDecryptor) (ranges : List (ℕ × ℕ)) :
    List (ℕ × ℕ) :=
  match decryptor.scheme with
  | .cbcs => ranges.flatMap (selectedBlocks decryptor.selects)
  | _ => ranges.flatMap (blockSpans 16)

/-- The standard's encryption: the blocks that are enciphered as one message,
or as one for each range. -/
def standardChaining (decryptor : SampleDecryptor) (iv data : List UInt8)
    (ranges : List (ℕ × ℕ)) : List UInt8 :=
  match decryptor.scheme with
  | .cbcs =>
      ranges.foldl
        (fun data range =>
          let blocks := selectedBlocks decryptor.selects range
          scatter blocks
            (cbcEncrypt decryptor.cipher iv (gather data blocks)) data)
        data
  | _ =>
      let blocks := ranges.flatMap (blockSpans 16)
      scatter blocks (cbcEncrypt decryptor.cipher iv (gather data blocks)) data

end SampleDecryptor

/-! ## Chains -/

section Chains

variable {cipher : BlockCipher 16} {chain : List UInt8}
  {blocks : List (List UInt8)}

theorem thread_chainBlock :
    (thread (chainBlock cipher) chain blocks).2 =
      cbcEncrypt cipher chain blocks := by
  induction blocks generalizing chain with
  | nil => rfl
  | cons block blocks ih =>
      dsimp only [thread, cbcEncrypt, chainBlock]
      rw [ih]

theorem thread_cbcBlock :
    (thread (SampleDecryptor.cbcBlock cipher) chain blocks).2 =
      cbcDecrypt cipher chain blocks := by
  induction blocks generalizing chain with
  | nil => rfl
  | cons block blocks ih =>
      dsimp only [thread, cbcDecrypt, SampleDecryptor.cbcBlock]
      rw [ih]

end Chains

/-- A change of blocks that leaves them blocks. -/
def KeepsBlocks (f : List UInt8 → List UInt8 → List UInt8 × List UInt8) :
    Prop :=
  ∀ chain block, block.length = 16 → (f chain block).2.length = block.length

theorem keepsBlocks_chainBlock (cipher : BlockCipher 16) :
    KeepsBlocks (chainBlock cipher) := by
  intro chain block hblock
  have hxor := length_xorBytes block chain
  exact (cipher.length_encrypt _ (hxor.trans hblock)).trans hblock.symm

theorem keepsBlocks_cbcBlock (cipher : BlockCipher 16) :
    KeepsBlocks (SampleDecryptor.cbcBlock cipher) := by
  intro chain block hblock
  have hxor := length_xorBytes (cipher.decrypt block) chain
  exact hxor.trans ((cipher.length_decrypt block hblock).trans hblock.symm)

/-! ## Loops over blocks -/

section Loops

variable {f : List UInt8 → List UInt8 → List UInt8 × List UInt8}
  {iv data : List UInt8} {blocks : List (ℕ × ℕ)}

theorem foldl_blocks (h : Apart 0 blocks data.length)
    (hblocks : ∀ block ∈ blocks, block.2 - block.1 = 16)
    (hf : KeepsBlocks f) :
    (blocks.foldl (onSpan f) (iv, data)).2 =
        scatter blocks (thread f iv (gather data blocks)).2 data ∧
      Fitting blocks (thread f iv (gather data blocks)).2 := by
  have hparts := length_of_mem_gather h hblocks
  have hkeeps : ∀ state, ∀ part ∈ gather data blocks,
      (f state part).2.length = part.length := by
    intro state part hpart
    exact hf state part (hparts part hpart)
  rw [foldl_onSpan h rfl hkeeps]
  exact ⟨rfl, fitting_thread (fitting_gather h rfl) hkeeps⟩

theorem length_foldl_blocks (h : Apart 0 blocks data.length)
    (hblocks : ∀ block ∈ blocks, block.2 - block.1 = 16)
    (hf : KeepsBlocks f) :
    (blocks.foldl (onSpan f) (iv, data)).2.length = data.length := by
  obtain ⟨hloop, hfits⟩ := @foldl_blocks f iv data blocks h hblocks hf
  rw [hloop]
  exact length_scatter h rfl hfits

theorem getElem?_foldl_blocks (h : Apart 0 blocks data.length)
    (hblocks : ∀ block ∈ blocks, block.2 - block.1 = 16)
    (hf : KeepsBlocks f) {index : ℕ}
    (hindex : ∀ block ∈ blocks, ¬ (block.1 ≤ index ∧ index < block.2)) :
    (blocks.foldl (onSpan f) (iv, data)).2[index]? = data[index]? := by
  obtain ⟨hloop, hfits⟩ := @foldl_blocks f iv data blocks h hblocks hf
  rw [hloop]
  exact getElem?_scatter h rfl hfits hindex

theorem foldl_cbcBlock_chainBlock {cipher : BlockCipher 16}
    (h : Apart 0 blocks data.length)
    (hblocks : ∀ block ∈ blocks, block.2 - block.1 = 16) :
    (blocks.foldl (onSpan (SampleDecryptor.cbcBlock cipher))
      (iv, (blocks.foldl (onSpan (chainBlock cipher)) (iv, data)).2)).2 =
      data := by
  obtain ⟨henciphered, hfits⟩ :=
    @foldl_blocks _ iv data blocks h hblocks (keepsBlocks_chainBlock cipher)
  have hlength := @length_foldl_blocks _ iv data blocks h hblocks
    (keepsBlocks_chainBlock cipher)
  have hparts := length_of_mem_gather h hblocks
  rw [(@foldl_blocks _ iv _ blocks (hlength.symm ▸ h) hblocks
    (keepsBlocks_cbcBlock cipher)).1, henciphered,
    gather_scatter h rfl hfits, thread_chainBlock, thread_cbcBlock,
    cbcDecrypt_cbcEncrypt cipher hparts]
  rw [thread_chainBlock] at hfits
  rw [scatter_scatter h rfl hfits (fitting_gather h rfl),
    scatter_gather h rfl]

end Loops

/-! ## Range by range -/

section Ranges

variable {selects : ℕ → Bool}
  {f : List UInt8 → List UInt8 → List UInt8 × List UInt8}
  {iv data : List UInt8} {ranges : List (ℕ × ℕ)}

/-- The part of one range, its selected blocks changed. -/
def changeRange (selects : ℕ → Bool)
    (f : List UInt8 → List UInt8 → List UInt8 × List UInt8)
    (iv part : List UInt8) : List UInt8 :=
  (eachBlock selects f iv part).2

theorem changeRange_eq (selects : ℕ → Bool)
    (f : List UInt8 → List UInt8 → List UInt8 × List UInt8)
    (iv part : List UInt8) :
    changeRange selects f iv part =
      ((selectedBlocks selects (0, part.length)).foldl (onSpan f)
        (iv, part)).2 := by
  unfold changeRange
  rw [eachBlock_eq]

theorem apart_selectedBlocks_zero (selects : ℕ → Bool) (length : ℕ) :
    Apart 0 (selectedBlocks selects (0, length)) length :=
  @apart_selectedBlocks selects (0, length) (Nat.zero_le length)

theorem length_changeRange (hf : KeepsBlocks f) (part : List UInt8) :
    (changeRange selects f iv part).length = part.length := by
  rw [changeRange_eq]
  exact length_foldl_blocks (apart_selectedBlocks_zero selects part.length)
    (fun _ => length_of_mem_selectedBlocks) hf

theorem changeRange_changeRange (cipher : BlockCipher 16)
    (part : List UInt8) :
    changeRange selects (SampleDecryptor.cbcBlock cipher) iv
      (changeRange selects (chainBlock cipher) iv part) = part := by
  rw [changeRange_eq selects (SampleDecryptor.cbcBlock cipher),
    length_changeRange (keepsBlocks_chainBlock cipher), changeRange_eq]
  exact foldl_cbcBlock_chainBlock
    (apart_selectedBlocks_zero selects part.length)
    fun _ => length_of_mem_selectedBlocks

/-- One range after the other, each with its own chain. -/
def rangeByRange (selects : ℕ → Bool)
    (f : List UInt8 → List UInt8 → List UInt8 × List UInt8)
    (iv data : List UInt8) (ranges : List (ℕ × ℕ)) : List UInt8 :=
  (ranges.foldl (onSpan fun _ part => ((), changeRange selects f iv part))
    ((), data)).2

theorem thread_map {g : List UInt8 → List UInt8}
    (parts : List (List UInt8)) :
    (thread (fun _ part => ((), g part)) () parts).2 = parts.map g := by
  induction parts with
  | nil => rfl
  | cons part parts ih =>
      dsimp only [thread]
      rw [ih, List.map_cons]

theorem rangeByRange_eq (h : Apart 0 ranges data.length)
    (hf : KeepsBlocks f) :
    rangeByRange selects f iv data ranges =
      scatter ranges ((gather data ranges).map (changeRange selects f iv))
        data := by
  have hloop := @foldl_onSpan _ _
    (fun (_ : Unit) part => ((), changeRange selects f iv part)) ranges data
    () _ h rfl fun _ part _ => length_changeRange hf part
  unfold rangeByRange
  rw [hloop, thread_map]

theorem fitting_map_changeRange (h : Apart 0 ranges data.length)
    (hf : KeepsBlocks f) :
    Fitting ranges ((gather data ranges).map (changeRange selects f iv)) := by
  have hfits := fitting_gather h rfl
  unfold Fitting at hfits ⊢
  rw [List.forall₂_map_right_iff]
  refine hfits.imp fun range part hpart => ?_
  rw [length_changeRange hf, hpart]

theorem length_rangeByRange (h : Apart 0 ranges data.length)
    (hf : KeepsBlocks f) :
    (rangeByRange selects f iv data ranges).length = data.length := by
  rw [rangeByRange_eq h hf]
  exact length_scatter h rfl (fitting_map_changeRange h hf)

theorem rangeByRange_rangeByRange (cipher : BlockCipher 16)
    (h : Apart 0 ranges data.length) :
    rangeByRange selects (SampleDecryptor.cbcBlock cipher) iv
      (rangeByRange selects (chainBlock cipher) iv data ranges) ranges =
      data := by
  have hlength := @length_rangeByRange selects _ iv data ranges h
    (keepsBlocks_chainBlock cipher)
  have hfits := @fitting_map_changeRange selects _ iv data ranges h
    (keepsBlocks_chainBlock cipher)
  have hback : ((gather data ranges).map
      (changeRange selects (chainBlock cipher) iv)).map
        (changeRange selects (SampleDecryptor.cbcBlock cipher) iv) =
      gather data ranges := by
    rw [List.map_map]
    conv_rhs => rw [← List.map_id (gather data ranges)]
    apply List.map_congr_left
    intro part _
    exact changeRange_changeRange cipher part
  rw [rangeByRange_eq (hlength.symm ▸ h) (keepsBlocks_cbcBlock cipher),
    rangeByRange_eq h (keepsBlocks_chainBlock cipher),
    gather_scatter h rfl hfits, hback,
    scatter_scatter h rfl hfits (fitting_gather h rfl), scatter_gather h rfl]

theorem apart_selectedBlocks_of_cons {range : ℕ × ℕ} {first : ℕ}
    (h : Apart first (range :: ranges) data.length) :
    Apart 0 (selectedBlocks selects range) data.length := by
  obtain ⟨-, hrange, hrest⟩ := h
  have hblocks := (@apart_selectedBlocks selects range hrange).append
    (apart_nil.mpr hrest.le)
  rw [List.append_nil] at hblocks
  exact hblocks.of_le (Nat.zero_le _)

/-- A range is changed in place where its selected blocks are. -/
theorem rangeByRange_eq_foldl {first : ℕ}
    (h : Apart first ranges data.length) (hf : KeepsBlocks f) :
    rangeByRange selects f iv data ranges =
      ranges.foldl
        (fun data range =>
          ((selectedBlocks selects range).foldl (onSpan f) (iv, data)).2)
        data := by
  unfold rangeByRange
  induction ranges generalizing first data with
  | nil => rfl
  | cons range ranges ih =>
      have hlength := @length_foldl_blocks f iv data
        (selectedBlocks selects range) (apart_selectedBlocks_of_cons h)
        (fun _ => length_of_mem_selectedBlocks) hf
      obtain ⟨-, hrange, hrest⟩ := h
      have hstop := hrest.le
      have hkeeps : KeepsLengths f (selectedBlocks selects range) := by
        intro state block hblock part hpart
        rw [length_of_mem_selectedBlocks hblock] at hpart
        exact hf state part hpart
      have hpart : (stretch data range.1 range.2).length =
          range.2 - range.1 := by
        rw [length_stretch]
        omega
      have hstep := @onSpan_foldl _ _ f data iv
        (selectedBlocks selects range) range (apart_selectedBlocks hrange)
        hstop hkeeps
      have hnow : (onSpan (fun _ part =>
          ((), changeRange selects f iv part)) ((), data) range).2 =
          ((selectedBlocks selects range).foldl (onSpan f) (iv, data)).2 := by
        rw [← hstep, seenFrom_selectedBlocks]
        dsimp only [onSpan]
        rw [changeRange_eq, hpart]
      rw [List.foldl_cons, List.foldl_cons, ← hnow]
      exact ih (hnow ▸ hlength.symm ▸ hrest)

theorem getElem?_rangeByRange {first : ℕ} (h : Apart first ranges data.length)
    (hf : KeepsBlocks f) {index : ℕ}
    (hindex : ∀ block ∈ ranges.flatMap (selectedBlocks selects),
      ¬ (block.1 ≤ index ∧ index < block.2)) :
    (rangeByRange selects f iv data ranges)[index]? = data[index]? := by
  rw [rangeByRange_eq_foldl h hf]
  induction ranges generalizing first data with
  | nil => rfl
  | cons range ranges ih =>
      rw [List.flatMap_cons, List.forall_mem_append] at hindex
      have hapart := @apart_selectedBlocks_of_cons selects _ _ _ _ h
      have hlength := @length_foldl_blocks f iv data _ hapart
        (fun _ => length_of_mem_selectedBlocks) hf
      obtain ⟨-, -, hrest⟩ := h
      rw [List.foldl_cons, ih (hlength.symm ▸ hrest) hindex.2]
      exact getElem?_foldl_blocks hapart
        (fun _ => length_of_mem_selectedBlocks) hf hindex.1

end Ranges

/-! ## Deciphering -/

/-- The pattern of `Cipher` selects the same blocks as that of the
decryptor. -/
theorem encryptRange_eq (cipher : BlockCipher 16) (iv data : List UInt8)
    (scheme : SourceScheme) (crypt skip : ℕ) :
    encryptRange cipher iv data ⟨crypt, skip⟩ =
      changeRange (SampleDecryptor.selects ⟨cipher, scheme, crypt, skip⟩)
        (chainBlock cipher) iv data := by
  have hselects : (fun index => decide (¬ (crypt + skip ≠ 0 ∧
      crypt ≤ index % (crypt + skip)))) =
        SampleDecryptor.selects ⟨cipher, scheme, crypt, skip⟩ := by
    funext index
    unfold SampleDecryptor.selects
    dsimp only
    apply decide_eq_decide.mpr
    rw [not_and_or, not_not, Nat.not_le]
  unfold encryptRange changeRange
  dsimp only
  rw [hselects]
  rfl

theorem selectedBlocks_true (range : ℕ × ℕ) :
    selectedBlocks (fun _ => true) range = blockSpans 16 range := by
  unfold selectedBlocks
  rw [List.filter_true, List.zipIdx_map_fst]

namespace SampleDecryptor

variable {decryptor : SampleDecryptor} {iv data : List UInt8}
  {subsamples : List Subsample} {ranges : List (ℕ × ℕ)}

theorem apart_flatMap_blockSpans (h : Apart 0 ranges data.length) :
    Apart 0 (ranges.flatMap (blockSpans 16)) data.length :=
  h.flatMap fun _ hrange => apart_blockSpans 16 (h.mem hrange).2.1

theorem length_of_mem_flatMap_blockSpans :
    ∀ block ∈ ranges.flatMap (blockSpans 16), block.2 - block.1 = 16 := by
  intro block hblock
  obtain ⟨range, -, hmem⟩ := List.mem_flatMap.mp hblock
  exact length_of_mem_blockSpans hmem

/-- A sample changed block by block, in one chain or in one for each range. -/
def changed (decryptor : SampleDecryptor)
    (f : List UInt8 → List UInt8 → List UInt8 × List UInt8)
    (iv data : List UInt8) (ranges : List (ℕ × ℕ)) : List UInt8 :=
  match decryptor.scheme with
  | .cbcs => rangeByRange decryptor.selects f iv data ranges
  | _ => ((ranges.flatMap (blockSpans 16)).foldl (onSpan f) (iv, data)).2

theorem decrypt_chained
    (hscheme : decryptor.scheme = .cbc1 ∨ decryptor.scheme = .cbcs)
    (hranges : protectedRanges data.length subsamples = .ok ranges) :
    decryptor.decrypt iv data subsamples =
      .ok (decryptor.changed (cbcBlock decryptor.cipher) iv data ranges) := by
  have hapart := apart_protectedRanges hranges
  unfold decrypt
  rw [hranges, ok_bind]
  congr 1
  unfold changed
  rcases hscheme with hscheme | hscheme
  · rw [hscheme]
    dsimp only
    rw [foldl_eachBlock hapart (keepsBlocks_cbcBlock decryptor.cipher),
      funext selectedBlocks_true]
  · rw [hscheme]
    rfl

theorem standardChaining_eq (hapart : Apart 0 ranges data.length) :
    decryptor.standardChaining iv data ranges =
      decryptor.changed (chainBlock decryptor.cipher) iv data ranges := by
  have hkeeps := keepsBlocks_chainBlock decryptor.cipher
  have hmessage := @foldl_blocks _ iv data _
    (apart_flatMap_blockSpans hapart) length_of_mem_flatMap_blockSpans hkeeps
  rw [thread_chainBlock] at hmessage
  unfold standardChaining changed
  cases decryptor.scheme with
  | cbcs =>
      dsimp only
      rw [rangeByRange_eq_foldl hapart hkeeps]
      clear hmessage
      generalize 0 = first at hapart
      induction ranges generalizing first data with
      | nil => rfl
      | cons range ranges ih =>
          have hblocks := @apart_selectedBlocks_of_cons decryptor.selects
            _ _ _ _ hapart
          have hrange := @foldl_blocks _ iv data _ hblocks
            (fun _ => length_of_mem_selectedBlocks) hkeeps
          have hlength := @length_foldl_blocks _ iv data _ hblocks
            (fun _ => length_of_mem_selectedBlocks) hkeeps
          rw [thread_chainBlock] at hrange
          rw [List.foldl_cons, List.foldl_cons, ← hrange.1]
          exact ih _ (hlength.symm ▸ hapart.2.2)
  | cenc => exact hmessage.1.symm
  | cens => exact hmessage.1.symm
  | cbc1 => exact hmessage.1.symm

theorem length_changed
    {f : List UInt8 → List UInt8 → List UInt8 × List UInt8}
    (hapart : Apart 0 ranges data.length) (hf : KeepsBlocks f) :
    (decryptor.changed f iv data ranges).length = data.length := by
  have hmessage := @length_foldl_blocks f iv data _
    (apart_flatMap_blockSpans hapart) length_of_mem_flatMap_blockSpans hf
  unfold changed
  cases decryptor.scheme with
  | cbcs => exact length_rangeByRange hapart hf
  | cenc => exact hmessage
  | cens => exact hmessage
  | cbc1 => exact hmessage

/-- A clear byte, a skipped block and a trailing partial block stay as they
are. -/
theorem getElem?_changed
    {f : List UInt8 → List UInt8 → List UInt8 × List UInt8}
    (hapart : Apart 0 ranges data.length) (hf : KeepsBlocks f) {index : ℕ}
    (hindex : ∀ block ∈ decryptor.chainedBlocks ranges,
      ¬ (block.1 ≤ index ∧ index < block.2)) :
    (decryptor.changed f iv data ranges)[index]? = data[index]? := by
  have hmessage := @getElem?_foldl_blocks f iv data _
    (apart_flatMap_blockSpans hapart) length_of_mem_flatMap_blockSpans hf index
  unfold chainedBlocks at hindex
  unfold changed
  cases hscheme : decryptor.scheme with
  | cbcs =>
      rw [hscheme] at hindex
      exact getElem?_rangeByRange hapart hf hindex
  | cenc =>
      rw [hscheme] at hindex
      exact hmessage hindex
  | cens =>
      rw [hscheme] at hindex
      exact hmessage hindex
  | cbc1 =>
      rw [hscheme] at hindex
      exact hmessage hindex

theorem changed_changed (hapart : Apart 0 ranges data.length) :
    decryptor.changed (cbcBlock decryptor.cipher) iv
      (decryptor.changed (chainBlock decryptor.cipher) iv data ranges)
      ranges = data := by
  have hmessage := @foldl_cbcBlock_chainBlock iv data _ decryptor.cipher
    (apart_flatMap_blockSpans hapart) length_of_mem_flatMap_blockSpans
  unfold changed
  cases decryptor.scheme with
  | cbcs => exact rangeByRange_rangeByRange decryptor.cipher hapart
  | cenc => exact hmessage
  | cens => exact hmessage
  | cbc1 => exact hmessage

end SampleDecryptor

/-- Deciphering in the block modes inverts the standard's encryption, which in
`cbcs` is `encryptRange` on each range, and both leave what is not an
enciphered block alone. -/
theorem block_modes_invert {decryptor : SampleDecryptor}
    (hscheme : decryptor.scheme = .cbc1 ∨ decryptor.scheme = .cbcs)
    (iv : List UInt8) {data : List UInt8} {subsamples : List Subsample}
    {ranges : List (ℕ × ℕ)}
    (hranges : protectedRanges data.length subsamples = .ok ranges) :
    decryptor.decrypt iv (decryptor.standardChaining iv data ranges)
        subsamples = .ok data ∧
      (decryptor.scheme = .cbcs →
        decryptor.standardChaining iv data ranges =
          (ranges.foldl
            (onSpan fun _ part =>
              ((), encryptRange decryptor.cipher iv part
                ⟨decryptor.crypt, decryptor.skip⟩))
            ((), data)).2) ∧
      ∃ plain, decryptor.decrypt iv data subsamples = .ok plain ∧
        ∀ index,
          (∀ block ∈ decryptor.chainedBlocks ranges,
            ¬ (block.1 ≤ index ∧ index < block.2)) →
          plain[index]? = data[index]? ∧
            (decryptor.standardChaining iv data ranges)[index]? =
              data[index]? := by
  have hapart := apart_protectedRanges hranges
  have hencrypts := keepsBlocks_chainBlock decryptor.cipher
  have hlength : (decryptor.standardChaining iv data ranges).length =
      data.length := by
    rw [SampleDecryptor.standardChaining_eq hapart]
    exact SampleDecryptor.length_changed hapart hencrypts
  refine ⟨?_, fun hcbcs => ?_, _,
    SampleDecryptor.decrypt_chained hscheme hranges,
    fun index hindex => ⟨?_, ?_⟩⟩
  · rw [SampleDecryptor.decrypt_chained hscheme (hlength.symm ▸ hranges),
      SampleDecryptor.standardChaining_eq hapart,
      SampleDecryptor.changed_changed hapart]
  · rw [SampleDecryptor.standardChaining_eq hapart]
    unfold SampleDecryptor.changed
    rw [hcbcs]
    simp only [encryptRange_eq _ _ _ decryptor.scheme]
    rfl
  · exact SampleDecryptor.getElem?_changed hapart
      (keepsBlocks_cbcBlock decryptor.cipher) hindex
  · rw [SampleDecryptor.standardChaining_eq hapart]
    exact SampleDecryptor.getElem?_changed hapart hencrypts hindex

/-- What AES-128 makes of the first two blocks of a published chaining vector
under the key `2b7e151628aed2a6abf7158809cf4f3c`. -/
def chainedCipher : BlockCipher 16 :=
  .exchanging 16
    [(encode 16 0x6bc0bce12a459991e134741a7f9e1925,
        encode 16 0x7649abac8119b246cee98e9b12e9197d),
      (encode 16 0xd86421fb9f1a1eda505ee1375746972c,
        encode 16 0x5086cb9b507219ee95db113a917678b2)]
    (by simp)

def chainedIv : List UInt8 :=
  encode 16 0x000102030405060708090a0b0c0d0e0f

def chainedFirst : List UInt8 :=
  encode 16 0x6bc1bee22e409f96e93d7e117393172a

/-- Two protected ranges of a block each: `cbcs` starts over in the second,
and `cbc1` chains on. -/
theorem block_modes_invert_two_ranges :
    SampleDecryptor.decrypt ⟨chainedCipher, .cbcs, 1, 9⟩ chainedIv
        ([1, 2] ++ encode 16 0x7649abac8119b246cee98e9b12e9197d ++ [3, 4] ++
          encode 16 0x7649abac8119b246cee98e9b12e9197d)
        [⟨2, 17⟩, ⟨1, 16⟩] =
      .ok ([1, 2] ++ chainedFirst ++ [3, 4] ++ chainedFirst) ∧
    SampleDecryptor.decrypt ⟨chainedCipher, .cbc1, 0, 0⟩ chainedIv
        ([1, 2] ++ encode 16 0x7649abac8119b246cee98e9b12e9197d ++ [4] ++
          encode 16 0x5086cb9b507219ee95db113a917678b2)
        [⟨2, 16⟩, ⟨1, 16⟩] =
      .ok ([1, 2] ++ chainedFirst ++ [4] ++
        encode 16 0xae2d8a571e03ac9c9eb76fac45af8e51) := by
  constructor
  · have hinverts := (@block_modes_invert ⟨chainedCipher, .cbcs, 1, 9⟩
      (.inr rfl) chainedIv
      ([1, 2] ++ chainedFirst ++ [3, 4] ++ chainedFirst)
      [⟨2, 17⟩, ⟨1, 16⟩] [(2, 19), (20, 36)] (by decide)).1
    have hencrypted : SampleDecryptor.standardChaining
        ⟨chainedCipher, .cbcs, 1, 9⟩ chainedIv
        ([1, 2] ++ chainedFirst ++ [3, 4] ++ chainedFirst)
        [(2, 19), (20, 36)] =
        [1, 2] ++ encode 16 0x7649abac8119b246cee98e9b12e9197d ++ [3, 4] ++
          encode 16 0x7649abac8119b246cee98e9b12e9197d := by
      decide +kernel
    rwa [hencrypted] at hinverts
  · have hinverts := (@block_modes_invert ⟨chainedCipher, .cbc1, 0, 0⟩
      (.inl rfl) chainedIv
      ([1, 2] ++ chainedFirst ++ [4] ++
        encode 16 0xae2d8a571e03ac9c9eb76fac45af8e51)
      [⟨2, 16⟩, ⟨1, 16⟩] [(2, 18), (19, 35)] (by decide)).1
    have hencrypted : SampleDecryptor.standardChaining
        ⟨chainedCipher, .cbc1, 0, 0⟩ chainedIv
        ([1, 2] ++ chainedFirst ++ [4] ++
          encode 16 0xae2d8a571e03ac9c9eb76fac45af8e51)
        [(2, 18), (19, 35)] =
        [1, 2] ++ encode 16 0x7649abac8119b246cee98e9b12e9197d ++ [4] ++
          encode 16 0x5086cb9b507219ee95db113a917678b2 := by
      decide +kernel
    rwa [hencrypted] at hinverts

/-! ## Whole segments -/

theorem tiles_blockSpans {length : ℕ} (h : 16 ∣ length) :
    Tiles 0 (blockSpans 16 (0, length)) length := by
  obtain ⟨count, rfl⟩ := h
  unfold blockSpans
  dsimp only
  rw [Nat.sub_zero, Nat.mul_div_cancel_left count (by decide)]
  induction count with
  | zero => rfl
  | succ count ih =>
      rw [List.range_succ, List.map_append, List.map_singleton]
      refine ih.append (tiles_cons.mpr
        ⟨Nat.zero_add _, by dsimp only; omega, ?_⟩)
      rw [tiles_nil]
      omega

/-- A segment enciphered whole is a message of whole blocks, longer than the
segment by at most one, and block chaining from the segment's number gives it
back with its padding. -/
theorem whole_segment_reversible (cipher : BlockCipher 16)
    (segmentIndex : UInt32) (data : List UInt8) :
    let message := Aes128.encryptSegment cipher segmentIndex data
    (16 ∣ message.length ∧ data.length < message.length ∧
      message.length ≤ data.length + 16) ∧
    unpad 16 (cbcDecrypt cipher (encode 16 segmentIndex.toNat)
        (gather message (blockSpans 16 (0, message.length)))).flatten =
      some data := by
  have hpadded := length_pad (show 0 < 16 by decide) data
  have hwhole : 16 ∣ (pad 16 data).length := ⟨_, hpadded⟩
  have hapart : Apart 0 (blockSpans 16 (0, (pad 16 data).length))
      (pad 16 data).length :=
    @apart_blockSpans 16 (0, (pad 16 data).length) (Nat.zero_le _)
  have hsizes : ∀ block ∈ blockSpans 16 (0, (pad 16 data).length),
      block.2 - block.1 = 16 := fun _ => length_of_mem_blockSpans
  have hselects : SampleDecryptor.selects ⟨cipher, .cbcs, 0, 0⟩ =
      fun _ => true := by
    funext index
    simp [SampleDecryptor.selects]
  have hmessage : Aes128.encryptSegment cipher segmentIndex data =
      ((blockSpans 16 (0, (pad 16 data).length)).foldl
        (onSpan (chainBlock cipher))
        (Aes128.iv segmentIndex.toNat, pad 16 data)).2 := by
    rw [← selectedBlocks_true, ← hselects, ← changeRange_eq, ← encryptRange_eq]
    rfl
  obtain ⟨hblocks, hfits⟩ := @foldl_blocks _ (Aes128.iv segmentIndex.toNat)
    (pad 16 data) _ hapart hsizes (keepsBlocks_chainBlock cipher)
  rw [hblocks] at hmessage
  have hlength : (Aes128.encryptSegment cipher segmentIndex data).length =
      (pad 16 data).length := by
    rw [hmessage]
    exact length_scatter hapart rfl hfits
  dsimp only
  rw [hlength]
  refine ⟨⟨hwhole, by omega, by omega⟩, ?_⟩
  rw [hmessage, gather_scatter hapart rfl hfits, thread_chainBlock,
    Aes128.iv_eq segmentIndex.toNat_lt, cbcDecrypt_cbcEncrypt cipher
      (length_of_mem_gather hapart hsizes)]
  have hflatten := flatMap_stretch_of_tiles (l := pad 16 data)
    (tiles_blockSpans hwhole)
  rw [stretch_length] at hflatten
  unfold gather
  rw [← List.flatMap_def, hflatten]
  exact unpad_pad (by decide) (by decide) data

end Segmentor
