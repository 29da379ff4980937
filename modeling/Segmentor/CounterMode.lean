import Segmentor.SampleCiphers

/-!
# Counter mode and its counter

In the standard's counter mode the low half of the counter block counts, modulo
its width, and the high half never changes.  Here the whole block counts.  The
two give the same keystream until the low half runs over.
-/

namespace Segmentor

open General

/-! ## The standard's encryption -/

/-- Counter block `index` of the standard: bytes 8 to 15 are a number that
counts modulo `2 ^ 64`, bytes 0 to 7 do not change. -/
def standardCounter (iv : List UInt8) (index : ℕ) : List UInt8 :=
  iv.take 8 ++ encode 8 ((decode (iv.drop 8) + index) % 2 ^ 64)

def standardKeystream (cipher : BlockCipher 16) (iv : List UInt8) : ℕ → UInt8 :=
  keystream 16 fun index => cipher.encrypt (standardCounter iv index)

/-- A pattern is `crypt` encrypted blocks and `skip` clear ones, over and over;
without one every block is encrypted. -/
def patternSelects (crypt skip index : ℕ) : Bool :=
  (List.replicate crypt true ++ List.replicate skip false).getD
    (index % (crypt + skip)) true

namespace SampleDecryptor

/-- The spans of a sample that counter mode protects: the protected ranges, or
the blocks of each that the pattern encrypts. -/
def counterSpans (decryptor : SampleDecryptor) (ranges : List (ℕ × ℕ)) :
    List (ℕ × ℕ) :=
  match decryptor.scheme with
  | .cens => ranges.flatMap
      (selectedBlocks (patternSelects decryptor.crypt decryptor.skip))
  | _ => ranges

/-- The standard's encryption: one keystream over all that is protected. -/
def standardCounterMode (decryptor : SampleDecryptor) (iv data : List UInt8)
    (ranges : List (ℕ × ℕ)) : List UInt8 :=
  let spans := decryptor.counterSpans ranges
  scatter spans
    (counterMode (standardKeystream decryptor.cipher iv) 0 (gather data spans))
    data

/-- The bytes of keystream that a sample takes. -/
def keystreamBytes (decryptor : SampleDecryptor) (ranges : List (ℕ × ℕ)) : ℕ :=
  ((decryptor.counterSpans ranges).map fun span => span.2 - span.1).sum

end SampleDecryptor

/-- The counter's low half does not run over before `count` bytes of keystream
are taken; or it does within the last of them, where the blocks of the two
counters after it happen to be enciphered alike. -/
def KeystreamFits (cipher : BlockCipher 16) (iv : List UInt8) (count : ℕ) :
    Prop :=
  let room := 16 * (2 ^ 64 - decode (iv.drop 8))
  let high := decode (iv.take 8)
  count ≤ room ∨
    count < room + 16 ∧
      (cipher.encrypt (encode 8 high ++ encode 8 0)).take (count - room) =
        (cipher.encrypt (encode 8 (high + 1) ++ encode 8 0)).take (count - room)

/-! ## The stream -/

/-- The keystream of a counter as wide as the block. -/
def streamKeystream (cipher : BlockCipher 16) (iv : List UInt8) : ℕ → UInt8 :=
  keystream 16 fun index => cipher.encrypt (encode 16 (decode iv + index))

namespace CtrStream

variable {cipher : BlockCipher 16} {iv : List UInt8} {stream : CtrStream}
  {position : ℕ}

/-- The stream after `position` bytes. -/
structure At (cipher : BlockCipher 16) (iv : List UInt8) (stream : CtrStream)
    (position : ℕ) : Prop where
  counter : stream.counter = (decode iv + (position + 15) / 16) % 2 ^ 128
  used : stream.used = if position % 16 = 0 then 16 else position % 16
  block : position % 16 ≠ 0 → stream.keystream =
    cipher.encrypt (encode 16 (decode iv + position / 16))

theorem encode_mod (width n : ℕ) :
    encode width (n % 256 ^ width) = encode width n := by
  have hbytes := encode_decode (encode width n)
  rwa [length_encode, decode_encode] at hbytes

theorem at_new (hiv : iv.length = 16) : At cipher iv (new iv) 0 := by
  have hlt := decode_lt iv
  rw [hiv] at hlt
  constructor
  · exact (Nat.mod_eq_of_lt (by norm_num at hlt ⊢; exact hlt)).symm
  · rfl
  · intro h
    exact absurd rfl h

/-- A stream at hand for the byte at its position. -/
theorem At.refill (h : At cipher iv stream position) :
    (stream.refill cipher).used = position % 16 ∧
      (stream.refill cipher).counter =
        (decode iv + (position / 16 + 1)) % 2 ^ 128 ∧
      (stream.refill cipher).keystream =
        cipher.encrypt (encode 16 (decode iv + position / 16)) := by
  have hused := h.used
  have hcounter := h.counter
  unfold CtrStream.refill
  by_cases haligned : position % 16 = 0
  · rw [if_pos haligned] at hused
    have hindex : (position + 15) / 16 = position / 16 := by omega
    rw [if_pos hused]
    refine ⟨haligned.symm, ?_, ?_⟩
    · dsimp only
      rw [hcounter, hindex, Nat.mod_add_mod, Nat.add_assoc]
    · dsimp only
      rw [hcounter, hindex,
        show (2 : ℕ) ^ 128 = 256 ^ 16 by norm_num, encode_mod]
  · rw [if_neg haligned] at hused
    have hlt := Nat.mod_lt position (show 0 < 16 by decide)
    rw [if_neg (by omega)]
    refine ⟨hused, ?_, h.block haligned⟩
    rw [hcounter]
    congr 2
    omega

/-- A round takes the next bytes of the keystream. -/
theorem At.round (h : At cipher iv stream position) {count : ℕ}
    (hpos : 0 < count) (hcount : count ≤ 16 - position % 16)
    {data : List UInt8} (hdata : data.length = count) :
    xorBytes data ((stream.refill cipher).keystream.drop
        (stream.refill cipher).used) =
      xorFrom (streamKeystream cipher iv) position data ∧
    At cipher iv
      { stream.refill cipher with
        used := (stream.refill cipher).used + count } (position + count) := by
  obtain ⟨hused, hcounter, hblock⟩ := h.refill
  constructor
  · unfold xorBytes xorFrom
    apply List.mapIdx_eq_mapIdx_iff.mpr
    intro index hindex
    have hquotient : (position + index) / 16 = position / 16 := by omega
    have hremainder : (position + index) % 16 = position % 16 + index := by
      omega
    rw [hused, hblock]
    unfold streamKeystream General.keystream
    rw [hquotient, hremainder, List.getD_eq_getElem?_getD,
      List.getD_eq_getElem?_getD, List.getElem?_drop]
  · constructor
    · dsimp only
      rw [hcounter]
      congr 2
      omega
    · dsimp only
      rw [hused]
      split <;> omega
    · intro haligned
      dsimp only
      rw [hblock]
      congr 3
      omega

theorem applyFuel_eq {fuel : ℕ} {data : List UInt8}
    (h : At cipher iv stream position) (hfuel : data.length ≤ fuel) :
    (applyFuel cipher fuel stream data).2 =
        xorFrom (streamKeystream cipher iv) position data ∧
      At cipher iv (applyFuel cipher fuel stream data).1
        (position + data.length) := by
  induction fuel generalizing stream position data with
  | zero =>
      obtain rfl := List.length_eq_zero_iff.mp (Nat.le_zero.mp hfuel)
      exact ⟨rfl, h⟩
  | succ fuel ih =>
      unfold applyFuel
      by_cases hempty : data.isEmpty = true
      · obtain rfl := List.isEmpty_iff.mp hempty
        exact ⟨rfl, h⟩
      rw [if_neg hempty]
      have hpos : 0 < data.length := by
        rw [List.length_pos_iff]
        exact fun hnil => hempty (List.isEmpty_iff.mpr hnil)
      have hused := h.refill.1
      have hlt := Nat.mod_lt position (show 0 < 16 by decide)
      dsimp only
      generalize htake : min (16 - (stream.refill cipher).used) data.length =
        count
      have hcount : (data.take count).length = count := by
        rw [List.length_take]
        omega
      obtain ⟨hnow, hnext⟩ := h.round (by omega) (by omega) hcount
      obtain ⟨hlater, hlast⟩ := @ih _ _ (data.drop count) hnext (by
        rw [List.length_drop]
        omega)
      constructor
      · rw [hnow, hlater]
        conv_rhs => rw [← List.take_append_drop count data]
        rw [xorFrom_append, hcount]
      · convert hlast using 1
        rw [List.length_drop]
        omega

theorem apply_eq {data : List UInt8} (h : At cipher iv stream position) :
    (stream.apply cipher data).2 =
        xorFrom (streamKeystream cipher iv) position data ∧
      At cipher iv (stream.apply cipher data).1 (position + data.length) :=
  applyFuel_eq h (Nat.le_refl _)

theorem length_apply (cipher : BlockCipher 16) (stream : CtrStream)
    (data : List UInt8) :
    (stream.apply cipher data).2.length = data.length := by
  have hfuel : ∀ fuel (stream : CtrStream) (data : List UInt8),
      (applyFuel cipher fuel stream data).2.length = data.length := by
    intro fuel
    induction fuel with
    | zero => exact fun _ _ => rfl
    | succ fuel ih =>
        intro stream data
        unfold applyFuel
        split
        · rfl
        · dsimp only
          rw [List.length_append, length_xorBytes, ih, List.length_take,
            List.length_drop]
          omega
  exact hfuel data.length stream data

theorem thread_apply {parts : List (List UInt8)}
    (h : At cipher iv stream position) :
    (thread (apply cipher) stream parts).2 =
      counterMode (streamKeystream cipher iv) position parts := by
  induction parts generalizing stream position with
  | nil => rfl
  | cons part parts ih =>
      obtain ⟨hnow, hnext⟩ := @apply_eq _ _ _ _ part h
      dsimp only [thread, counterMode]
      rw [hnow, ih hnext]

end CtrStream

/-! ## Deciphering -/

namespace SampleDecryptor

variable {decryptor : SampleDecryptor} {iv data : List UInt8}
  {subsamples : List Subsample} {ranges : List (ℕ × ℕ)}

theorem selects_eq (decryptor : SampleDecryptor) :
    decryptor.selects = patternSelects decryptor.crypt decryptor.skip := by
  funext index
  unfold selects patternSelects
  generalize decryptor.crypt = crypt, decryptor.skip = skip
  dsimp only
  rcases Nat.eq_zero_or_pos (crypt + skip) with hzero | hpos
  · obtain ⟨rfl, rfl⟩ := Nat.add_eq_zero_iff.mp hzero
    rfl
  · have hlt := Nat.mod_lt index hpos
    generalize index % (crypt + skip) = place at hlt
    rw [List.getD_eq_getElem?_getD]
    rcases Nat.lt_or_ge place crypt with hcrypt | hskip
    · rw [List.getElem?_append_left (by simpa using hcrypt)]
      simp [hcrypt]
    · rw [List.getElem?_append_right (by simpa using hskip),
        List.length_replicate,
        List.getElem?_replicate_of_lt (by omega)]
      simp
      omega

theorem apart_counterSpans (decryptor : SampleDecryptor)
    (h : Apart 0 ranges data.length) :
    Apart 0 (decryptor.counterSpans ranges) data.length := by
  unfold counterSpans
  split
  · exact apart_flatMap_selectedBlocks h
  · exact h

/-- Deciphering in counter mode combines what is protected with the stream. -/
theorem decrypt_counter
    (hscheme : decryptor.scheme = .cenc ∨ decryptor.scheme = .cens)
    (hiv : iv.length = 16)
    (hranges : protectedRanges data.length subsamples = .ok ranges) :
    decryptor.decrypt iv data subsamples =
      .ok (scatter (decryptor.counterSpans ranges)
        (counterMode (streamKeystream decryptor.cipher iv) 0
          (gather data (decryptor.counterSpans ranges))) data) := by
  have hapart := apart_protectedRanges hranges
  have hloop : ∀ spans, Apart 0 spans data.length →
      (spans.foldl (onSpan (CtrStream.apply decryptor.cipher))
        (CtrStream.new iv, data)).2 =
      scatter spans (counterMode (streamKeystream decryptor.cipher iv) 0
        (gather data spans)) data := by
    intro spans hspans
    rw [foldl_onSpan hspans rfl fun stream part _ =>
      CtrStream.length_apply decryptor.cipher stream part,
      CtrStream.thread_apply (CtrStream.at_new hiv)]
  unfold decrypt
  rw [hranges, ok_bind]
  congr 1
  rcases hscheme with hscheme | hscheme
  · unfold counterSpans
    rw [hscheme]
    exact hloop ranges hapart
  · unfold counterSpans
    rw [hscheme]
    dsimp only
    rw [foldl_eachBlock hapart fun stream block _ =>
      CtrStream.length_apply decryptor.cipher stream block, selects_eq]
    exact hloop _ (apart_flatMap_selectedBlocks hapart)

theorem length_flatten_gather {spans : List (ℕ × ℕ)}
    (h : Apart 0 spans data.length) :
    (gather data spans).flatten.length =
      (spans.map fun span => span.2 - span.1).sum := by
  unfold gather
  rw [List.length_flatten, List.map_map]
  congr 1
  apply List.map_congr_left
  intro span hspan
  have hbounds := h.mem hspan
  rw [Function.comp_apply, length_stretch]
  omega

theorem fitting_counterMode {stream : ℕ → UInt8} {spans : List (ℕ × ℕ)}
    {parts : List (List UInt8)} {position : ℕ} (h : Fitting spans parts) :
    Fitting spans (counterMode stream position parts) := by
  unfold Fitting at h ⊢
  induction h generalizing position with
  | nil => exact .nil
  | cons hpart _ ih =>
      refine .cons ?_ ih
      rw [length_xorFrom]
      exact hpart

/-- Deciphering inverts the standard's encryption where the two keystreams
agree. -/
theorem decrypt_standardCounterMode_iff
    (hscheme : decryptor.scheme = .cenc ∨ decryptor.scheme = .cens)
    (hiv : iv.length = 16)
    (hranges : protectedRanges data.length subsamples = .ok ranges) :
    decryptor.decrypt iv (decryptor.standardCounterMode iv data ranges)
        subsamples = .ok data ↔
      ∀ index < decryptor.keystreamBytes ranges,
        standardKeystream decryptor.cipher iv index =
          streamKeystream decryptor.cipher iv index := by
  have hapart := apart_counterSpans decryptor (apart_protectedRanges hranges)
  have hgathered := fitting_gather hapart rfl
  have hfits := @fitting_counterMode
    (standardKeystream decryptor.cipher iv) _ _ 0 hgathered
  have hlength := length_scatter hapart rfl hfits
  have hparts := gather_scatter hapart rfl hfits
  have hback := @fitting_counterMode
    (streamKeystream decryptor.cipher iv) _ _ 0 hfits
  unfold standardCounterMode
  dsimp only
  rw [decrypt_counter hscheme hiv (by rw [hlength]; exact hranges), hparts,
    scatter_scatter hapart rfl hfits hback, Except.ok.injEq,
    scatter_eq_self_iff hapart rfl hback, counterMode_counterMode_eq_iff,
    length_flatten_gather hapart]
  simp only [Nat.zero_add]
  rfl

end SampleDecryptor

/-! ## The two counters -/

theorem encode_append (width other n : ℕ) :
    encode (width + other) n =
      encode width (n / 256 ^ other) ++ encode other n := by
  induction other generalizing n with
  | zero => rw [pow_zero, Nat.div_one, encode, List.append_nil, Nat.add_zero]
  | succ other ih =>
      rw [← Nat.add_assoc, encode, ih, encode, List.append_assoc,
        Nat.div_div_eq_div_mul, ← pow_succ']

section Counters

variable {cipher : BlockCipher 16} {iv : List UInt8}

theorem decode_append (bytes others : List UInt8) :
    decode (bytes ++ others) =
      decode bytes * 256 ^ others.length + decode others := by
  induction others using List.reverseRecOn with
  | nil => simp
  | append_singleton others byte ih =>
      rw [← List.append_assoc, decode_concat, decode_concat, ih,
        List.length_append, List.length_singleton, pow_succ]
      ring

theorem low_lt (hiv : iv.length = 16) : decode (iv.drop 8) < 2 ^ 64 := by
  have hlt := decode_lt (iv.drop 8)
  rw [List.length_drop, hiv] at hlt
  norm_num at hlt ⊢
  exact hlt

theorem encode_high (hiv : iv.length = 16) :
    encode 8 (decode (iv.take 8)) = iv.take 8 := by
  have hhigh := encode_decode (iv.take 8)
  rwa [List.length_take, hiv] at hhigh

theorem standardCounter_eq (iv : List UInt8) (index : ℕ) :
    standardCounter iv index =
      iv.take 8 ++ encode 8 (decode (iv.drop 8) + index) := by
  unfold standardCounter
  rw [show (2 : ℕ) ^ 64 = 256 ^ 8 by norm_num, CtrStream.encode_mod]

theorem streamCounter_eq (hiv : iv.length = 16) (index : ℕ) :
    encode 16 (decode iv + index) =
      encode 8 (decode (iv.take 8) +
          (decode (iv.drop 8) + index) / 2 ^ 64) ++
        encode 8 (decode (iv.drop 8) + index) := by
  have hsplit := decode_append (iv.take 8) (iv.drop 8)
  rw [List.take_append_drop, List.length_drop, hiv] at hsplit
  have hpower : (256 : ℕ) ^ (16 - 8) = 2 ^ 64 := by norm_num
  rw [hpower] at hsplit
  have hdiv : (decode iv + index) / 256 ^ 8 =
      decode (iv.take 8) + (decode (iv.drop 8) + index) / 2 ^ 64 := by
    rw [hsplit, show (256 : ℕ) ^ 8 = 2 ^ 64 by norm_num, Nat.add_assoc,
      Nat.add_comm, Nat.add_mul_div_right _ _ (by norm_num), Nat.add_comm]
  have hmod : encode 8 (decode iv + index) =
      encode 8 (decode (iv.drop 8) + index) := by
    rw [← CtrStream.encode_mod 8 (decode iv + index), hsplit,
      show (256 : ℕ) ^ 8 = 2 ^ 64 by norm_num, Nat.add_assoc, Nat.add_comm,
      Nat.add_mul_mod_self_right, show (2 : ℕ) ^ 64 = 256 ^ 8 by norm_num,
      CtrStream.encode_mod]
  rw [show 16 = 8 + 8 by rfl, encode_append, hdiv, hmod]

/-- The counters agree until the low half runs over. -/
theorem counters_agree (hiv : iv.length = 16) {index : ℕ}
    (h : index < 2 ^ 64 - decode (iv.drop 8)) :
    standardCounter iv index = encode 16 (decode iv + index) := by
  rw [standardCounter_eq, streamCounter_eq hiv,
    Nat.div_eq_of_lt (by omega), Nat.add_zero, encode_high hiv]

/-- What the counters are when the low half has run over. -/
theorem counters_past (hiv : iv.length = 16) :
    standardCounter iv (2 ^ 64 - decode (iv.drop 8)) =
        encode 8 (decode (iv.take 8)) ++ encode 8 0 ∧
      encode 16 (decode iv + (2 ^ 64 - decode (iv.drop 8))) =
        encode 8 (decode (iv.take 8) + 1) ++ encode 8 0 := by
  have hlow := low_lt hiv
  have hsum : decode (iv.drop 8) + (2 ^ 64 - decode (iv.drop 8)) =
      2 ^ 64 := by
    omega
  have hzero : encode 8 (2 ^ 64) = encode 8 0 := by decide
  constructor
  · rw [standardCounter_eq, hsum, hzero, encode_high hiv]
  · rw [streamCounter_eq hiv, hsum, hzero, Nat.div_self (by norm_num)]

theorem encode_succ_ne (n : ℕ) : encode 8 n ≠ encode 8 (n + 1) := by
  intro heq
  have hvalue := congrArg decode heq
  rw [decode_encode, decode_encode] at hvalue
  omega

theorem keystreams_agree_iff (hiv : iv.length = 16) {count : ℕ} :
    (∀ index < count, standardKeystream cipher iv index =
        streamKeystream cipher iv index) ↔ KeystreamFits cipher iv count := by
  obtain ⟨hstandard, hstream⟩ := counters_past hiv
  unfold KeystreamFits
  dsimp only
  generalize hroom : 2 ^ 64 - decode (iv.drop 8) = room at hstandard hstream ⊢
  have hbefore : ∀ index < 16 * room, standardKeystream cipher iv index =
      streamKeystream cipher iv index := by
    intro index hindex
    have hcounter := @counters_agree iv hiv (index / 16) (by omega)
    unfold standardKeystream streamKeystream keystream
    dsimp only
    rw [hcounter]
  have hpast : ∀ index < 16, (standardKeystream cipher iv (16 * room + index) =
      streamKeystream cipher iv (16 * room + index) ↔
      (cipher.encrypt (encode 8 (decode (iv.take 8)) ++ encode 8 0)).getD
          index 0 =
        (cipher.encrypt
          (encode 8 (decode (iv.take 8) + 1) ++ encode 8 0)).getD index 0) := by
    intro index hindex
    have hquotient : (16 * room + index) / 16 = room := by omega
    have hremainder : (16 * room + index) % 16 = index := by omega
    unfold standardKeystream streamKeystream keystream
    dsimp only
    rw [hquotient, hremainder, hstandard, hstream]
  have hlengths : ∀ n, (encode 8 n ++ encode 8 0).length = 16 := by
    intro n
    rw [List.length_append, length_encode, length_encode]
  have hsame := @take_eq_take_iff _ _ 16 (count - 16 * room)
    (cipher.length_encrypt _ (hlengths (decode (iv.take 8))))
    (cipher.length_encrypt _ (hlengths (decode (iv.take 8) + 1)))
  constructor
  · intro h
    rcases Nat.lt_or_ge (16 * room) count with hlt | hge
    · right
      have hshort : count < 16 * room + 16 := by
        by_contra hlong
        have hwhole := (@take_eq_take_iff _ _ 16 16
          (cipher.length_encrypt _ (hlengths (decode (iv.take 8))))
          (cipher.length_encrypt _ (hlengths (decode (iv.take 8) + 1)))
          (Nat.le_refl 16)).mpr fun index hindex =>
            (hpast index hindex).mp (h _ (by omega))
        rw [List.take_of_length_le (cipher.length_encrypt _ (hlengths _)).le,
          List.take_of_length_le (cipher.length_encrypt _ (hlengths _)).le,
          cipher.encrypt_inj (hlengths _) (hlengths _)] at hwhole
        exact encode_succ_ne _ (List.append_cancel_right hwhole)
      exact ⟨hshort, (hsame (by omega)).mpr fun index hindex =>
        (hpast index (by omega)).mp (h _ (by omega))⟩
    · exact .inl hge
  · intro h index hindex
    rcases Nat.lt_or_ge index (16 * room) with hlt | hge
    · exact hbefore index hlt
    · rcases h with hfits | ⟨hshort, hbytes⟩
      · omega
      · have hlater := (hpast (index - 16 * room) (by omega)).mpr
          ((hsame (by omega)).mp hbytes _ (by omega))
        rwa [Nat.add_sub_cancel' hge] at hlater

end Counters

theorem length_of_iv16 {iv block : List UInt8} (h : iv16 iv = some block) :
    block.length = 16 := by
  unfold iv16 at h
  split at h
  · rename_i hlength
    obtain rfl := Option.some.inj h
    rw [List.length_append, List.length_replicate]
    omega
  · cases h

/-- Counter mode is deciphered as the standard has it if and only if the
counter's low half does not run over while the sample's keystream is taken. -/
theorem counter_mode_inverts_iff {decryptor : SampleDecryptor}
    (hscheme : decryptor.scheme = .cenc ∨ decryptor.scheme = .cens)
    {iv block : List UInt8} (hiv : iv16 iv = some block) {data : List UInt8}
    {subsamples : List Subsample} {ranges : List (ℕ × ℕ)}
    (hranges : protectedRanges data.length subsamples = .ok ranges) :
    decryptor.decrypt block (decryptor.standardCounterMode block data ranges)
        subsamples = .ok data ↔
      KeystreamFits decryptor.cipher block
        (decryptor.keystreamBytes ranges) := by
  have hlength := length_of_iv16 hiv
  rw [SampleDecryptor.decrypt_standardCounterMode_iff hscheme hlength hranges,
    keystreams_agree_iff hlength]

/-- What AES-128 makes of four counter blocks under the key
`2b7e151628aed2a6abf7158809cf4f3c`. -/
def countedCipher : BlockCipher 16 :=
  .exchanging 16
    [(encode 16 0x0000000000000000ffffffffffffffff,
        encode 16 0xef8737b783c4fa88e687ee9467073f6e),
      (encode 16 0x00000000000000000000000000000000,
        encode 16 0x7df76b0c1ab899b33e42f047b91b546f),
      (encode 16 0x00000000000000000000000000000001,
        encode 16 0x57127d4034b1bebfaef466b9c7726fc6),
      (encode 16 0x00000000000000010000000000000000,
        encode 16 0xdc0a3bc38609c26f6f2a63a39cf7ee93)]
    (by simp)

def lastCounter : List UInt8 :=
  encode 16 0x0000000000000000ffffffffffffffff

/-- A block in counter mode; and a sample of which the map leaves four bytes
clear and the pattern the second of three blocks. -/
theorem counter_mode_inverts_iff_mapped :
    SampleDecryptor.decrypt ⟨countedCipher, .cenc, 0, 0⟩ lastCounter
        (SampleDecryptor.standardCounterMode ⟨countedCipher, .cenc, 0, 0⟩
          lastCounter (List.replicate 16 7) [(0, 16)]) [] =
      .ok (List.replicate 16 7) ∧
    SampleDecryptor.decrypt ⟨countedCipher, .cens, 1, 1⟩ (List.replicate 16 0)
        (SampleDecryptor.standardCounterMode ⟨countedCipher, .cens, 1, 1⟩
          (List.replicate 16 0) (List.replicate 52 7) [(4, 52)]) [⟨4, 48⟩] =
      .ok (List.replicate 52 7) := by
  constructor
  · exact (@counter_mode_inverts_iff _ (.inl rfl) lastCounter lastCounter
      (by decide) _ [] _ rfl).mpr (.inl (by decide))
  · exact (@counter_mode_inverts_iff _ (.inr rfl) (List.replicate 8 0)
      (List.replicate 16 0) (by decide) _ [⟨4, 48⟩] _ rfl).mpr
        (.inl (by decide))

/-- A 16-byte IV whose low half is at its maximum: the second block of the
sample is not deciphered. -/
theorem counter_carries_into_high_half :
    SampleDecryptor.decrypt ⟨countedCipher, .cenc, 0, 0⟩ lastCounter
        (SampleDecryptor.standardCounterMode ⟨countedCipher, .cenc, 0, 0⟩
          lastCounter (List.replicate 32 7) [(0, 32)]) [] ≠
      .ok (List.replicate 32 7) := by
  decide

end Segmentor
