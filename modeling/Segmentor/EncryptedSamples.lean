import Segmentor.EncryptedSegments
import Segmentor.SencEntries

/-!
# Decrypting what was encrypted

A sample is encrypted range by range, where its map says.  Decrypting it with
the same map gives it back, and so for all the samples of a segment.
-/

namespace Segmentor

open General

/-! ## One sample -/

/-- The entry of a `senc` that lists a map; the vector is the constant one. -/
def SubsampleMap.entry (map : SubsampleMap) : SencEntry where
  iv := []
  subsamples := map.map fun (clear, size) => ⟨clear, size⟩

/-- Undoes the encryption of a track's samples under its own key. -/
def FinishContext.decryptor (context : FinishContext)
    (protection : TrackProtection) : SampleDecryptor where
  cipher := context.aes protection.key.key
  scheme := .cbcs
  crypt := protection.kind.pattern.crypt
  skip := protection.kind.pattern.skip

/-- What each entry of a map protects, also where that is nothing. -/
def mappedRanges : ℕ → SubsampleMap → List (ℕ × ℕ)
  | _, [] => []
  | place, (clear, size) :: map =>
      (place + clear, place + clear + size) ::
        mappedRanges (place + clear + size) map

theorem SubsampleMap.total_cons (clear size : ℕ) (map : SubsampleMap) :
    SubsampleMap.total ((clear, size) :: map) = clear + size + map.total := by
  unfold SubsampleMap.total
  rw [List.map_cons, List.sum_cons]

theorem protectedRangesFrom_entry {length place : ℕ} {map : SubsampleMap}
    (h : place + map.total = length) :
    protectedRangesFrom length place map.entry.subsamples =
      .ok (mappedRanges place map) := by
  induction map generalizing place with
  | nil =>
      unfold SubsampleMap.entry protectedRangesFrom
      rw [List.map_nil]
      dsimp only
      rw [if_neg (not_not.mpr (by simpa using h))]
      rfl
  | cons first map ih =>
      obtain ⟨clear, size⟩ := first
      rw [SubsampleMap.total_cons] at h
      have hrest := @ih (place + clear + size) (by omega)
      unfold SubsampleMap.entry at hrest ⊢
      rw [List.map_cons]
      unfold protectedRangesFrom
      dsimp only at hrest ⊢
      rw [if_neg (by omega), hrest]
      rfl

/-- The ranges of a sample that its map protects. -/
def sampleRanges (map : SubsampleMap) (sample : List UInt8) : List (ℕ × ℕ) :=
  if map.isEmpty then [(0, sample.length)] else mappedRanges 0 map

theorem protectedRanges_entry {map : SubsampleMap} {sample : List UInt8}
    (h : map ≠ [] → map.total = sample.length) :
    protectedRanges sample.length map.entry.subsamples =
      .ok (sampleRanges map sample) := by
  unfold protectedRanges sampleRanges
  cases map with
  | nil => rfl
  | cons first map =>
      have htotal := h (List.cons_ne_nil _ _)
      rw [if_neg (by simp [SubsampleMap.entry]), if_neg (by simp),
        protectedRangesFrom_entry (by omega)]

theorem encryptMapped_eq (cipher : BlockCipher 16) (iv : List UInt8)
    (pattern : Pattern) (place : ℕ) (map : SubsampleMap)
    (sample : List UInt8) :
    encryptMapped cipher iv pattern place map sample =
      ((mappedRanges place map).foldl
        (onSpan fun _ part => ((), encryptRange cipher iv part pattern))
        ((), sample)).2 := by
  induction map generalizing place sample with
  | nil => rfl
  | cons first map ih =>
      obtain ⟨clear, size⟩ := first
      unfold encryptMapped mappedRanges
      rw [ih, List.foldl_cons]
      rfl

theorem encryptSample_eq (cipher : BlockCipher 16) (iv : List UInt8)
    (pattern : Pattern) (map : SubsampleMap) (sample : List UInt8) :
    encryptSample cipher iv pattern map sample =
      ((sampleRanges map sample).foldl
        (onSpan fun _ part => ((), encryptRange cipher iv part pattern))
        ((), sample)).2 := by
  unfold encryptSample sampleRanges
  split
  · rw [List.foldl_cons, List.foldl_nil]
    unfold onSpan putAt
    dsimp only
    rw [stretch_length, List.take_zero, List.drop_length, List.nil_append,
      List.append_nil]
  · exact encryptMapped_eq ..

/-- In the decryptor's terms the ranges are changed block by block. -/
theorem encryptSample_eq_changed {decryptor : SampleDecryptor}
    (hscheme : decryptor.scheme = .cbcs) (iv : List UInt8)
    (map : SubsampleMap) (sample : List UInt8) :
    encryptSample decryptor.cipher iv ⟨decryptor.crypt, decryptor.skip⟩ map
        sample =
      decryptor.changed (chainBlock decryptor.cipher) iv sample
        (sampleRanges map sample) := by
  rw [encryptSample_eq]
  unfold SampleDecryptor.changed
  rw [hscheme]
  simp only [encryptRange_eq _ _ _ decryptor.scheme]
  rfl

/-- Encrypting a sample keeps its length, and decrypting it gives it back. -/
theorem decrypt_encryptSample {decryptor : SampleDecryptor}
    (hscheme : decryptor.scheme = .cbcs) (iv : List UInt8)
    {map : SubsampleMap} {sample : List UInt8}
    (hmap : map ≠ [] → map.total = sample.length) :
    (encryptSample decryptor.cipher iv ⟨decryptor.crypt, decryptor.skip⟩ map
        sample).length = sample.length ∧
      decryptor.decrypt iv
          (encryptSample decryptor.cipher iv
            ⟨decryptor.crypt, decryptor.skip⟩ map sample)
          map.entry.subsamples = .ok sample := by
  have hranges := protectedRanges_entry hmap
  have hapart := apart_protectedRanges hranges
  rw [encryptSample_eq_changed hscheme]
  have hlength := @SampleDecryptor.length_changed decryptor iv sample
    (sampleRanges map sample) (chainBlock decryptor.cipher) hapart
    (keepsBlocks_chainBlock decryptor.cipher)
  refine ⟨hlength, ?_⟩
  rw [SampleDecryptor.decrypt_chained (.inr hscheme) (hlength.symm ▸ hranges),
    SampleDecryptor.changed_changed hapart]

/-! ## Maps of samples -/

/-- A map that can be written and covers its sample, unless it is empty. -/
structure SubsampleMap.Describes (map : SubsampleMap) (length : ℕ) : Prop where
  short : map.length ≤ MAX_SUBSAMPLES
  clear_lt : ∀ entry ∈ map, entry.1 < 2 ^ 16
  total : map ≠ [] → map.total = length

theorem SliceCodec.Covers.describes {Sets : Type} {codec : SliceCodec Sets}
    {parameters : Sets} {sample : List UInt8} {map : SubsampleMap}
    (h : codec.Covers parameters sample map) :
    map.Describes sample.length where
  short := h.short
  clear_lt := h.clear_lt
  total _ := h.total

theorem describes_of_sampleMap {video : Option VideoParameters}
    {sample : List UInt8} {map : SubsampleMap}
    (h : sampleMap video sample = .ok map) : map.Describes sample.length := by
  cases video with
  | none =>
      obtain rfl := Except.ok.inj h
      exact ⟨by simp [MAX_SUBSAMPLES], by simp, by simp⟩
  | some parameters =>
      cases parameters with
      | avc sets => exact (avcCodec.covers_of_mapOf h).describes
      | hevc sets => exact (hevcCodec.covers_of_mapOf h).describes

theorem SubsampleMap.le_total {map : SubsampleMap} {entry : ℕ × ℕ}
    (h : entry ∈ map) : entry.1 + entry.2 ≤ map.total :=
  List.single_le_sum (by simp) _ (List.mem_map_of_mem h)

/-- A map is listed in full where maps are listed, and empty otherwise. -/
theorem SubsampleMap.Describes.fits {map : SubsampleMap} {length : ℕ}
    (h : map.Describes length) (hlength : length < 2 ^ 32)
    {withSubsamples : Bool} (hlisted : withSubsamples = false → map = []) :
    map.entry.Fits withSubsamples 0 where
  iv_length := rfl
  count_lt := by
    have hshort := h.short
    unfold MAX_SUBSAMPLES at hshort
    simp only [entry, List.length_map]
    omega
  subsamples_fit := by
    intro subsample hsubsample
    obtain ⟨⟨clear, size⟩, hmem, rfl⟩ := List.mem_map.mp hsubsample
    have htotal := h.total (List.ne_nil_of_mem hmem)
    have hle := SubsampleMap.le_total hmem
    have hclear := h.clear_lt _ hmem
    exact ⟨hclear, by dsimp only at hle ⊢; omega⟩
  unlisted hwithout := by
    rw [hlisted hwithout]
    rfl

/-! ## All the samples of a segment -/

/-- A payload cut into pieces of these sizes. -/
def cutSizes : List ℕ → List UInt8 → List (List UInt8)
  | [], _ => []
  | size :: sizes, payload =>
      payload.take size :: cutSizes sizes (payload.drop size)

theorem flatten_cutSizes {sizes : List ℕ} {payload : List UInt8}
    (h : sizes.sum = payload.length) :
    (cutSizes sizes payload).flatten = payload := by
  induction sizes generalizing payload with
  | nil =>
      rw [List.sum_nil] at h
      obtain rfl := List.eq_nil_of_length_eq_zero h.symm
      rfl
  | cons size sizes ih =>
      rw [List.sum_cons] at h
      rw [cutSizes, List.flatten_cons,
        ih (by rw [List.length_drop]; omega), List.take_append_drop]

/-- A sample as it is, its map, and the sample encrypted. -/
structure EncryptedSample where
  clear : List UInt8
  map : SubsampleMap
  encrypted : List UInt8

/-- The encrypted sample is listed with its map and decrypts to the clear
one. -/
structure EncryptedSample.Sound (decryptor : SampleDecryptor)
    (iv : List UInt8) (sample : EncryptedSample) : Prop where
  describes : sample.map.Describes sample.clear.length
  length_eq : sample.encrypted.length = sample.clear.length
  decrypts : decryptor.decrypt iv sample.encrypted
    sample.map.entry.subsamples = .ok sample.clear

/-- Encrypting the samples of a payload gives the map of each and the samples
encrypted one after another. -/
theorem encryptSamples_eq_ok {video : Option VideoParameters}
    {decryptor : SampleDecryptor} (hscheme : decryptor.scheme = .cbcs)
    {iv : List UInt8} {samples : List Sample} {payload encrypted : List UInt8}
    {maps : List SubsampleMap}
    (h : encryptSamples video decryptor.cipher iv
      ⟨decryptor.crypt, decryptor.skip⟩ samples payload =
        .ok (maps, encrypted)) :
    ∃ found : List EncryptedSample,
      found.map EncryptedSample.clear =
          cutSizes (samples.map Sample.size) payload ∧
        found.map EncryptedSample.map = maps ∧
        found.flatMap EncryptedSample.encrypted = encrypted ∧
        ∀ sample ∈ found, sample.Sound decryptor iv := by
  induction samples generalizing payload maps encrypted with
  | nil =>
      obtain ⟨rfl, rfl⟩ := Prod.mk.inj (Except.ok.inj h)
      exact ⟨[], rfl, rfl, rfl, by simp⟩
  | cons sample samples ih =>
      unfold encryptSamples at h
      obtain ⟨map, hmap, h⟩ := bind_eq_ok_iff.mp h
      obtain ⟨⟨others, rest⟩, hrest, h⟩ := bind_eq_ok_iff.mp h
      obtain ⟨rfl, rfl⟩ := Prod.mk.inj (Except.ok.inj h)
      obtain ⟨found, hclear, hmaps, hencrypted, hsound⟩ := ih hrest
      have hdescribes := describes_of_sampleMap hmap
      obtain ⟨hlength, hdecrypts⟩ :=
        @decrypt_encryptSample _ hscheme iv _ _ hdescribes.total
      refine ⟨⟨payload.take sample.size, map, encryptSample decryptor.cipher iv
          ⟨decryptor.crypt, decryptor.skip⟩ map (payload.take sample.size)⟩ ::
            found, ?_, ?_, ?_,
        List.forall_mem_cons.mpr ⟨⟨hdescribes, hlength, hdecrypts⟩, hsound⟩⟩
      · rw [List.map_cons, List.map_cons, cutSizes, hclear]
      · rw [List.map_cons, hmaps]
      · rw [List.flatMap_cons, hencrypted]

end Segmentor
