import Segmentor.Presentation
import Segmentor.Protection
import Segmentor.General.BlockModes
import Segmentor.General.Scatter

/-!
# Ciphers over samples

Content is enciphered and deciphered in place: range by range, and in most
schemes block by block within a range.  The block cipher under a key is a
parameter.
-/

namespace Segmentor

open General

inductive SourceScheme
  /-- Counter mode over every protected byte. -/
  | cenc
  /-- Counter mode over the blocks a pattern selects. -/
  | cens
  /-- Block chaining over whole blocks. -/
  | cbc1
  /-- Block chaining over the blocks a pattern selects, from a constant IV. -/
  | cbcs
  deriving DecidableEq, Repr

/-- A run of clear bytes, then a run of protected ones. -/
structure Subsample where
  clear : ℕ
  protectedBytes : ℕ
  deriving DecidableEq, Repr

/-- An IV of 8 or 16 bytes as a block, padded with zeros. -/
def iv16 (iv : List UInt8) : Option (List UInt8) :=
  if iv.length = 8 ∨ iv.length = 16 then
    some (iv ++ List.replicate (16 - iv.length) 0)
  else none

def subsampleMismatch : Error :=
  invalidMedia "subsample sizes do not add up to the size of the sample"

/-- The protected ranges of the subsamples from `offset` on. -/
def protectedRangesFrom (length : ℕ) :
    ℕ → List Subsample → Result (List (ℕ × ℕ))
  | offset, [] =>
      if offset ≠ length then .error subsampleMismatch else .ok []
  | offset, subsample :: subsamples =>
      let start := offset + subsample.clear
      let stop := start + subsample.protectedBytes
      if length < stop then .error subsampleMismatch
      else do
        let ranges ← protectedRangesFrom length stop subsamples
        .ok ((start, stop) :: ranges)

/-- The protected ranges of a sample, which the subsamples must cover exactly;
without subsamples it is protected whole. -/
def protectedRanges (length : ℕ) (subsamples : List Subsample) :
    Result (List (ℕ × ℕ)) :=
  if subsamples.isEmpty then .ok [(0, length)]
  else protectedRangesFrom length 0 subsamples

/-- A loop over the whole blocks of a range that passes over those not
selected. -/
def eachBlock {σ : Type} (selects : ℕ → Bool)
    (f : σ → List UInt8 → σ × List UInt8) (state : σ) (data : List UInt8) :
    σ × List UInt8 :=
  (blockSpans 16 (0, data.length)).zipIdx.foldl
    (fun state block =>
      if selects block.2 then onSpan f state block.1 else state)
    (state, data)

/-! ## Enciphering -/

/-- Enciphers a protected range, the chain starting from `iv`. -/
def encryptRange (cipher : BlockCipher 16) (iv data : List UInt8)
    (pattern : Pattern) : List UInt8 :=
  let period := pattern.crypt + pattern.skip
  (eachBlock
    (fun index => ¬ (period ≠ 0 ∧ pattern.crypt ≤ index % period))
    (fun chain block =>
      let enciphered := cipher.encrypt (xorBytes block chain)
      (enciphered, enciphered))
    iv data).2

/-- Pads a segment and enciphers it as one message. -/
def Aes128.encryptSegment (cipher : BlockCipher 16) (segmentIndex : UInt32)
    (data : List UInt8) : List UInt8 :=
  let padding := 16 - data.length % 16
  encryptRange cipher (Aes128.iv segmentIndex.toNat)
    (data ++ List.replicate padding (UInt8.ofNat padding)) .full

/-! ## Counter streams -/

/-- A keystream that carries on from one call to the next. -/
structure CtrStream where
  counter : ℕ
  keystream : List UInt8
  used : ℕ
  deriving DecidableEq, Repr

namespace CtrStream

def new (iv : List UInt8) : CtrStream where
  counter := decode iv
  keystream := List.replicate 16 0
  used := 16

/-- A new keystream block where the last one is used up. -/
def refill (cipher : BlockCipher 16) (stream : CtrStream) : CtrStream :=
  if stream.used = 16 then
    { counter := (stream.counter + 1) % 2 ^ 128
      keystream := cipher.encrypt (encode 16 stream.counter)
      used := 0 }
  else stream

/-- One round takes at least one byte, so there are no more rounds than
bytes. -/
def applyFuel (cipher : BlockCipher 16) :
    ℕ → CtrStream → List UInt8 → CtrStream × List UInt8
  | 0, stream, data => (stream, data)
  | fuel + 1, stream, data =>
      if data.isEmpty then (stream, data)
      else
        let filled := stream.refill cipher
        let take := min (16 - filled.used) data.length
        let now := xorBytes (data.take take)
          (filled.keystream.drop filled.used)
        let later := applyFuel cipher fuel
          { filled with used := filled.used + take } (data.drop take)
        (later.1, now ++ later.2)

def apply (cipher : BlockCipher 16) (stream : CtrStream)
    (data : List UInt8) : CtrStream × List UInt8 :=
  applyFuel cipher data.length stream data

end CtrStream

/-! ## Deciphering -/

/-- Deciphers samples of one scheme under one key. -/
structure SampleDecryptor where
  cipher : BlockCipher 16
  scheme : SourceScheme
  crypt : ℕ
  skip : ℕ

namespace SampleDecryptor

/-- Whether the pattern protects block `index` of a range. -/
def selects (decryptor : SampleDecryptor) (index : ℕ) : Bool :=
  let period := decryptor.crypt + decryptor.skip
  period = 0 ∨ index % period < decryptor.crypt

/-- The plain block, and the block as the next chain. -/
def cbcBlock (cipher : BlockCipher 16) (chain block : List UInt8) :
    List UInt8 × List UInt8 :=
  (block, xorBytes (cipher.decrypt block) chain)

/-- Deciphers a whole sample. -/
def decrypt (decryptor : SampleDecryptor) (iv data : List UInt8)
    (subsamples : List Subsample) : Result (List UInt8) := do
  let ranges ← protectedRanges data.length subsamples
  .ok
    (match decryptor.scheme with
    | .cenc =>
        (ranges.foldl (onSpan (CtrStream.apply decryptor.cipher))
          (CtrStream.new iv, data)).2
    | .cens =>
        (ranges.foldl
          (onSpan (eachBlock decryptor.selects
            (CtrStream.apply decryptor.cipher)))
          (CtrStream.new iv, data)).2
    | .cbc1 =>
        (ranges.foldl
          (onSpan (eachBlock (fun _ => true) (cbcBlock decryptor.cipher)))
          (iv, data)).2
    | .cbcs =>
        (ranges.foldl
          (onSpan fun _ part => ((),
            (eachBlock decryptor.selects (cbcBlock decryptor.cipher) iv
              part).2))
          ((), data)).2)

end SampleDecryptor

/-! ## Ranges -/

theorem apart_protectedRangesFrom {length offset : ℕ}
    {subsamples : List Subsample} {ranges : List (ℕ × ℕ)}
    (h : protectedRangesFrom length offset subsamples = .ok ranges) :
    Apart offset ranges length := by
  induction subsamples generalizing offset ranges with
  | nil =>
      unfold protectedRangesFrom at h
      split at h
      · cases h
      · rename_i heq
        cases h
        exact (not_not.mp heq).le
  | cons subsample subsamples ih =>
      unfold protectedRangesFrom at h
      dsimp only at h
      split at h
      · cases h
      · obtain ⟨rest, hrest, h⟩ := bind_eq_ok_iff.mp h
        cases h
        exact ⟨Nat.le_add_right .., Nat.le_add_right .., ih hrest⟩

theorem apart_protectedRanges {length : ℕ} {subsamples : List Subsample}
    {ranges : List (ℕ × ℕ)}
    (h : protectedRanges length subsamples = .ok ranges) :
    Apart 0 ranges length := by
  unfold protectedRanges at h
  split at h
  · cases h
    exact ⟨Nat.le_refl 0, Nat.zero_le _, Nat.le_refl _⟩
  · exact apart_protectedRangesFrom h

/-! ## Selected blocks -/

/-- The selected whole blocks of a range. -/
def selectedBlocks (selects : ℕ → Bool) (range : ℕ × ℕ) : List (ℕ × ℕ) :=
  ((blockSpans 16 range).zipIdx.filter fun block => selects block.2).map
    Prod.fst

section Selected

variable {σ : Type} {selects : ℕ → Bool} {range : ℕ × ℕ}

theorem eachBlock_eq (selects : ℕ → Bool)
    (f : σ → List UInt8 → σ × List UInt8) (state : σ) (data : List UInt8) :
    eachBlock selects f state data =
      (selectedBlocks selects (0, data.length)).foldl (onSpan f)
        (state, data) := by
  unfold eachBlock selectedBlocks
  rw [List.foldl_map, List.foldl_filter]

theorem selectedBlocks_sublist (selects : ℕ → Bool) (range : ℕ × ℕ) :
    (selectedBlocks selects range).Sublist (blockSpans 16 range) := by
  have hsub := (List.filter_sublist
    (p := fun block : (ℕ × ℕ) × ℕ => selects block.2)
    (l := (blockSpans 16 range).zipIdx)).map Prod.fst
  rwa [List.zipIdx_map_fst] at hsub

theorem length_of_mem_selectedBlocks {block : ℕ × ℕ}
    (h : block ∈ selectedBlocks selects range) : block.2 - block.1 = 16 :=
  length_of_mem_blockSpans ((selectedBlocks_sublist selects range).subset h)

theorem apart_selectedBlocks (h : range.1 ≤ range.2) :
    Apart range.1 (selectedBlocks selects range) range.2 :=
  (apart_blockSpans 16 h).sublist (selectedBlocks_sublist selects range)

theorem seenFrom_selectedBlocks (selects : ℕ → Bool) (range : ℕ × ℕ) :
    seenFrom range.1 (selectedBlocks selects range) =
      selectedBlocks selects (0, range.2 - range.1) := by
  have hblocks : (blockSpans 16 (0, range.2 - range.1)) =
      seenFrom range.1 (blockSpans 16 range) := by
    unfold seenFrom blockSpans
    rw [List.map_map]
    apply List.map_congr_left
    intro index _
    apply Prod.ext
    · dsimp only [Function.comp_apply]
      omega
    · dsimp only [Function.comp_apply]
      omega
  unfold selectedBlocks
  rw [hblocks]
  unfold seenFrom
  rw [List.zipIdx_map, List.filter_map, List.map_map, List.map_map]
  rfl

theorem foldl_eachBlock {f : σ → List UInt8 → σ × List UInt8} {state : σ}
    {data : List UInt8} {ranges : List (ℕ × ℕ)}
    (h : Apart 0 ranges data.length)
    (hf : ∀ state, ∀ block : List UInt8, block.length = 16 →
      (f state block).2.length = block.length) :
    ranges.foldl (onSpan (eachBlock selects f)) (state, data) =
      (ranges.flatMap (selectedBlocks selects)).foldl (onSpan f)
        (state, data) := by
  refine foldl_onSpan_flatMap h ?_ ?_ ?_
  · intro range hrange
    exact apart_selectedBlocks (h.mem hrange).2.1
  · intro state block hblock part hpart
    obtain ⟨range, -, hmem⟩ := List.mem_flatMap.mp hblock
    rw [length_of_mem_selectedBlocks hmem] at hpart
    exact hf state part hpart
  · intro range _ state part hpart
    rw [eachBlock_eq, seenFrom_selectedBlocks, hpart]

theorem apart_flatMap_selectedBlocks {length : ℕ} {ranges : List (ℕ × ℕ)}
    (h : Apart 0 ranges length) :
    Apart 0 (ranges.flatMap (selectedBlocks selects)) length :=
  h.flatMap fun _ hrange => apart_selectedBlocks (h.mem hrange).2.1

theorem length_of_mem_gather {data : List UInt8} {spans : List (ℕ × ℕ)}
    (h : Apart 0 spans data.length)
    (hspans : ∀ span ∈ spans, span.2 - span.1 = 16) :
    ∀ part ∈ gather data spans, part.length = 16 := by
  intro part hpart
  obtain ⟨span, hspan, rfl⟩ := List.mem_map.mp hpart
  have hsize := hspans span hspan
  have hbounds := h.mem hspan
  rw [length_stretch]
  omega

end Selected

end Segmentor
