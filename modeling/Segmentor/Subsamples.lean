import Segmentor.AvcSlices
import Segmentor.EncryptedFragments
import Segmentor.HevcSlices

/-!
# Subsample maps

A video sample is a run of NAL units, each behind its length.  The headers of
its slices and everything that is no slice stay clear; the rest of each slice
is protected.  The map of a sample says so in pairs of a clear and a protected
count.
-/

namespace Segmentor

open General

/-! ## Codecs -/

/-- What a NAL unit is to a sample's map. -/
inductive NalRole
  | slice
  | refused (error : Error)
  | parameterSet
  | other

/-- What a codec says of NAL units.  A slice's clear header is a part of it,
and depends on no parameter sets but those it names. -/
structure SliceCodec (Sets : Type) where
  nalLengthSize : Sets → ℕ
  role : UInt8 → NalRole
  update : Sets → List UInt8 → Result Sets
  clearBytes : Sets → List UInt8 → Result ℕ
  names : List UInt8 → ℕ → Prop
  agree : Sets → Sets → ℕ → Prop
  clearBytes_le : ∀ {sets nal count}, clearBytes sets nal = .ok count →
    count ≤ nal.length
  clearBytes_congr : ∀ {a b nal}, (∀ id, names nal id → agree a b id) →
    clearBytes a nal = clearBytes b nal

/-! ## Maps -/

/-- The clear-only entries a long clear run starts with, and what is left of
it. -/
def clearRuns : ℕ → ℕ → SubsampleMap × ℕ
  | 0, clear => ([], clear)
  | turns + 1, clear =>
      if 2 ^ 16 - 1 < clear then
        let (runs, rest) := clearRuns turns (clear - (2 ^ 16 - 1))
        ((2 ^ 16 - 1, 0) :: runs, rest)
      else ([], clear)

/-- Adds one subsample; a clear run longer than a word becomes several
clear-only ones. -/
def pushSubsample (map : SubsampleMap) (clear size : ℕ) : Result SubsampleMap :=
  let (runs, clear) := clearRuns clear clear
  if size < 2 ^ 32 then .ok (map ++ runs ++ [(clear, size)])
  else .error (.invalidMedia "a slice is larger than 4 GiB")

/-- Where the walk over a sample stands: the clear bytes since the last slice,
the map so far and the parameter sets, once the sample has brought some. -/
structure NalWalk (Sets : Type) where
  place : ℕ
  clear : ℕ
  map : SubsampleMap
  inBand : Option Sets

def NalWalk.start (Sets : Type) : NalWalk Sets where
  place := 0
  clear := 0
  map := []
  inBand := none

/-- The NAL unit behind the length at `place`. -/
def nalAt (lengthSize : ℕ) (sample : List UInt8) (place : ℕ) :
    Result (List UInt8) :=
  if sample.length < place + lengthSize then
    .error (.invalidMedia "a NAL length is truncated")
  else
    let length := decode ((sample.drop place).take lengthSize)
    if sample.length < place + lengthSize + length then
      .error (.invalidMedia "a NAL unit runs past its sample")
    else .ok ((sample.drop (place + lengthSize)).take length)

namespace SliceCodec

variable {Sets : Type} (codec : SliceCodec Sets)

/-- One turn of the walk: the next NAL unit. -/
def step (parameters : Sets) (sample : List UInt8) (walk : NalWalk Sets) :
    Result (NalWalk Sets) := do
  let lengthSize := codec.nalLengthSize parameters
  let nal ← nalAt lengthSize sample walk.place
  let next := walk.place + lengthSize + nal.length
  let first ← okOr nal.head? (.invalidMedia "an empty NAL unit")
  match codec.role first with
  | .slice => do
      let header ← codec.clearBytes (walk.inBand.getD parameters) nal
      let map ← pushSubsample walk.map (walk.clear + lengthSize + header)
        (nal.length - header)
      .ok { walk with place := next, clear := 0, map := map }
  | .refused error => .error error
  | .parameterSet => do
      let sets ← codec.update (walk.inBand.getD parameters) nal
      .ok
        { walk with
          place := next
          clear := walk.clear + (lengthSize + nal.length)
          inBand := some sets }
  | .other =>
      .ok
        { walk with
          place := next
          clear := walk.clear + (lengthSize + nal.length) }

/-- The walk to the end of the sample, if it gets there in `turns` turns. -/
def walk (parameters : Sets) (sample : List UInt8) :
    ℕ → NalWalk Sets → Option (Result (NalWalk Sets))
  | turns, place =>
      if sample.length ≤ place.place then some (.ok place)
      else
        match turns with
        | 0 => none
        | turns + 1 =>
            match codec.step parameters sample place with
            | .error error => some (.error error)
            | .ok next => walk parameters sample turns next

/-- The map once the sample is walked. -/
def finish (walk : NalWalk Sets) : Result SubsampleMap := do
  let map ← (if 0 < walk.clear then pushSubsample walk.map walk.clear 0
    else .ok walk.map)
  if MAX_SUBSAMPLES < map.length then
    .error (.invalidMedia
      "a sample has more than 42 subsamples, more than saiz can describe")
  else .ok map

/-- The map of a sample, where a turn for each byte is enough to walk it. -/
def subsamples (parameters : Sets) (sample : List UInt8) :
    Option (Result SubsampleMap) :=
  (codec.walk parameters sample sample.length (.start Sets)).map
    fun walked => walked.bind finish

end SliceCodec

/-! ## The two codecs -/

def avcRole (header : UInt8) : NalRole :=
  let type := Avc.nalType header
  if type = 1 ∨ type = 5 then .slice
  else if 2 ≤ type ∧ type ≤ 4 then
    .refused (.unsupported "H.264 data partitioning cannot be encrypted")
  else if type = 7 ∨ type = 8 then .parameterSet
  else .other

def hevcRole (header : UInt8) : NalRole :=
  let type := Hevc.nalType header
  if type ≤ 9 ∨ (16 ≤ type ∧ type ≤ 21) then .slice
  else if type ≤ 31 then
    .refused (.unsupported s!"H.265 NAL unit type {type} cannot be encrypted")
  else if type ≤ 34 then .parameterSet
  else .other

theorem Avc.clearBytes_le {parameters : Avc.Parameters} {nal : List UInt8}
    {count : ℕ} (h : parameters.clearBytes nal = .ok count) :
    count ≤ nal.length := by
  obtain ⟨bits, -, h⟩ := bind_eq_ok_iff.mp h
  exact (Rbsp.nalBytesCovering_le (okOr_eq_ok_iff.mp h)).1

theorem Hevc.attempt_le {parameters : Hevc.Parameters} {nal : List UInt8}
    {limit count : ℕ} (h : parameters.attempt nal limit = .ok count) :
    count ≤ nal.length := by
  obtain ⟨bits, -, h⟩ := bind_eq_ok_iff.mp h
  exact (Rbsp.nalBytesCovering_le (okOr_eq_ok_iff.mp h)).1

theorem Hevc.clearBytes_le {parameters : Hevc.Parameters} {nal : List UInt8}
    {count : ℕ} (h : parameters.clearBytes nal = .ok count) :
    count ≤ nal.length := by
  unfold Hevc.Parameters.clearBytes at h
  cases hfirst : parameters.attempt nal Hevc.sliceHeaderBytes with
  | ok found =>
      rw [hfirst] at h
      obtain rfl := Except.ok.inj h
      exact Hevc.attempt_le hfirst
  | error error =>
      rw [hfirst] at h
      dsimp only at h
      split at h
      · exact Hevc.attempt_le h
      · cases h

def avcCodec : SliceCodec Avc.Parameters where
  nalLengthSize := Avc.Parameters.nalLengthSize
  role := avcRole
  update := Avc.Parameters.update
  clearBytes := Avc.Parameters.clearBytes
  names := Avc.Names
  agree a b ppsId := a.sets ppsId = b.sets ppsId
  clearBytes_le := Avc.clearBytes_le
  clearBytes_congr := Avc.Parameters.clearBytes_congr

def hevcCodec : SliceCodec Hevc.Parameters where
  nalLengthSize := Hevc.Parameters.nalLengthSize
  role := hevcRole
  update := Hevc.Parameters.update
  clearBytes := Hevc.Parameters.clearBytes
  names := Hevc.Names
  agree a b ppsId := a.sets ppsId = b.sets ppsId
  clearBytes_le := Hevc.clearBytes_le
  clearBytes_congr := Hevc.Parameters.clearBytes_congr

/-- One H.264 sample's subsamples. -/
def avcSubsamples (parameters : Avc.Parameters) (sample : List UInt8) :
    Option (Result SubsampleMap) :=
  avcCodec.subsamples parameters sample

/-- One H.265 sample's subsamples. -/
def hevcSubsamples (parameters : Hevc.Parameters) (sample : List UInt8) :
    Option (Result SubsampleMap) :=
  hevcCodec.subsamples parameters sample

end Segmentor
