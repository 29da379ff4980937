import Segmentor.BlockChaining
import Segmentor.InBandSets
import Segmentor.PackagedAsset
import Segmentor.SourceProtection

/-!
# Finishing segments that are to be encrypted

Once the bytes of a segment are read, its samples are decrypted, encrypted or
both, and the header in front of them says where their protected bytes are.
The block cipher under each key is a parameter.
-/

namespace Segmentor

open General

/-! ## Subsample maps -/

namespace SliceCodec

variable {Sets : Type} (codec : SliceCodec Sets)

/-- The walk over a sample always ends. -/
theorem isSome_subsamples (parameters : Sets) (sample : List UInt8) :
    (codec.subsamples parameters sample).isSome = true := by
  obtain ⟨result, hresult, -⟩ := codec.subsamples_spec parameters sample
  rw [hresult]
  rfl

/-- The map of a sample, or why it has none. -/
def mapOf (parameters : Sets) (sample : List UInt8) : Result SubsampleMap :=
  (codec.subsamples parameters sample).get
    (codec.isSome_subsamples parameters sample)

theorem covers_of_mapOf {parameters : Sets} {sample : List UInt8}
    {map : SubsampleMap} (h : codec.mapOf parameters sample = .ok map) :
    codec.Covers parameters sample map := by
  obtain ⟨result, hresult, hcovers⟩ := codec.subsamples_spec parameters sample
  unfold mapOf at h
  simp only [hresult, Option.get_some] at h
  exact hcovers map h

end SliceCodec

/-- Which bytes of a sample are to be encrypted; all of them for audio. -/
def sampleMap (video : Option VideoParameters) (sample : List UInt8) :
    Result SubsampleMap :=
  match video with
  | some (.avc parameters) => avcCodec.mapOf parameters sample
  | some (.hevc parameters) => hevcCodec.mapOf parameters sample
  | none => .ok []

/-! ## Encrypting -/

/-- Encrypts what each entry of a map protects, the first entry's bytes
starting at `place`. -/
def encryptMapped (cipher : BlockCipher 16) (iv : List UInt8)
    (pattern : Pattern) : ℕ → SubsampleMap → List UInt8 → List UInt8
  | _, [], sample => sample
  | place, (clear, size) :: map, sample =>
      let start := place + clear
      let stop := start + size
      let encrypted :=
        encryptRange cipher iv (stretch sample start stop) pattern
      encryptMapped cipher iv pattern stop map
        (putAt (start, stop) encrypted sample)

def encryptSample (cipher : BlockCipher 16) (iv : List UInt8)
    (pattern : Pattern) (map : SubsampleMap) (sample : List UInt8) :
    List UInt8 :=
  if map.isEmpty then encryptRange cipher iv sample pattern
  else encryptMapped cipher iv pattern 0 map sample

/-- Encrypts the samples of a payload one after another, which it is exactly as
long as. -/
def encryptSamples (video : Option VideoParameters) (cipher : BlockCipher 16)
    (iv : List UInt8) (pattern : Pattern) :
    List Sample → List UInt8 → Result (List SubsampleMap × List UInt8)
  | [], _ => .ok ([], [])
  | sample :: samples, payload => do
      let bytes := payload.take sample.size
      let map ← sampleMap video bytes
      let (maps, encrypted) ← encryptSamples video cipher iv pattern samples
        (payload.drop sample.size)
      .ok (map :: maps, encryptSample cipher iv pattern map bytes ++ encrypted)

/-! ## Decrypting -/

/-- Decrypts samples of these sizes one after another, the first of them the
sample `index` of the track. -/
def decryptSamples (decryption : TrackDecryption) :
    ℕ → List ℕ → List UInt8 → Result (List UInt8)
  | _, [], payload => .ok payload
  | index, size :: sizes, payload =>
      if payload.length < size then
        .error (.invalidMedia "segment payload is shorter than its samples")
      else do
        let sample ← decryption.decryptSample index (payload.take size)
        let rest ← decryptSamples decryption (index + 1) sizes
          (payload.drop size)
        .ok (sample ++ rest)

/-! ## Finishing -/

/-- What finishing a track's segments takes besides their data: the block
cipher under each key, the parameter sets of a video track and, for a protected
source, what undoes the protection. -/
structure FinishContext where
  aes : List UInt8 → BlockCipher 16
  video : Option VideoParameters
  decryption : TrackDecryption

namespace PendingEncryption

/-- A segment's samples, each with its protected bytes encrypted under the
track's key, behind the header that says which they are. -/
def finishCbcs (context : FinishContext) (trackId : ℕ) (kind : TrackKind)
    (samples : List Sample) (decodeTime sequenceNumber : ℕ)
    (protection : TrackProtection) (payload : List UInt8) :
    Result (List UInt8) := do
  let expected := samples.foldlM
    (fun total sample => checkedAdd (2 ^ 64) total sample.size) 0
  if expected ≠ some payload.length then
    .error (.invalidMedia "encrypted segment bytes do not match its samples")
  else
    let (maps, encrypted) ← encryptSamples context.video
      (context.aes protection.key.key) protection.key.iv
      protection.kind.pattern samples payload
    let header ← encryptedFragmentHeader trackId kind samples decodeTime
      sequenceNumber maps payload.length protection.rotation
    .ok (header ++ encrypted)

/-- The finished fragment. -/
def finish (context : FinishContext) :
    PendingEncryption → List UInt8 → Result (List UInt8)
  | .decrypt header firstSample sizes followedBy, payload => do
      let clear ← decryptSamples context.decryption firstSample sizes payload
      match followedBy with
      | some pending => finish context pending clear
      | none => .ok (header ++ clear)
  | .cbcs trackId kind samples decodeTime sequenceNumber protection,
      payload =>
      finishCbcs context trackId kind samples decodeTime sequenceNumber
        protection payload
  | .clear trackId kind samples decodeTime sequenceNumber rotation,
      payload => do
      let header ← clearFragmentHeader trackId kind samples decodeTime
        sequenceNumber rotation payload.length
      .ok (header ++ payload)
  | .wholeSegment header segmentIndex key, payload =>
      .ok (Aes128.encryptSegment (context.aes key.key)
        (UInt32.ofNat segmentIndex) (header ++ payload))

end PendingEncryption

end Segmentor
