import Segmentor.FragmentPlayback

/-!
# Decrypting fragments as they lie

A player need not keep time, nor count samples against a limit, to decrypt a
fragment: it cuts the data that `trun` points to by the sizes listed there.
Every fragment that is finished can be decrypted so.
-/

namespace Segmentor

open General

/-! ## The samples as they lie -/

/-- The sizes that the next entries of a run list, `fallback` where they list
none. -/
def readRunSizes (flags fallback : ℕ) : ℕ → Reader (List ℕ)
  | 0 => pure []
  | count + 1 => do
      let _ ← Reader.optional (hasFlag flags SAMPLE_DURATION) (Reader.skip 4)
      let size ← Run.field (hasFlag flags SAMPLE_SIZE) fallback
      let _ ← Reader.optional (hasFlag flags SAMPLE_FLAGS) (Reader.skip 4)
      let _ ← Reader.optional (hasFlag flags SAMPLE_COMPOSITION_OFFSET)
        (Reader.skip 4)
      let rest ← readRunSizes flags fallback count
      return size :: rest

/-- Where a run's data is in the fragment, and the size of each sample. -/
def readRunData (fallback : ℕ) : Reader (ℕ × List ℕ) := do
  let (_, flags) ← Reader.fullBoxFlags
  let count ← Reader.u32
  let offset ← Reader.optional (hasFlag flags DATA_OFFSET) Reader.i32
  let _ ← Reader.optional (hasFlag flags FIRST_SAMPLE_FLAGS) (Reader.skip 4)
  let sizes ← readRunSizes flags fallback count
  return ((offset.getD 0).toNat, sizes)

/-- The samples of a fragment, protected as they are. -/
def protectedSamples (fragment : List UInt8) : Result (List (List UInt8)) := do
  let moof ← boxPayload fragment 0
  let traf ← requiredChild moof.payload (code 't' 'r' 'a' 'f')
  let tfhd ← requiredChild traf.payload (code 't' 'f' 'h' 'd')
  let header ← parseTrackFragmentHeader.run' tfhd.payload
  let trun ← requiredChild traf.payload (code 't' 'r' 'u' 'n')
  let (offset, sizes) ←
    (readRunData (header.defaultSize.getD 0)).run' trun.payload
  .ok (cutSizes sizes (fragment.drop offset))

/-- The samples of a fragment, each decrypted by its map. -/
def decryptFragment (decryptor : SampleDecryptor) (iv fragment : List UInt8) :
    Result (List (List UInt8)) := do
  let samples ← protectedSamples fragment
  let maps ← playerMaps fragment
  if maps.length ≠ samples.length then
    .error (invalidMedia "saiz does not describe the samples")
  else
    (samples.zip maps).mapM fun (sample, subsamples) =>
      decryptor.decrypt iv sample subsamples

/-! ## What is read -/

theorem readRunSizes_written {kind : TrackKind} {samples : List Sample}
    (hsizes : ∀ sample ∈ samples, sample.size < 2 ^ 32) (fallback : ℕ)
    (rest : List UInt8) :
    (readRunSizes TRUN_FLAGS fallback samples.length).run
        (samples.flatMap (trunEntry kind) ++ rest) =
      .ok (samples.map Sample.size, rest) := by
  induction samples with
  | nil => rfl
  | cons sample samples ih =>
      obtain ⟨hsize, hothers⟩ := List.forall_mem_cons.mp hsizes
      have hskip : ∀ (flag value : ℕ) (behind : List UInt8),
          hasFlag TRUN_FLAGS flag = true →
          (Reader.optional (hasFlag TRUN_FLAGS flag) (Reader.skip 4)).run
            (encode 4 value ++ behind) = .ok (some (), behind) := by
        intro flag value behind hflag
        rw [hflag, Reader.run_optional_true,
          Reader.skip_append (length_encode 4 value)]
        rfl
      have hfield : Run.field (hasFlag TRUN_FLAGS SAMPLE_SIZE) fallback =
          Reader.u32 := rfl
      rw [List.length_cons, readRunSizes, List.flatMap_cons, hfield]
      simp only [trunEntry, List.append_assoc]
      rw [StateT.run_bind, hskip _ _ _ rfl, ok_bind]
      dsimp only
      rw [StateT.run_bind, Reader.u32_append hsize, ok_bind]
      dsimp only
      rw [StateT.run_bind, hskip _ _ _ rfl, ok_bind]
      dsimp only
      rw [StateT.run_bind, hskip _ _ _ rfl, ok_bind]
      dsimp only
      rw [StateT.run_bind, ih hothers]
      rfl

theorem readRunData_written {kind : TrackKind} {samples : List Sample}
    (hsizes : ∀ sample ∈ samples, sample.size < 2 ^ 32)
    (hcount : samples.length < 2 ^ 32) {dataOffset : ℕ}
    (hoffset : dataOffset < 2 ^ 31) (fallback : ℕ) :
    (readRunData fallback).run' (Run.written kind samples dataOffset) =
      .ok (dataOffset, samples.map Sample.size) := by
  have hread := @readRunSizes_written kind samples hsizes fallback []
  rw [List.append_nil] at hread
  unfold readRunData Run.written
  simp only [List.append_assoc]
  rw [StateT.run'_eq, StateT.run_bind,
    Reader.fullBoxFlags_append (by decide) (by decide), ok_bind]
  dsimp only
  rw [StateT.run_bind, Reader.u32_append hcount, ok_bind]
  dsimp only
  rw [show hasFlag TRUN_FLAGS DATA_OFFSET = true from rfl, StateT.run_bind,
    Reader.run_optional_true, Reader.i32_append (by omega) (by omega)]
  dsimp only [Except.map]
  rw [ok_bind]
  dsimp only
  rw [show hasFlag TRUN_FLAGS FIRST_SAMPLE_FLAGS = false from rfl,
    StateT.run_bind, Reader.run_optional_false, ok_bind]
  dsimp only
  rw [StateT.run_bind, hread]
  rfl

namespace FragmentLayout

variable {layout : FragmentLayout}

/-- The first box of a name in the part is the first in its `traf`. -/
theorem requiredChild_part (h : layout.Fits) {name : List UInt8}
    {box : BoxSpec}
    (hfind : (layout.part.boxes layout.dataOffset).find?
      (fun box => box.1 == name) = some box) :
    requiredChild layout.trafPayload name = .ok box.raw := by
  refine requiredChild_boxesBytes h.inside ?_
  rw [List.find?_append, hfind, Option.some_or]

end FragmentLayout

theorem EncryptedHeader.protectedSamples_eq {part : ExpandedPart}
    {maps : List SubsampleMap} {rotation : Option FragmentRotation}
    {header : List UInt8} {layout : FragmentLayout} {groups : List BoxSpec}
    {auxOffset : ℕ}
    (h : EncryptedHeader part maps rotation header layout groups auxOffset)
    (hsizes : ∀ sample ∈ part.samples, sample.size < 2 ^ 32)
    (data : List UInt8) :
    protectedSamples (header ++ data) =
      .ok (cutSizes (part.samples.map Sample.size) data) := by
  obtain ⟨rfl⟩ := h.part_eq
  have htraf : requiredChild (boxesBytes layout.children)
      (code 't' 'r' 'a' 'f') =
        .ok (BoxSpec.raw (code 't' 'r' 'a' 'f', layout.trafPayload)) :=
    requiredChild_boxesBytes h.fits.children (FragmentLayout.find?_traf h.fits)
  have htfhd : requiredChild layout.trafPayload (code 't' 'f' 'h' 'd') =
      .ok (BoxSpec.raw (code 't' 'f' 'h' 'd', layout.part.tfhd)) :=
    FragmentLayout.requiredChild_part h.fits rfl
  have htrun : requiredChild layout.trafPayload (code 't' 'r' 'u' 'n') =
      .ok (BoxSpec.raw (code 't' 'r' 'u' 'n',
        layout.part.trun layout.dataOffset)) :=
    FragmentLayout.requiredChild_part h.fits rfl
  have hrun : (readRunData 0).run' (layout.part.trun layout.dataOffset) =
      .ok (layout.dataOffset, layout.part.samples.map Sample.size) :=
    readRunData_written hsizes h.fits.samples_lt h.offset_lt 0
  unfold protectedSamples
  rw [h.boxPayload_eq, ok_bind]
  dsimp only [BoxSpec.raw]
  rw [htraf, ok_bind]
  dsimp only [BoxSpec.raw]
  rw [htfhd, ok_bind]
  dsimp only [BoxSpec.raw]
  rw [parseTrackFragmentHeader_tfhd, ok_bind, htrun, ok_bind]
  dsimp only [BoxSpec.raw, Option.getD_none]
  rw [hrun, ok_bind]
  dsimp only
  rw [h.offset_eq, List.drop_left]

/-! ## Decrypting a fragment -/

/-- Samples cut by their sizes are decrypted one by one. -/
theorem mapM_decrypts {decryptor : SampleDecryptor} {iv : List UInt8}
    {found : List EncryptedSample}
    (h : ∀ sample ∈ found, sample.Sound decryptor iv) :
    ((found.map EncryptedSample.encrypted).zip
        (found.map fun sample => sample.map.entry.subsamples)).mapM
        (fun (sample, subsamples) => decryptor.decrypt iv sample subsamples) =
      .ok (found.map EncryptedSample.clear) := by
  rw [List.zip_map', List.mapM_map]
  exact mapM_eq_ok fun sample hsample => (h sample hsample).decrypts

/-- Whatever the keys, their rotation, the kind of the track and the samples,
the samples of every fragment that is finished decrypt to the payload. -/
theorem finished_fragments_decrypt {context : FinishContext} {track : Track}
    {samples : List Sample} {decodeTime sequenceNumber : ℕ}
    {period primary : PeriodKeys} {rotating : Bool}
    {payload fragment : List UInt8}
    (h : (PendingEncryption.cbcs track.id track.kind samples decodeTime
      sequenceNumber
      (trackProtection period primary rotating track.kind)).finish context
        payload = .ok fragment) :
    (cutSizes (samples.map Sample.size) payload).flatten = payload ∧
      decryptFragment
        (context.decryptor
          (trackProtection period primary rotating track.kind))
        (period.keyFor track.kind).iv fragment =
          .ok (cutSizes (samples.map Sample.size) payload) := by
  obtain ⟨hsum, hpayload, found, hclear, hsound, header, layout, groups,
    auxOffset, hlayout, rfl⟩ := @finishCbcs_eq_ok context
      ⟨track, ⟨0, 0, 0, decodeTime, 0⟩, samples, totalSize samples⟩
      sequenceNumber (trackProtection period primary rotating track.kind)
      payload fragment (fun _ => wholePssh_trackProtection) (by
        unfold PendingEncryption.finish at h
        exact h)
  dsimp only at hsum hclear
  refine ⟨flatten_cutSizes hsum, ?_⟩
  have hlengths : samples.map Sample.size =
      found.map fun sample => sample.clear.length := by
    rw [← map_length_cutSizes hsum.le, ← hclear, List.map_map]
    rfl
  have hsize : ∀ size ∈ samples.map Sample.size, size < 2 ^ 32 := by
    intro size hmem
    have hle := List.single_le_sum (by simp) _ hmem
    omega
  have hencrypted : samples.map Sample.size =
      (found.map EncryptedSample.encrypted).map List.length := by
    rw [hlengths, List.map_map]
    apply List.map_congr_left
    intro sample hsample
    exact (hsound sample hsample).length_eq.symm
  have hcut : cutSizes (samples.map Sample.size)
      (found.flatMap EncryptedSample.encrypted) =
        found.map EncryptedSample.encrypted := by
    have hparts := cutSizes_flatten (found.map EncryptedSample.encrypted) []
    rw [List.append_nil, ← List.flatMap_def] at hparts
    rw [hencrypted, hparts]
  have hsamples := hlayout.protectedSamples_eq (fun sample hsample =>
    hsize _ (List.mem_map_of_mem hsample))
    (found.flatMap EncryptedSample.encrypted)
  have hmaps := hlayout.playerMaps_eq (fun map hmap => by
    obtain ⟨sample, hsample, rfl⟩ := List.mem_map.mp hmap
    refine ⟨_, (hsound sample hsample).describes, hsize _ ?_⟩
    rw [hlengths]
    exact List.mem_map_of_mem hsample)
    (found.flatMap EncryptedSample.encrypted)
  dsimp only at hsamples
  unfold decryptFragment
  rw [hsamples, ok_bind, hmaps, ok_bind, hcut, List.map_map,
    if_neg (not_not.mpr (by rw [List.length_map, List.length_map])), ← hclear]
  exact mapM_decrypts hsound

/-- The keys that a title starts with. -/
def startKeys : PeriodKeys where
  keys := .all ⟨List.replicate 16 1, List.replicate 16 2, List.replicate 16 3⟩
  systems := []
  systems_once := DrmSystem.none_twice

/-- The keys that its sound is rotated to. -/
def rotatedKeys : PeriodKeys where
  keys := .split
    ⟨List.replicate 16 4, List.replicate 16 5, List.replicate 16 6⟩
    { keyId := List.replicate 16 7
      key := List.replicate 16 8
      iv := encode 16 0x000102030405060708090a0b0c0d0e0f }
  systems := []
  systems_once := DrmSystem.none_twice

set_option maxRecDepth 4000 in
theorem finished_fragments_decrypt_rotated :
    ∃ fragment,
      (PendingEncryption.cbcs 2 .audio (soundTrack.samples.toVec 0 2) 40 3
        (trackProtection rotatedKeys startKeys true .audio)).finish
        soundContext (encode 16 0x6bc1bee22e409f96e93d7e117393172a ++ [3, 4]) =
          .ok fragment ∧
        decryptFragment
          (soundContext.decryptor
            (trackProtection rotatedKeys startKeys true .audio))
          (encode 16 0x000102030405060708090a0b0c0d0e0f) fragment =
            .ok [encode 16 0x6bc1bee22e409f96e93d7e117393172a ++ [3], [4]] := by
  obtain ⟨fragment, hfinish⟩ := @exists_ok_of_isOk Error (List UInt8)
    ((PendingEncryption.cbcs 2 .audio (soundTrack.samples.toVec 0 2) 40 3
      (trackProtection rotatedKeys startKeys true .audio)).finish soundContext
      (encode 16 0x6bc1bee22e409f96e93d7e117393172a ++ [3, 4])) (by decide)
  have hdecrypts := (@finished_fragments_decrypt soundContext soundTrack
    (soundTrack.samples.toVec 0 2) 40 3 rotatedKeys startKeys true _ fragment
    hfinish).2
  exact ⟨fragment, hfinish, hdecrypts⟩

end Segmentor
