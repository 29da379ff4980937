import Segmentor.ProtectedSegments

/-!
# Numbers in fragments

A fragment starts with a `moof` box, and the `mfhd` box in it has the number
the fragment was prepared with.  Encrypting its samples writes another `moof`
with the same number; a segment that is encrypted whole hides it.
-/

namespace Segmentor

open General

/-- The number in the `mfhd` that comes first in the `moof` a fragment starts
with. -/
def mfhdNumber (fragment : List UInt8) : Option ℕ :=
  if (fragment.drop 4).take 4 = code 'm' 'o' 'o' 'f' ∧
      (fragment.drop 12).take 4 = code 'm' 'f' 'h' 'd' then
    some (decode ((fragment.drop 20).take 4))
  else none

/-- What is sent of a segment whose payload is read. -/
def PendingSegment.finish (context : FinishContext) (pending : PendingSegment)
    (payload : List UInt8) : Result (List UInt8) :=
  match pending.encryption with
  | some encryption => encryption.finish context payload
  | none => .ok (pending.prepared.header ++ payload)

/-- What is sent has this number, or is a fragment encrypted whole that
does. -/
def SaysNumber (context : FinishContext) (number : ℕ) (sent : List UInt8) :
    Prop :=
  mfhdNumber sent = some number ∨
    ∃ key segmentIndex fragment, mfhdNumber fragment = some number ∧
      sent = Aes128.encryptSegment (context.aes key) segmentIndex fragment

/-- However a prepared segment is finished, what is sent has the number. -/
def PendingSegment.Numbered (number : ℕ) (pending : PendingSegment) : Prop :=
  ∀ context payload sent, pending.finish context payload = .ok sent →
    SaysNumber context number sent

section

variable {number : ℕ}

theorem mfhdNumber_moofOf {moofExtra moof rest : List UInt8}
    {trafs : List (List UInt8)} (hnumber : number < 2 ^ 32)
    (h : moofOf number moofExtra trafs = .ok moof) :
    mfhdNumber (moof ++ rest) = some number := by
  unfold moofOf at h
  obtain ⟨mfhd, hmfhd, h⟩ := bind_eq_ok_iff.mp h
  obtain ⟨-, rfl⟩ := writeBox_eq_ok_iff.mp hmfhd
  obtain ⟨-, rfl⟩ := writeBox_eq_ok_iff.mp h
  have hfields : (writeFullBoxFields 0 0).length = 4 := by
    simp [writeFullBoxFields]
  have hname : ∀ a b c d : Char, (code a b c d).length = 4 :=
    fun _ _ _ _ => rfl
  have hdecode := decode_encode_of_lt (show number < 256 ^ 4 by omega)
  unfold mfhdNumber boxBytes
  simp only [List.append_assoc]
  simp [List.drop_append, hfields, hname, List.drop_eq_nil_of_le, hdecode]

theorem mfhdNumber_buildMoof {trackId : ℕ} {kind : TrackKind}
    {samples : List Sample} {decodeTime : ℕ} {dataOffset : ℤ}
    {extra moofExtra moof rest : List UInt8} (hnumber : number < 2 ^ 32)
    (h : buildMoof trackId kind samples decodeTime number dataOffset extra
      moofExtra = .ok moof) : mfhdNumber (moof ++ rest) = some number := by
  obtain ⟨traf, -, h⟩ := bind_eq_ok_iff.mp h
  exact mfhdNumber_moofOf hnumber h

theorem mfhdNumber_prepareMediaSegment {track : Track}
    {segment : TrackSegment} {limits : LimitsConfig}
    {prepared : PreparedSegment} (hnumber : number < 2 ^ 32)
    (h : prepareMediaSegment track segment number limits = .ok prepared)
    (rest : List UInt8) :
    mfhdNumber (prepared.header ++ rest) = some number := by
  unfold prepareMediaSegment at h
  split at h
  · cases h
  dsimp only at h
  split at h
  · cases h
  obtain ⟨provisional, -, h⟩ := bind_eq_ok_iff.mp h
  obtain ⟨dataOffset, -, h⟩ := bind_eq_ok_iff.mp h
  obtain ⟨moof, hmoof, h⟩ := bind_eq_ok_iff.mp h
  obtain ⟨payload, -, h⟩ := bind_eq_ok_iff.mp h
  split at h
  · cases h
  obtain ⟨⟨header, contentLength⟩, hheader, h⟩ := bind_eq_ok_iff.mp h
  obtain ⟨ranges, -, h⟩ := bind_eq_ok_iff.mp h
  obtain rfl := Except.ok.inj h
  obtain ⟨mdat, -, hheader⟩ := bind_eq_ok_iff.mp hheader
  obtain ⟨length, -, hheader⟩ := bind_eq_ok_iff.mp hheader
  obtain ⟨rfl, -⟩ := Prod.mk.inj (Except.ok.inj hheader)
  rw [List.append_assoc]
  exact mfhdNumber_buildMoof hnumber hmoof

variable {context : FinishContext} {payload sent : List UInt8}

theorem says_finishCbcs {trackId : ℕ} {kind : TrackKind}
    {samples : List Sample} {decodeTime : ℕ} {protection : TrackProtection}
    (hnumber : number < 2 ^ 32)
    (h : PendingEncryption.finishCbcs context trackId kind samples decodeTime
      number protection payload = .ok sent) : SaysNumber context number sent := by
  unfold PendingEncryption.finishCbcs at h
  dsimp only at h
  split at h
  · cases h
  obtain ⟨⟨maps, encrypted⟩, -, h⟩ := bind_eq_ok_iff.mp h
  obtain ⟨header, hheader, h⟩ := bind_eq_ok_iff.mp h
  obtain rfl := Except.ok.inj h
  unfold encryptedFragmentHeader at hheader
  obtain ⟨⟨groups, moofExtra⟩, -, hheader⟩ := bind_eq_ok_iff.mp hheader
  obtain ⟨probeBoxes, -, hheader⟩ := bind_eq_ok_iff.mp hheader
  obtain ⟨probe, -, hheader⟩ := bind_eq_ok_iff.mp hheader
  dsimp only at hheader
  split at hheader
  · cases hheader
  obtain ⟨boxes, -, hheader⟩ := bind_eq_ok_iff.mp hheader
  obtain ⟨dataOffset, -, hheader⟩ := bind_eq_ok_iff.mp hheader
  obtain ⟨moof, hmoof, hheader⟩ := bind_eq_ok_iff.mp hheader
  obtain ⟨size, -, hheader⟩ := bind_eq_ok_iff.mp hheader
  obtain ⟨mdat, -, hheader⟩ := bind_eq_ok_iff.mp hheader
  obtain rfl := Except.ok.inj hheader
  refine .inl ?_
  rw [List.append_assoc]
  exact mfhdNumber_buildMoof hnumber hmoof

theorem says_clearFragment {trackId : ℕ} {kind : TrackKind}
    {samples : List Sample} {decodeTime : ℕ} {rotation : FragmentRotation}
    {header : List UInt8} (hnumber : number < 2 ^ 32)
    (h : clearFragmentHeader trackId kind samples decodeTime number rotation
      payload.length = .ok header) :
    SaysNumber context number (header ++ payload) := by
  obtain ⟨⟨extra, moofExtra⟩, -, h⟩ := bind_eq_ok_iff.mp h
  obtain ⟨probe, -, h⟩ := bind_eq_ok_iff.mp h
  obtain ⟨dataOffset, -, h⟩ := bind_eq_ok_iff.mp h
  obtain ⟨moof, hmoof, h⟩ := bind_eq_ok_iff.mp h
  obtain ⟨size, -, h⟩ := bind_eq_ok_iff.mp h
  obtain ⟨mdat, -, h⟩ := bind_eq_ok_iff.mp h
  obtain rfl := Except.ok.inj h
  refine .inl ?_
  rw [List.append_assoc]
  exact mfhdNumber_buildMoof hnumber hmoof

/-- What is still to be done to a segment whose samples are clear. -/
inductive Follows (asset : PackagedAsset) (track : Track)
    (part : TrackSegment) (number : ℕ) (header : List UInt8) :
    PendingEncryption → Prop
  | encrypted (protection : TrackProtection) :
      Follows asset track part number header
        (.cbcs track.id track.kind
          (track.samples.toVec part.firstSample part.endSample)
          part.decodeTime number protection)
  | clear (rotation : FragmentRotation) :
      Follows asset track part number header
        (.clear track.id track.kind
          (track.samples.toVec part.firstSample part.endSample)
          part.decodeTime number rotation)
  | whole (key : Aes128) :
      Follows asset track part number header
        (PackagedAsset.wholeSegment key header (number - 1))

theorem withEncryption_spec (asset : PackagedAsset) (track : Track)
    (part : TrackSegment) (number : ℕ) (prepared : PreparedSegment) :
    ∃ following : Option PendingEncryption,
      (∀ pending, following = some pending →
        Follows asset track part number prepared.header pending) ∧
      (asset.withEncryption track part number prepared).encryption =
        if track.id ∈ asset.decryption then
          some (.decrypt prepared.header
            (track.samples.start + part.firstSample)
            ((track.samples.toVec part.firstSample part.endSample).map
              Sample.size) following)
        else following := by
  refine ⟨_, ?_, rfl⟩
  intro pending hpending
  split at hpending
  · obtain rfl := Option.some.inj hpending
    exact .encrypted _
  · obtain rfl := Option.some.inj hpending
    exact .clear _
  · obtain ⟨key, -, rfl⟩ := Option.map_eq_some_iff.mp hpending
    exact .whole key

/-- A segment is sent with the number it was prepared with. -/
theorem PackagedAsset.prepareNumberedSegment_numbered {asset : PackagedAsset}
    {key : TrackKey} {segmentIndex : ℕ} {pending : PendingSegment}
    (hnumber : number < 2 ^ 32)
    (h : asset.prepareNumberedSegment key segmentIndex number =
      .ok pending) : pending.Numbered number := by
  obtain ⟨track, -, h⟩ := bind_eq_ok_iff.mp h
  obtain ⟨segment, -, h⟩ := bind_eq_ok_iff.mp h
  obtain ⟨part, -, h⟩ := bind_eq_ok_iff.mp h
  obtain ⟨prepared, hprepared, h⟩ := bind_eq_ok_iff.mp h
  obtain rfl := Except.ok.inj h
  have hheader := mfhdNumber_prepareMediaSegment hnumber hprepared
  intro context payload sent hsent
  have hfollowed : ∀ (pending : PendingEncryption) (clear sent : List UInt8),
      Follows asset track part number prepared.header pending →
      pending.finish context clear = .ok sent →
        SaysNumber context number sent := by
    intro pending clear sent hpending hfinish
    cases hpending with
    | encrypted protection => exact says_finishCbcs hnumber hfinish
    | clear rotation =>
        obtain ⟨header, hclear, hfinish⟩ := bind_eq_ok_iff.mp hfinish
        obtain rfl := Except.ok.inj hfinish
        exact says_clearFragment hnumber hclear
    | whole key =>
        obtain rfl := Except.ok.inj hfinish
        exact .inr ⟨_, _, _, hheader clear, rfl⟩
  obtain ⟨following, hfollows, hencryption⟩ :=
    withEncryption_spec asset track part number prepared
  unfold PendingSegment.finish at hsent
  rw [hencryption] at hsent
  by_cases hdecrypted : track.id ∈ asset.decryption
  · rw [if_pos hdecrypted] at hsent
    dsimp only at hsent
    rw [PendingEncryption.finish_decrypt] at hsent
    obtain ⟨clear, -, hsent⟩ := bind_eq_ok_iff.mp hsent
    cases following with
    | none =>
        obtain rfl := Except.ok.inj hsent
        exact .inl (hheader clear)
    | some pending => exact hfollowed pending clear sent (hfollows _ rfl) hsent
  · rw [if_neg hdecrypted] at hsent
    cases following with
    | none =>
        obtain rfl := Except.ok.inj hsent
        exact .inl (hheader payload)
    | some pending =>
        exact hfollowed pending payload sent (hfollows _ rfl) hsent

end

end Segmentor
