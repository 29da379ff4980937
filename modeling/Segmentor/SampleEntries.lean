import Segmentor.BoxRoundTrip
import Segmentor.FragmentReader
import Segmentor.TrackDetails

/-!
# Sample entries

What is read of a sample entry: the dimensions of a picture or the channels of
sound, and what a box inside it says of the codec.  A sound entry in the layout
of QuickTime files is rewritten in the standard one, for the same sound.
-/

namespace Segmentor

open General

namespace Codec

/-! ## Visual entries -/

/-- The fixed-size head of a visual sample entry, before its child boxes. -/
def VISUAL_ENTRY_HEAD : ℕ := 78

structure VisualEntry where
  width : ℕ
  height : ℕ
  children : List UInt8

def readVisualEntry : Reader VisualEntry := do
  Reader.skip 24
  let width ← Reader.u16
  let height ← Reader.u16
  Reader.skip (VISUAL_ENTRY_HEAD - 28)
  let children ← Reader.rest
  return ⟨width, height, children⟩

/-- The width, height and child boxes of a visual sample entry. -/
def visualEntry (entry : List UInt8) : Result VisualEntry :=
  readVisualEntry.run' entry

/-! ## Sound entries -/

/-- The fields of an audio sample entry that every audio codec shares. -/
structure AudioEntry where
  channels : ℕ
  /-- The integer part of the entry's 16.16 sample rate. -/
  sampleRate : ℕ
  children : List UInt8

/-- Version 1, which is QuickTime's, adds four fields. -/
def skipVersionFields (trackId version : ℕ) : Reader Unit :=
  if version = 0 then pure ()
  else if version = 1 then Reader.skip 16
  else
    Reader.fail (.unsupported ("track " ++ toString trackId ++
      ": sound sample description version " ++ toString version ++
      " is not supported"))

def readAudioEntry (trackId : ℕ) : Reader AudioEntry := do
  Reader.skip 8
  let version ← Reader.u16
  Reader.skip 6
  let channels ← Reader.u16
  Reader.skip 6
  let sampleRate ← Reader.u32
  skipVersionFields trackId version
  let children ← Reader.rest
  return ⟨channels, sampleRate / 2 ^ 16, children⟩

def audioEntry (entry : List UInt8) (trackId : ℕ) : Result AudioEntry :=
  (readAudioEntry trackId).run' entry

/-- The child boxes of a protected sample entry. -/
def protectedEntryChildren (name entry : List UInt8) (trackId : ℕ) :
    Result (List UInt8) :=
  if name = code 'e' 'n' 'c' 'v' then do
    let visual ← visualEntry entry
    .ok visual.children
  else do
    let audio ← audioEntry entry trackId
    .ok audio.children

/-! ## Video codecs -/

/-- The parameter sets of a list, each behind its length. -/
def readParameterSets : ℕ → Reader (List (List UInt8))
  | 0 => pure []
  | count + 1 => do
      let length ← Reader.u16
      let first ← Reader.take length
      let rest ← readParameterSets count
      return first :: rest

/-- The first of a counted list of parameter sets, of which there must be
one. -/
def firstParameterSet (countMask : ℕ) (name : String) :
    Reader (List UInt8) := do
  let count ← Reader.u8
  let sets ← readParameterSets (count &&& countMask)
  StateT.lift (okOr sets.head? (.unsupported ("H.264 without " ++ name)))

/-- Profile, compatibility and level; the first parameter sets are read and not
needed here. -/
def readAvcRecord : Reader (ℕ × ℕ × ℕ) := do
  Reader.skip 1
  let profile ← Reader.u8
  let compatibility ← Reader.u8
  let level ← Reader.u8
  Reader.skip 1
  let _ ← firstParameterSet 0x1f "SPS"
  let _ ← firstParameterSet 0xff "PPS"
  return (profile, compatibility, level)

def parseAvc (entry : List UInt8) : Result CodecConfig := do
  let visual ← visualEntry entry
  let config ← optionalChild visual.children (code 'a' 'v' 'c' 'C')
  let config ← okOr config (.unsupported "H.264 without avcC")
  let (profile, compatibility, level) ← readAvcRecord.run' config.payload
  .ok (.avc visual.width visual.height (UInt8.ofNat profile)
    (UInt8.ofNat compatibility) (UInt8.ofNat level))

def readHevcRecord (tag : HevcTag) : Reader HevcRecord := do
  Reader.skip 1
  let profile ← Reader.u8
  let compatibility ← Reader.u32
  let constraints ← Reader.take 6
  let level ← Reader.u8
  return {
    tag := tag
    profile := UInt8.ofNat profile
    compatibility := BitVec.ofNat 32 compatibility
    constraints := constraints
    level := UInt8.ofNat level }

def parseHevc (entry : List UInt8) (tag : HevcTag) : Result CodecConfig := do
  let visual ← visualEntry entry
  let config ← optionalChild visual.children (code 'h' 'v' 'c' 'C')
  let config ← okOr config (.unsupported "HEVC without hvcC")
  let record ← (readHevcRecord tag).run' config.payload
  .ok (.hevc visual.width visual.height record)

def readVp9Record : Reader (ℕ × ℕ × ℕ) := do
  let _ ← Reader.fullBox
  let profile ← Reader.u8
  let level ← Reader.u8
  let depthAndSampling ← Reader.u8
  return (profile, level, depthAndSampling)

def parseVp9 (entry : List UInt8) : Result CodecConfig := do
  let visual ← visualEntry entry
  let config ← optionalChild visual.children (code 'v' 'p' 'c' 'C')
  let config ← okOr config (.unsupported "VP9 without vpcC")
  let (profile, level, depthAndSampling) ← readVp9Record.run' config.payload
  .ok (.vp9 visual.width visual.height (UInt8.ofNat profile)
    (UInt8.ofNat level) (UInt8.ofNat depthAndSampling))

def readAv1Record : Reader (ℕ × ℕ) := do
  let marker ← Reader.u8
  -- The marker bit and version, which must be 1 and 0.
  if marker ≠ 0x81 then
    Reader.fail (.unsupported "AV1 configuration version is not 1")
  else
    let profileAndLevel ← Reader.u8
    let flags ← Reader.u8
    return (profileAndLevel, flags)

def parseAv1 (entry : List UInt8) : Result CodecConfig := do
  let visual ← visualEntry entry
  let config ← optionalChild visual.children (code 'a' 'v' '1' 'C')
  let config ← okOr config (.unsupported "AV1 without av1C")
  let (profileAndLevel, flags) ← readAv1Record.run' config.payload
  .ok (.av1 visual.width visual.height (UInt8.ofNat profileAndLevel)
    (UInt8.ofNat flags))

/-! ## Descriptors -/

def ES_DESCRIPTOR : ℕ := 0x03
def DECODER_CONFIG_DESCRIPTOR : ℕ := 0x04
def DECODER_SPECIFIC_INFO : ℕ := 0x05
/-- What `objectTypeIndication` says of MPEG-4 audio. -/
def MPEG4_AUDIO : ℕ := 0x40

/-- A length of up to as many bytes as there are rounds, 7 bits each, with the
high bit set on all but the last. -/
def descriptorLength : ℕ → ℕ → Reader ℕ
  | 0, length => pure length
  | rounds + 1, length => do
      let byte ← Reader.u8
      let length := length * 128 + byte % 128
      if byte < 128 then pure length else descriptorLength rounds length

/-- Descriptors up to one with the tag; each takes two bytes or more. -/
def descriptorFuel (wanted : ℕ) : ℕ → Reader (Option (List UInt8))
  | 0 => pure none
  | fuel + 1 => do
      let remaining ← Reader.remaining
      if remaining = 0 then pure none
      else
        let tag ← Reader.u8
        let length ← descriptorLength 4 0
        let body ← Reader.take length
        if tag = wanted then pure (some body)
        else descriptorFuel wanted fuel

/-- The body of the first descriptor with the tag. -/
def descriptor (wanted : ℕ) : Reader (Option (List UInt8)) := do
  let remaining ← Reader.remaining
  descriptorFuel wanted remaining

/-- A descriptor that must be there. -/
def requiredDescriptor (wanted : ℕ) (missing : String) :
    Reader (List UInt8) := do
  let body ← descriptor wanted
  StateT.lift (okOr body (invalidMedia missing))

/-- The decoder configuration behind an ES descriptor's optional fields. -/
def readEsDescriptor : Reader (List UInt8) := do
  Reader.skip 2
  let flags ← Reader.u8
  let _ ← Reader.optional (hasFlag flags 0x80) (Reader.skip 2)
  let _ ← Reader.optional (hasFlag flags 0x40) do
    let length ← Reader.u8
    Reader.skip length
  let _ ← Reader.optional (hasFlag flags 0x20) (Reader.skip 2)
  requiredDescriptor DECODER_CONFIG_DESCRIPTOR
    "esds has no decoder configuration"

/-- The decoder's own configuration, if the codec is MPEG-4 audio. -/
def readDecoderConfig (trackId : ℕ) : Reader (List UInt8) := do
  let indication ← Reader.u8
  if indication ≠ MPEG4_AUDIO then
    Reader.fail (.unsupported ("track " ++ toString trackId ++
      ": audio object type indication 0x" ++
      hexString [UInt8.ofNat indication] ++ " is not MPEG-4 AAC"))
  else
    -- Stream type, buffer size, maximum and average bitrate.
    Reader.skip 12
    requiredDescriptor DECODER_SPECIFIC_INFO
      "esds has no AudioSpecificConfig"

/-- The leading five bits of an `AudioSpecificConfig`, with the escape to a
six-bit extension. -/
def objectTypeOf : List UInt8 → Result ℕ
  | [] => .error (invalidMedia "AudioSpecificConfig is empty")
  | first :: rest =>
      if first.toNat / 8 ≠ 31 then .ok (first.toNat / 8)
      else
        match rest with
        | [] => .error (invalidMedia "AudioSpecificConfig is truncated")
        | second :: _ =>
            .ok (32 + (first.toNat % 8 * 8 + second.toNat / 32))

/-- The audio object type from the `AudioSpecificConfig` inside an `esds`. -/
def audioObjectType (esds : List UInt8) (trackId : ℕ) : Result ℕ := do
  let es ← StateT.run'
    (do
      let _ ← Reader.fullBox
      requiredDescriptor ES_DESCRIPTOR "esds has no ES descriptor" :
        Reader (List UInt8))
    esds
  let decoder ← readEsDescriptor.run' es
  let config ← (readDecoderConfig trackId).run' decoder
  objectTypeOf config

/-! ## Audio codecs -/

def aacWithoutEsds (trackId : ℕ) : Error :=
  .unsupported ("track " ++ toString trackId ++ ": AAC without esds")

/-- The `esds` box, directly under the sample entry or, in QuickTime files,
inside `wave`. -/
def findEsds (children : List UInt8) (trackId : ℕ) : Result RawBox := do
  let esds ← optionalChild children (code 'e' 's' 'd' 's')
  match esds with
  | some esds => .ok esds
  | none => do
      let wave ← optionalChild children (code 'w' 'a' 'v' 'e')
      let wave ← okOr wave (aacWithoutEsds trackId)
      let esds ← optionalChild wave.payload (code 'e' 's' 'd' 's')
      okOr esds (aacWithoutEsds trackId)

/-- LC, HE-AAC or HE-AACv2. -/
def parseAac (entry : List UInt8) (trackId : ℕ) : Result CodecConfig := do
  let audio ← audioEntry entry trackId
  let esds ← findEsds audio.children trackId
  let objectType ← audioObjectType esds.payload trackId
  if objectType = 2 ∨ objectType = 5 ∨ objectType = 29 then
    .ok (.aac audio.sampleRate audio.channels objectType)
  else
    .error (.unsupported ("track " ++ toString trackId ++
      ": AAC audio object type " ++ toString objectType ++
      " is not supported, only AAC-LC (2), HE-AAC (5), and HE-AACv2 (29) are"))

def requireChild (children name : List UInt8) (codec : String)
    (trackId : ℕ) : Result RawBox := do
  let child ← optionalChild children name
  okOr child (.unsupported ("track " ++ toString trackId ++ ": " ++ codec ++
    " without its `" ++ fourcc name ++ "` configuration box"))

/-- An entry of which only the shared fields are needed, and a box that must be
in it. -/
def parseDolby (name : List UInt8) (codec : String)
    (config : ℕ → ℕ → CodecConfig) (entry : List UInt8) (trackId : ℕ) :
    Result CodecConfig := do
  let audio ← audioEntry entry trackId
  let _ ← requireChild audio.children name codec trackId
  .ok (config audio.sampleRate audio.channels)

def parseAc3 : List UInt8 → ℕ → Result CodecConfig :=
  parseDolby (code 'd' 'a' 'c' '3') "AC-3" .ac3

def parseEac3 : List UInt8 → ℕ → Result CodecConfig :=
  parseDolby (code 'd' 'e' 'c' '3') "E-AC-3" .eac3

/-- The channel count of Opus is in `dOps`. -/
def parseOpus (entry : List UInt8) (trackId : ℕ) : Result CodecConfig := do
  let audio ← audioEntry entry trackId
  let config ←
    requireChild audio.children (code 'd' 'O' 'p' 's') "Opus" trackId
  let channels ← StateT.run'
    (do
      Reader.skip 1
      Reader.u8 : Reader ℕ)
    config.payload
  .ok (.opus channels)

/-- The rate and the channels, which `STREAMINFO` packs into three bytes. -/
def readStreamInfo : Reader (ℕ × ℕ) := do
  let _ ← Reader.fullBox
  let header ← Reader.u8
  if header % 128 ≠ 0 then
    Reader.fail (invalidMedia "dfLa does not start with STREAMINFO")
  else
    Reader.skip (3 + 10)
    let bytes ← Reader.take 3
    let packed := decode bytes
    return (packed / 16, packed / 2 % 8 + 1)

/-- Rates above 65535 Hz do not fit the entry's field. -/
def parseFlac (entry : List UInt8) (trackId : ℕ) : Result CodecConfig := do
  let audio ← audioEntry entry trackId
  let config ←
    requireChild audio.children (code 'd' 'f' 'L' 'a') "FLAC" trackId
  let (sampleRate, channels) ← readStreamInfo.run' config.payload
  if sampleRate = 0 then .error (invalidMedia "FLAC sample rate is zero")
  else .ok (.flac sampleRate channels)

/-- A sample entry of a codec that its track cannot have. -/
def misplaced (trackId : ℕ) (format handler : List UInt8) : Error :=
  .unsupported ("track " ++ toString trackId ++ ": sample description `" ++
    fourcc format ++ "` does not belong in a " ++ fourcc handler ++ " track")

/-- What a track's sample entry says of its codec, by the type it has or had
before protection. -/
def parseCodec (format : List UInt8) (kind : TrackKind) (entry : List UInt8)
    (trackId : ℕ) (handler : List UInt8) : Result CodecConfig :=
  match kind with
  | .video =>
      if format = code 'a' 'v' 'c' '1' then parseAvc entry
      else if format = code 'h' 'v' 'c' '1' then parseHevc entry .hvc1
      else if format = code 'h' 'e' 'v' '1' then parseHevc entry .hev1
      else if format = code 'v' 'p' '0' '9' then parseVp9 entry
      else if format = code 'a' 'v' '0' '1' then parseAv1 entry
      else .error (misplaced trackId format handler)
  | .audio =>
      if format = code 'm' 'p' '4' 'a' then parseAac entry trackId
      else if format = code 'a' 'c' '-' '3' then parseAc3 entry trackId
      else if format = code 'e' 'c' '-' '3' then parseEac3 entry trackId
      else if format = code 'O' 'p' 'u' 's' then parseOpus entry trackId
      else if format = code 'f' 'L' 'a' 'C' then parseFlac entry trackId
      else .error (misplaced trackId format handler)

/-! ## The standard layout -/

/-- The fields of a QuickTime-style entry that are kept, and its child boxes;
nothing where the entry is in the standard layout. -/
def readQuickTimeEntry : Reader (Option (List UInt8 × AudioEntry)) := do
  let head ← Reader.take 8
  let version ← Reader.u16
  if version = 0 then return none
  else
    Reader.skip 6
    let channels ← Reader.u16
    Reader.skip 6
    let sampleRate ← Reader.u32
    Reader.skip 16
    let children ← Reader.rest
    return some (head, ⟨channels, sampleRate, children⟩)

/-- An entry in the standard layout.  Here the rate is the whole field. -/
def isoEntry (head : List UInt8) (audio : AudioEntry)
    (esds : List UInt8) : List UInt8 :=
  head ++ (List.replicate 8 0 ++ (encode 2 audio.channels ++
    -- Sixteen bits per sample, no compression, no packet size.
    (encode 2 16 ++ List.replicate 4 0 ++ (encode 4 audio.sampleRate ++
      boxBytes (code 'e' 's' 'd' 's') esds))))

/-- A QuickTime-style `mp4a` entry in the standard layout, with the `esds`
alone; nothing where it already is in that layout. -/
def isoAudioEntry (entry : List UInt8) (trackId : ℕ) :
    Result (Option (List UInt8)) := do
  let found ← readQuickTimeEntry.run' entry
  match found with
  | none => .ok none
  | some (head, audio) => do
      let esds ← findEsds audio.children trackId
      if 2 ^ 32 ≤ esds.payload.length + 8 then
        .error (invalidMedia "esds box is too large")
      else .ok (some (isoEntry head audio esds.payload))

theorem readQuickTimeEntry_eq_ok {entry head rest : List UInt8}
    {audio : AudioEntry}
    (h : readQuickTimeEntry.run entry = .ok (some (head, audio), rest)) :
    ∃ version before middle after, version < 2 ^ 16 ∧ version ≠ 0 ∧
      audio.channels < 2 ^ 16 ∧ audio.sampleRate < 2 ^ 32 ∧
      head.length = 8 ∧ before.length = 6 ∧ middle.length = 6 ∧
      after.length = 16 ∧
      entry = head ++ (encode 2 version ++ (before ++
        (encode 2 audio.channels ++ (middle ++ (encode 4 audio.sampleRate ++
          (after ++ audio.children)))))) := by
  unfold readQuickTimeEntry at h
  obtain ⟨_, afterHead, hhead, h⟩ := Reader.run_bind_eq_ok h
  obtain ⟨version, afterVersion, hversion, h⟩ := Reader.run_bind_eq_ok h
  split at h
  · cases h
  rename_i hnonzero
  obtain ⟨_, afterBefore, hbefore, h⟩ := Reader.run_bind_eq_ok h
  obtain ⟨channels, afterChannels, hchannels, h⟩ := Reader.run_bind_eq_ok h
  obtain ⟨_, afterMiddle, hmiddle, h⟩ := Reader.run_bind_eq_ok h
  obtain ⟨rate, afterRate, hrate, h⟩ := Reader.run_bind_eq_ok h
  obtain ⟨_, afterFields, hafter, h⟩ := Reader.run_bind_eq_ok h
  obtain ⟨children, afterRest, hrest, h⟩ := Reader.run_bind_eq_ok h
  obtain ⟨rfl, rfl⟩ := Prod.mk.inj (Except.ok.inj hrest)
  obtain ⟨hfound, rfl⟩ := Prod.mk.inj (Except.ok.inj h)
  obtain ⟨rfl, rfl⟩ := Prod.mk.inj (Option.some.inj hfound)
  obtain ⟨hheadLength, rfl⟩ := Reader.take_eq_ok_iff.mp hhead
  obtain ⟨hversionLt, rfl⟩ := Reader.u16_eq_ok_iff.mp hversion
  obtain ⟨before, hbeforeLength, rfl⟩ := Reader.skip_eq_ok_iff.mp hbefore
  obtain ⟨hchannelsLt, rfl⟩ := Reader.u16_eq_ok_iff.mp hchannels
  obtain ⟨middle, hmiddleLength, rfl⟩ := Reader.skip_eq_ok_iff.mp hmiddle
  obtain ⟨hrateLt, rfl⟩ := Reader.u32_eq_ok_iff.mp hrate
  obtain ⟨after, hafterLength, rfl⟩ := Reader.skip_eq_ok_iff.mp hafter
  exact ⟨version, before, middle, after, hversionLt, hnonzero, hchannelsLt,
    hrateLt, hheadLength, hbeforeLength, hmiddleLength, hafterLength, rfl⟩

theorem audioEntry_standard {head before middle children : List UInt8}
    {channels rate : ℕ} (hhead : head.length = 8)
    (hbefore : before.length = 6) (hmiddle : middle.length = 6)
    (hchannels : channels < 2 ^ 16) (hrate : rate < 2 ^ 32) (trackId : ℕ) :
    audioEntry (head ++ (encode 2 0 ++ (before ++ (encode 2 channels ++
      (middle ++ (encode 4 rate ++ children)))))) trackId =
        .ok ⟨channels, rate / 2 ^ 16, children⟩ := by
  unfold audioEntry
  rw [Reader.run'_eq_ok_iff]
  unfold readAudioEntry
  simp only [Reader.run_bind_eq_ok_iff, Reader.skip_eq_ok_iff,
    Reader.u16_eq_ok_iff, Reader.u32_eq_ok_iff, Reader.run_pure_eq_ok_iff]
  exact ⟨children, (), _, ⟨head, hhead, rfl⟩, 0, _, ⟨by decide, rfl⟩, (), _,
    ⟨before, hbefore, rfl⟩, channels, _, ⟨hchannels, rfl⟩, (), _,
    ⟨middle, hmiddle, rfl⟩, rate, _, ⟨hrate, rfl⟩, (), children, rfl, children,
    children, rfl, rfl, rfl⟩

/-- Only version 1 of the QuickTime layout is read. -/
theorem audioEntry_quickTime {head before middle after children : List UInt8}
    {version channels rate trackId : ℕ} {audio : AudioEntry}
    (hhead : head.length = 8) (hbefore : before.length = 6)
    (hmiddle : middle.length = 6) (hafter : after.length = 16)
    (hversion : version < 2 ^ 16) (hnonzero : version ≠ 0)
    (hchannels : channels < 2 ^ 16) (hrate : rate < 2 ^ 32)
    (h : audioEntry (head ++ (encode 2 version ++ (before ++
      (encode 2 channels ++ (middle ++ (encode 4 rate ++
        (after ++ children))))))) trackId = .ok audio) :
    audio = ⟨channels, rate / 2 ^ 16, children⟩ := by
  unfold audioEntry readAudioEntry at h
  rw [StateT.run'_eq, StateT.run_bind,
    Reader.skip_append hhead, ok_bind] at h
  dsimp only at h
  rw [StateT.run_bind, Reader.u16_append hversion, ok_bind] at h
  dsimp only at h
  rw [StateT.run_bind, Reader.skip_append hbefore,
    ok_bind] at h
  dsimp only at h
  rw [StateT.run_bind, Reader.u16_append hchannels, ok_bind] at h
  dsimp only at h
  rw [StateT.run_bind, Reader.skip_append hmiddle,
    ok_bind] at h
  dsimp only at h
  rw [StateT.run_bind, Reader.u32_append hrate, ok_bind] at h
  dsimp only at h
  unfold skipVersionFields at h
  rw [if_neg hnonzero] at h
  split at h
  · rw [StateT.run_bind, Reader.skip_append hafter, ok_bind] at h
    exact (Except.ok.inj h).symm
  · cases h

/-- A rewritten entry, and what of the QuickTime-style one is in it. -/
theorem isoAudioEntry_eq_ok_some {entry iso : List UInt8} {trackId : ℕ}
    (h : isoAudioEntry entry trackId = .ok (some iso)) :
    ∃ (quickTime : AudioEntry) (esds : RawBox),
      (∀ audio, audioEntry entry trackId = .ok audio →
        audio = ⟨quickTime.channels, quickTime.sampleRate / 2 ^ 16,
          quickTime.children⟩) ∧
      findEsds quickTime.children trackId = .ok esds ∧
        esds.payload.length + 8 < 2 ^ 32 ∧
          audioEntry iso trackId = .ok ⟨quickTime.channels,
            quickTime.sampleRate / 2 ^ 16,
            boxBytes (code 'e' 's' 'd' 's') esds.payload⟩ := by
  unfold isoAudioEntry at h
  obtain ⟨found, hfound, h⟩ := bind_eq_ok_iff.mp h
  cases found with
  | none => cases h
  | some found =>
      obtain ⟨head, quickTime⟩ := found
      dsimp only at h
      obtain ⟨esds, hesds, h⟩ := bind_eq_ok_iff.mp h
      split at h
      · cases h
      rename_i hsize
      obtain rfl := Option.some.inj (Except.ok.inj h)
      obtain ⟨rest, hread⟩ := Reader.run'_eq_ok_iff.mp hfound
      obtain ⟨version, before, middle, after, hversion, hnonzero, hchannels,
        hrate, hhead, hbefore, hmiddle, hafter, rfl⟩ :=
          readQuickTimeEntry_eq_ok hread
      refine ⟨quickTime, esds, fun audio haudio => ?_, hesds, by omega, ?_⟩
      · exact audioEntry_quickTime hhead hbefore hmiddle hafter hversion
          hnonzero hchannels hrate haudio
      · exact @audioEntry_standard head (List.replicate 6 0)
          (encode 2 16 ++ List.replicate 4 0) _ _ _ hhead rfl (by simp)
          hchannels hrate trackId

/-- The rewritten entry is of the same sound. -/
theorem parseAac_isoAudioEntry {entry iso : List UInt8} {trackId : ℕ}
    {config : CodecConfig} (h : isoAudioEntry entry trackId = .ok (some iso))
    (hparse : parseAac entry trackId = .ok config) :
    parseAac iso trackId = .ok config := by
  obtain ⟨quickTime, esds, hread, hesds, hsize, hiso⟩ :=
    isoAudioEntry_eq_ok_some h
  unfold parseAac at hparse ⊢
  obtain ⟨audio, haudio, hparse⟩ := bind_eq_ok_iff.mp hparse
  obtain rfl := hread audio haudio
  dsimp only at hparse
  rw [hesds, ok_bind] at hparse
  have hinside : findEsds
      (boxBytes (code 'e' 's' 'd' 's') esds.payload) trackId =
        .ok (BoxSpec.raw (code 'e' 's' 'd' 's', esds.payload)) := by
    have hchild := @optionalChild_boxesBytes
      [(code 'e' 's' 'd' 's', esds.payload)]
      (List.forall_mem_singleton.mpr ⟨rfl, hsize⟩) (code 'e' 's' 'd' 's')
    rw [boxesBytes_cons, boxesBytes_nil, List.append_nil] at hchild
    unfold findEsds
    rw [hchild]
    rfl
  rw [hiso, ok_bind]
  dsimp only
  rw [hinside, ok_bind]
  exact hparse

end Codec

end Segmentor
