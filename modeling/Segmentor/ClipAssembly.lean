import Segmentor.AdaptiveSequence
import Segmentor.ClipTimeline
import Segmentor.InitWriter
import Segmentor.MapperTexts

/-!
# A clip as an asset of its own

A trimmed clip is assembled like a whole file: its audio is named as the mapper
says, its segments are planned, and its init segments and master playlist are
written.  Each of these can refuse it.
-/

namespace Segmentor.Clip

open General

/-- What is read of a clip's file besides its index. -/
structure ClipMetadata where
  moov : List UInt8
  details : ℕ → TrackDetails
  /-- The tracks whose source is protected. -/
  protectedTracks : List ℕ

/-- The details of the tracks of a trimmed index: their durations are those of
the samples kept. -/
def ClipMetadata.trimmedDetails (metadata : ClipMetadata) (index : MediaIndex)
    (trackId : ℕ) : TrackDetails :=
  match index.tracks.find? fun track => track.id == trackId with
  | some track =>
      { metadata.details trackId with
        duration := track.endTime - track.samples.decodeTime 0 }
  | none => metadata.details trackId

/-- Gives the one audio track its language and label. -/
def applyAudioOverrides (tracks : List Track) (details : ℕ → TrackDetails)
    (overrides : Mapper.AudioOverrides) : Result (ℕ → TrackDetails) :=
  match tracks.filter fun track => track.kind == .audio with
  | [track] =>
      let named := details track.id
      .ok (Function.update details track.id
        { named with
          language := (overrides.language.map String.toList).getD named.language
          label := overrides.label.map String.toList })
  | audio =>
      .error (.invalidMedia ("language, label, and default name exactly one " ++
        s!"audio track, and the tracks served have {audio.length}"))

/-- A clip is given no keys to decrypt its source with. -/
def clipDecryption (protectedTracks : List ℕ) (tracks : List Track) :
    Result (List ℕ) :=
  match tracks.find? fun track => protectedTracks.contains track.id with
  | some track =>
      .error (.unsupported
        s!"track {track.id}: encrypted media is not supported")
  | none => .ok []

/-- The plan, with what it is the plan of. -/
def planned (index : MediaIndex) (segmentDurationMs : ℕ)
    (limits : LimitsConfig) :
    Result {p : SegmentPlan // plan index segmentDurationMs limits = .ok p} :=
  match plan index segmentDurationMs limits with
  | .error error => .error error
  | .ok p => .ok ⟨p, rfl⟩

/-- Plans, writes init segments and renders the master playlist of a trimmed
index.  A clip of an adaptive sequence has no subtitles, is not encrypted and
is never muxed. -/
def assemble (metadata : ClipMetadata) (index : TimedIndex)
    (segmentDurationMs : ℕ) (limits : LimitsConfig) (version : String)
    (audio : Option Mapper.AudioOverrides) :
    Result {file : RenditionFile // file.asset.index = index.toMediaIndex} := do
  let audio := audio.filter fun overrides => !overrides.isEmpty
  let trimmed := metadata.trimmedDetails index.toMediaIndex
  let details ← audio.elim (.ok trimmed)
    (applyAudioOverrides index.tracks trimmed)
  let decryption ← clipDecryption metadata.protectedTracks index.tracks
  let p ← planned index.toMediaIndex segmentDurationMs limits
  let _ ← index.tracks.mapM fun track =>
    InitSegment.writeInitSegment metadata.moov track.id
  let file : RenditionFile :=
    { asset :=
        { index := index.toMediaIndex
          plan := p.1
          limits := limits
          version := version
          protection := none
          aes128 := none
          decryption := decryption
          muxed := none
          planned := ⟨segmentDurationMs, p.2⟩
          protection_built := by simp }
      details := details
      audioDefault := audio.any Mapper.AudioOverrides.default }
  let _ ← Hls.masterPlaylist file.presentation
  .ok ⟨file, rfl⟩

end Segmentor.Clip
