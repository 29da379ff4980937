import Segmentor.KeyLines
import Segmentor.Presentation

/-!
# Playlists and manifests

The HLS media playlist and the DASH segment template of a track, as the list
of what they say in order, and the segment numbers they list.
-/

namespace Segmentor

open General

/-! ## HLS -/

/-- What the lines of a media playlist say. -/
inductive PlaylistLine
  /-- The opening lines: version 7, media sequence 0, on demand, independent
  segments. -/
  | opening (targetDuration : ℕ)
  | discontinuity
  | key (line : KeyLine)
  /-- The initialization section: the file's own, or a clip's. -/
  | map (clip : Option ℕ)
  /-- An `#EXTINF` and the URI of the segment with this number. -/
  | segment (milliseconds number : ℕ)
  | endList
  deriving DecidableEq, Repr

def hlsKeyNone : PlaylistLine :=
  .key .clear

/-- The key lines of a period for a track, or the one that ends any. -/
def periodLines (kind : TrackKind) : Option PeriodKeys → List PlaylistLine
  | some keys => (hlsKeyLines keys (keys.keyFor kind)).map .key
  | none => [hlsKeyNone]

/-- What to write when moving from `previous` clip's encryption to the next
one's. -/
def keyTransitionLines (previous current : Option PeriodKeys)
    (kind : TrackKind) : List PlaylistLine :=
  match current with
  | some keys => (hlsKeyLines keys (keys.keyFor kind)).map .key
  | none => if previous.isSome then [hlsKeyNone] else []

/-- The key lines a playlist opens with; keys that change start with their
first period's. -/
def keyLines (presentation : Presentation) (track : Track) :
    List PlaylistLine :=
  keyTransitionLines none
    ((presentation.keySchedule.head?.map ScheduledPeriod.keys).getD
      (presentation.encryption.map Encryption.toPeriodKeys)) track.kind

/-- The longest segment of `track`, in whole seconds rounded up. -/
def targetDuration (presentation : Presentation) (track : Track) : ℕ :=
  (((presentation.trackSegments track.id).map fun segment =>
    (segment.duration + track.timescale - 1) / track.timescale).max?).getD 1

def writeAes128Key (presentation : Presentation) : List PlaylistLine :=
  presentation.aes128.toList.map fun aes128 => .key (.aes128 aes128.uri)

def segmentMilliseconds (track : Track) (segment : TrackSegment) : Result ℕ :=
  okOr ((checkedMul (2 ^ 64) segment.duration 1000).bind fun duration =>
      checkedDiv duration track.timescale)
    (.invalidMedia "segment duration overflow")

/-- The key lines due before segment `number`, and the periods after it. -/
def dueLines (kind : TrackKind) (number : ℕ) (periods : List ScheduledPeriod) :
    List PlaylistLine × List ScheduledPeriod :=
  match periods with
  | [] => ([], [])
  | period :: later =>
      if period.firstSegment ≤ number then
        (periodLines kind period.keys, later)
      else ([], periods)

/-- One `#EXTINF` and URI for each segment, from the one at `offset` on,
numbered from `firstNumber`. -/
def segmentEntries (track : Track) (firstNumber : ℕ) :
    ℕ → List ScheduledPeriod → List TrackSegment →
      Result (List PlaylistLine)
  | _, _, [] => .ok []
  | offset, periods, segment :: rest => do
      let milliseconds ← segmentMilliseconds track segment
      let number ← okOr (checkedAdd (2 ^ 64) offset firstNumber)
        (.invalidMedia "segment number overflow")
      let (due, later) := dueLines track.kind number periods
      let entries ← segmentEntries track firstNumber (offset + 1) later rest
      .ok (due ++ .segment milliseconds number :: entries)

def writeSegmentEntries (presentation : Presentation) (track : Track)
    (firstNumber : ℕ) : Result (List PlaylistLine) :=
  segmentEntries track firstNumber 0 (presentation.keySchedule.drop 1)
    (presentation.trackSegments track.id)

def mediaPlaylist (presentation : Presentation) (key : TrackKey) :
    Result (List PlaylistLine) := do
  let track ← presentation.track key
  let entries ← writeSegmentEntries presentation track 0
  .ok ([.opening (targetDuration presentation track)] ++
    keyLines presentation track ++ [.map none] ++
    writeAes128Key presentation ++ entries ++ [.endList])

/-- One clip of a sequence, as the renderers see it. -/
structure SequenceClip where
  presentation : Presentation
  firstSegment : ℕ

/-- The lines of the clips from `position` on, after a clip encrypted with
`previous`. -/
def clipLines (key : TrackKey) :
    ℕ → Option Encryption → List SequenceClip → Result (List PlaylistLine)
  | _, _, [] => .ok []
  | position, previous, clip :: rest => do
      let track ← clip.presentation.track key
      let encryption := clip.presentation.encryption
      let entries ←
        writeSegmentEntries clip.presentation track clip.firstSegment
      let others ← clipLines key (position + 1) encryption rest
      .ok ((if 0 < position then [.discontinuity] else []) ++
        (if encryption ≠ previous then
          keyTransitionLines (previous.map Encryption.toPeriodKeys)
            (encryption.map Encryption.toPeriodKeys) track.kind
        else []) ++
        (if 0 < position ∧ clip.presentation.aes128.isSome then [hlsKeyNone]
        else []) ++
        [.map (some position)] ++ writeAes128Key clip.presentation ++
        entries ++ others)

/-- One track's playlist across every clip of a sequence. -/
def sequenceMediaPlaylist (clips : List SequenceClip) (key : TrackKey) :
    Result (List PlaylistLine) := do
  let target ← clips.foldlM
    (fun target clip => do
      let track ← clip.presentation.track key
      .ok (max target (targetDuration clip.presentation track))) 1
  let lines ← clipLines key 0 none clips
  .ok (.opening target :: lines ++ [.endList])

/-! ## DASH -/

/-- How a representation's segments are addressed. -/
structure Addressing where
  startNumber : ℕ
  clip : Option ℕ
  presentationTimeOffset : Option ℕ
  deriving DecidableEq, Repr

/-- A single file: one period, numbered from zero. -/
def Addressing.plain : Addressing where
  startNumber := 0
  clip := none
  presentationTimeOffset := none

/-- An `S` element: only the first states its start. -/
structure TimelineEntry where
  start : Option ℕ
  duration : ℕ
  deriving DecidableEq, Repr

structure SegmentTemplate where
  timescale : ℕ
  addressing : Addressing
  timeline : List TimelineEntry
  deriving DecidableEq, Repr

def writeSegmentTemplate (presentation : Presentation) (track : Track)
    (addressing : Addressing) : SegmentTemplate where
  timescale := track.timescale
  addressing := addressing
  timeline := (presentation.trackSegments track.id).zipIdx.map
    fun (segment, index) =>
      { start := if index = 0 then some segment.decodeTime else none
        duration := segment.duration }

/-! ## The segments listed -/

/-- The duration in milliseconds and the number of a segment listed. -/
def PlaylistLine.entry : PlaylistLine → Option (ℕ × ℕ)
  | .segment milliseconds number => some (milliseconds, number)
  | _ => none

def PlaylistLine.number : PlaylistLine → Option ℕ
  | .segment _ number => some number
  | _ => none

/-- The segments a playlist lists, in order. -/
def listedEntries (lines : List PlaylistLine) : List (ℕ × ℕ) :=
  lines.filterMap PlaylistLine.entry

/-- The numbers in the segment URIs of a playlist, in order. -/
def listedNumbers (lines : List PlaylistLine) : List ℕ :=
  lines.filterMap PlaylistLine.number

/-- The numbers a player asks for: `$Number$` counts the timeline. -/
def SegmentTemplate.numbers (template : SegmentTemplate) : List ℕ :=
  List.range' template.addressing.startNumber template.timeline.length

theorem listedNumbers_eq_map (lines : List PlaylistLine) :
    listedNumbers lines = (listedEntries lines).map Prod.snd := by
  unfold listedNumbers listedEntries
  rw [List.map_filterMap]
  congr 1
  funext line
  cases line <;> rfl

@[simp] theorem listedEntries_append (lines others : List PlaylistLine) :
    listedEntries (lines ++ others) =
      listedEntries lines ++ listedEntries others :=
  List.filterMap_append ..

@[simp] theorem listedEntries_nil : listedEntries [] = [] := rfl

theorem listedEntries_map_key (lines : List KeyLine) :
    listedEntries (lines.map PlaylistLine.key) = [] := by
  unfold listedEntries
  rw [List.filterMap_map, List.filterMap_eq_nil_iff]
  intro line _
  rfl

@[simp] theorem listedEntries_periodLines (kind : TrackKind)
    (keys : Option PeriodKeys) :
    listedEntries (periodLines kind keys) = [] := by
  cases keys with
  | none => rfl
  | some keys => exact listedEntries_map_key _

@[simp] theorem listedEntries_keyTransitionLines
    (previous current : Option PeriodKeys) (kind : TrackKind) :
    listedEntries (keyTransitionLines previous current kind) = [] := by
  cases current with
  | none => cases previous <;> rfl
  | some keys => exact listedEntries_map_key _

@[simp] theorem listedEntries_writeAes128Key (presentation : Presentation) :
    listedEntries (writeAes128Key presentation) = [] := by
  unfold writeAes128Key
  cases presentation.aes128 <;> rfl

theorem listedEntries_dueLines (kind : TrackKind) (number : ℕ)
    (periods : List ScheduledPeriod) :
    listedEntries (dueLines kind number periods).1 = [] := by
  unfold dueLines
  split
  · rfl
  · split
    · exact listedEntries_periodLines ..
    · rfl

@[simp] theorem listedNumbers_append (lines others : List PlaylistLine) :
    listedNumbers (lines ++ others) =
      listedNumbers lines ++ listedNumbers others :=
  List.filterMap_append ..

@[simp] theorem listedNumbers_nil : listedNumbers [] = [] := rfl

@[simp] theorem listedNumbers_keyTransitionLines
    (previous current : Option PeriodKeys) (kind : TrackKind) :
    listedNumbers (keyTransitionLines previous current kind) = [] := by
  rw [listedNumbers_eq_map, listedEntries_keyTransitionLines, List.map_nil]

@[simp] theorem listedNumbers_writeAes128Key (presentation : Presentation) :
    listedNumbers (writeAes128Key presentation) = [] := by
  rw [listedNumbers_eq_map, listedEntries_writeAes128Key, List.map_nil]

theorem segmentMilliseconds_eq_ok_iff {track : Track} {segment : TrackSegment}
    {milliseconds : ℕ} :
    segmentMilliseconds track segment = .ok milliseconds ↔
      segment.duration * 1000 < 2 ^ 64 ∧
        milliseconds = segment.duration * 1000 / track.timescale := by
  unfold segmentMilliseconds
  rw [okOr_eq_ok_iff, Option.bind_eq_some_iff]
  constructor
  · rintro ⟨product, hmul, hdiv⟩
    obtain ⟨hlt, rfl⟩ := checkedMul_eq_some_iff.mp hmul
    obtain ⟨-, hdiv⟩ := checkedDiv_eq_some_iff.mp hdiv
    exact ⟨hlt, hdiv.symm⟩
  · rintro ⟨hlt, rfl⟩
    exact ⟨_, checkedMul_eq_some_iff.mpr ⟨hlt, rfl⟩,
      checkedDiv_eq_some_iff.mpr ⟨track.timescale_pos.ne', rfl⟩⟩

/-- The entries list each segment with its duration, cut down to a
millisecond, and count on from the first. -/
theorem listedEntries_segmentEntries {track : Track}
    {firstNumber offset : ℕ} {periods : List ScheduledPeriod}
    {segments : List TrackSegment} {lines : List PlaylistLine}
    (h : segmentEntries track firstNumber offset periods segments =
      .ok lines) :
    listedEntries lines =
      (segments.zipIdx (firstNumber + offset)).map fun (segment, number) =>
        (segment.duration * 1000 / track.timescale, number) := by
  induction segments generalizing offset periods lines with
  | nil =>
      obtain rfl := Except.ok.inj h
      rfl
  | cons segment segments ih =>
      unfold segmentEntries at h
      obtain ⟨milliseconds, hmilliseconds, h⟩ := bind_eq_ok_iff.mp h
      obtain ⟨-, rfl⟩ := segmentMilliseconds_eq_ok_iff.mp hmilliseconds
      obtain ⟨number, hnumber, h⟩ := bind_eq_ok_iff.mp h
      obtain ⟨-, rfl⟩ := checkedAdd_eq_some_iff.mp (okOr_eq_ok_iff.mp hnumber)
      dsimp only at h
      obtain ⟨entries, hentries, h⟩ := bind_eq_ok_iff.mp h
      obtain rfl := Except.ok.inj h
      rw [listedEntries_append, listedEntries_dueLines, List.nil_append]
      change (segment.duration * 1000 / track.timescale,
        offset + firstNumber) :: listedEntries entries = _
      rw [ih hentries, List.zipIdx_cons, List.map_cons,
        Nat.add_comm offset firstNumber, Nat.add_assoc]

theorem listedNumbers_segmentEntries {track : Track} {firstNumber offset : ℕ}
    {periods : List ScheduledPeriod} {segments : List TrackSegment}
    {lines : List PlaylistLine}
    (h : segmentEntries track firstNumber offset periods segments =
      .ok lines) :
    listedNumbers lines =
      List.range' (firstNumber + offset) segments.length := by
  rw [listedNumbers_eq_map, listedEntries_segmentEntries h, List.map_map]
  exact List.zipIdx_map_snd _ _

theorem mediaPlaylist_eq_ok_iff {presentation : Presentation}
    {key : TrackKey} {track : Track} {lines : List PlaylistLine}
    (htrack : presentation.track key = .ok track) :
    mediaPlaylist presentation key = .ok lines ↔
      ∃ entries, writeSegmentEntries presentation track 0 = .ok entries ∧
        lines = [.opening (targetDuration presentation track)] ++
          keyLines presentation track ++ [.map none] ++
          writeAes128Key presentation ++ entries ++ [.endList] := by
  unfold mediaPlaylist
  rw [htrack, ok_bind, bind_eq_ok_iff]
  simp only [Except.ok.injEq, eq_comm]

theorem listedEntries_mediaPlaylist {presentation : Presentation}
    {key : TrackKey} {track : Track} {lines : List PlaylistLine}
    (htrack : presentation.track key = .ok track)
    (h : mediaPlaylist presentation key = .ok lines) :
    listedEntries lines =
      (presentation.trackSegments track.id).zipIdx.map
        fun (segment, number) =>
          (segment.duration * 1000 / track.timescale, number) := by
  obtain ⟨entries, hentries, rfl⟩ := (mediaPlaylist_eq_ok_iff htrack).mp h
  have hlisted := listedEntries_segmentEntries hentries
  simp only [listedEntries_append, keyLines, listedEntries_keyTransitionLines,
    listedEntries_writeAes128Key, hlisted, List.append_nil]
  exact List.append_nil _

/-- The media playlist of a track lists as many segments as the track has,
numbered from zero. -/
theorem listedNumbers_mediaPlaylist {presentation : Presentation}
    {key : TrackKey} {track : Track} {lines : List PlaylistLine}
    (htrack : presentation.track key = .ok track)
    (h : mediaPlaylist presentation key = .ok lines) :
    listedNumbers lines =
      List.range (presentation.trackSegments track.id).length := by
  rw [listedNumbers_eq_map, listedEntries_mediaPlaylist htrack h,
    List.map_map, List.range_eq_range']
  exact List.zipIdx_map_snd _ _

/-- The segment template of a single file lists the same numbers. -/
theorem numbers_writeSegmentTemplate (presentation : Presentation)
    (track : Track) :
    (writeSegmentTemplate presentation track .plain).numbers =
      List.range (presentation.trackSegments track.id).length := by
  unfold SegmentTemplate.numbers writeSegmentTemplate
  rw [List.length_map, List.length_zipIdx, List.range_eq_range']
  rfl

end Segmentor
