import Segmentor.ClipAssembly
import Mathlib.Algebra.Order.AbsoluteValue.Basic

/-!
# Audio that follows the video of another file

In an adaptive sequence an audio-only rendition has no keyframes to snap to.
Each of its clips is cut to the span of decode times the reference video's
clip kept, handed over in milliseconds, and moved by the same lead.
-/

namespace Segmentor.Clip

open General

/-! ## Cutting a row -/

/-- What one rendition is made from: its clips, as many as every other's. -/
structure RenditionPlan (files : List TimedIndex) (count : ℕ) where
  id : String
  clips : List (ClipPlan files)
  /-- What the mapper names its audio. -/
  audio : Option Mapper.AudioOverrides
  clips_len : clips.length = count

section Rows

variable {files : List TimedIndex} {count : ℕ}

def RenditionPlan.clip (rendition : RenditionPlan files count)
    (position : Fin count) : ClipPlan files :=
  rendition.clips.get (position.cast rendition.clips_len.symm)

def renditionError (id : String) (position : ℕ) (error : Error) : Error :=
  .invalidMedia s!"rendition `{id}`: clip {position}: {error.text}"

def hasVideoTrack (index : MediaIndex) : Bool :=
  index.tracks.any fun track => track.kind == .video

/-- Whether the rendition's clips from `position` on have video, as `first`
says those before do. -/
def videoKind (id : String) :
    Option Bool → ℕ → List (ClipPlan files) → Result Bool
  | first, _, [] => .ok (first.getD false)
  | first, position, clip :: rest => do
      let narrowed ← (narrow (files.get clip.file) clip.tracks).mapError
        (renditionError id position)
      let video := hasVideoTrack narrowed.toMediaIndex
      match first with
      | none => videoKind id (some video) (position + 1) rest
      | some expected =>
          if expected != video then
            let change :=
              if expected then "has video in clip 0 but not"
              else "has no video in clip 0 but has it"
            .error (.invalidMedia
              s!"rendition `{id}` {change} in clip {position}")
          else videoKind id (some expected) (position + 1) rest

/-- Whether each rendition has video, the same in every clip. -/
def videoKinds (renditions : List (RenditionPlan files count)) :
    Result (List Bool) :=
  renditions.mapM fun rendition => videoKind rendition.id none 0 rendition.clips

/-- What every cut of a rendition's clip needs. -/
structure Cutter (files : List TimedIndex) where
  metadata : Fin files.length → ClipMetadata
  version : String
  segmentDurationMs : ℕ
  limits : LimitsConfig

/-- One clip of one rendition, cut and assembled. -/
structure CutClip where
  asset : RenditionFile
  stop : TimelinePosition
  spanFromMs : ℕ
  spanToMs : ℕ
  leadMs : ℕ
  /-- The longest audio frame; zero when the clip has no audio. -/
  frameMs : ℤ

def longestAudioFrameMs (asset : PackagedAsset) : ℤ :=
  match asset.index.audioTracks.head? with
  | none => 0
  | some track =>
      let longest :=
        ((track.samples.iter.collect.map Sample.duration).max?).getD 0
      (longest * 1000 / track.timescale : ℕ)

/-- One clip of every rendition. -/
structure CutRow where
  row : List (String × RenditionFile)
  videoEnds : List (String × TimelinePosition)
  audioEnds : List (String × TimelinePosition × ℤ)
  /-- Where the reference rendition's clip ends. -/
  next : TimelinePosition

/-- Cuts `window` of clip `position` of the rendition to start at `start`. -/
def Cutter.cut (cutter : Cutter files)
    (rendition : RenditionPlan files count) (position : Fin count)
    (window : ClipWindow) (start : TimelinePosition) (trailing : Trailing) :
    Result CutClip := do
  let clip := rendition.clip position
  let narrowed ← (narrow files[clip.file] clip.tracks).mapError
    (renditionError rendition.id position)
  let cut ← (trim narrowed window start trailing).mapError
    (renditionError rendition.id position)
  let asset ← (assemble (cutter.metadata clip.file) cut.index
    cutter.segmentDurationMs cutter.limits cutter.version
    rendition.audio).mapError (renditionError rendition.id position)
  .ok
    { asset := asset.1
      stop := cut.stop
      spanFromMs := cut.spanFromMs
      spanToMs := cut.spanToMs
      leadMs := cut.leadMs
      frameMs := longestAudioFrameMs asset.1.asset }

/-- The video renditions, cut from their own windows. -/
def Cutter.cutVideo (cutter : Cutter files) (position : Fin count)
    (start : TimelinePosition) (trailing : Trailing)
    (listed : RenditionPlan files count × Bool) : Result (Option CutClip) :=
  if listed.2 then do
    let window := (listed.1.clip position).window
    let cut ← cutter.cut listed.1 position window start trailing
    .ok (some cut)
  else .ok none

/-- The span a video clip kept, as a window for audio: to the end where the
video's own window is. -/
def CutClip.followed (cut : CutClip) (window : ClipWindow) : ClipWindow where
  fromMs := cut.spanFromMs
  toMs := window.toMs.map fun _ => cut.spanToMs

/-- Cuts clip `position` of every rendition to start at `start`.  The first
video rendition is the reference; there is one. -/
def Cutter.cutRow (cutter : Cutter files)
    (renditions : List (RenditionPlan files count)) (hasVideo : List Bool)
    (position : Fin count) (start : TimelinePosition) (trailing : Trailing) :
    Result CutRow := do
  let listed := renditions.zip hasVideo
  let videoCuts ← listed.mapM (cutter.cutVideo position start trailing)
  let (window, reference) ← okOr
    ((listed.zip videoCuts).findSome? fun entry =>
      entry.2.map fun cut => ((entry.1.1.clip position).window, cut))
    (.invalidMedia "an adaptive asset needs at least one video rendition")
  let audioStart ← start.after reference.leadMs 1000
  let cuts ← (listed.zip videoCuts).mapM fun entry =>
    match entry.2 with
    | some cut => .ok cut
    | none =>
        cutter.cut entry.1.1 position (reference.followed window) audioStart
          trailing
  let named := listed.zip cuts
  .ok
    { row := named.map fun entry => (entry.1.1.id, entry.2.asset)
      videoEnds := (named.filter fun entry => entry.1.2).map fun entry =>
        (entry.1.1.id, entry.2.stop)
      audioEnds := (named.filter fun entry => !entry.1.2).map fun entry =>
        (entry.1.1.id, entry.2.stop, entry.2.frameMs)
      next := reference.stop }

end Rows

/-! ## Frames at an instant -/

/-- The frame that plays at `time`: the last one that starts by then, or the
first one where none does. -/
structure PlaysAt (track : Track) (time i : ℕ) : Prop where
  lt_len : i < track.samples.len
  last : ∀ j < track.samples.len, track.samples.decodeTime j ≤ time → j ≤ i
  started : track.samples.decodeTime i ≤ time ∨ i = 0

/-- The last frame from `first` on that starts before `stop`, or the track's
last one. -/
structure LastBefore (track : Track) (first : ℕ) (stop : Option ℕ) (i : ℕ) :
    Prop where
  lt_len : i < track.samples.len
  first_le : first ≤ i
  last : ∀ j < track.samples.len,
    (∀ time ∈ stop, track.samples.decodeTime j < time) → j ≤ i
  started : (∀ time ∈ stop, track.samples.decodeTime i < time) ∨ i = first

theorem PlaysAt.unique {track : Track} {time i j : ℕ}
    (hi : PlaysAt track time i) (hj : PlaysAt track time j) : i = j := by
  have hle : ∀ {a b : ℕ}, PlaysAt track time a → PlaysAt track time b →
      a ≤ b := by
    intro a b ha hb
    rcases ha.started with hstarted | rfl
    · exact hb.last a ha.lt_len hstarted
    · exact Nat.zero_le b
  exact Nat.le_antisymm (hle hi hj) (hle hj hi)

theorem LastBefore.unique {track : Track} {first : ℕ} {stop : Option ℕ}
    {i j : ℕ} (hi : LastBefore track first stop i)
    (hj : LastBefore track first stop j) : i = j := by
  have hle : ∀ {a b : ℕ}, LastBefore track first stop a →
      LastBefore track first stop b → a ≤ b := by
    intro a b ha hb
    rcases ha.started with hstarted | rfl
    · exact hb.last a ha.lt_len hstarted
    · exact hb.first_le
  exact Nat.le_antisymm (hle hi hj) (hle hj hi)

theorem audioWindow_first {track : Track} {start : ℕ} {stop : Option ℕ}
    (hstart : start + 1 < 2 ^ 64) :
    PlaysAt track start (audioWindow track start stop).first := by
  have hsum : saturatingAdd (2 ^ 64) start 1 = start + 1 := by
    unfold saturatingAdd
    omega
  have hlt := fun j (hj : j < track.samples.len) =>
    track.samples_valid.lt_partitionByDecodeTime_iff hj (start + 1)
  have hfirst := audioFirst_lt track.samples_valid track.samples_nonempty start
  change PlaysAt track start (audioFirst track.samples start)
  unfold audioFirst at hfirst ⊢
  rw [hsum] at hfirst ⊢
  refine ⟨hfirst, fun j hj htime => ?_, ?_⟩
  · have := (hlt j hj).mpr (by omega)
    omega
  · by_cases hzero : track.samples.partitionByDecodeTime (start + 1) = 0
    · exact Or.inr (by omega)
    · have := (hlt _ hfirst).mp (by omega)
      exact Or.inl (by omega)

theorem audioWindow_last {track : Track} {start : ℕ} {stop : Option ℕ} :
    LastBefore track (audioWindow track start stop).first stop
      ((audioWindow track start stop).stop - 1) := by
  have hfirst := audioFirst_lt track.samples_valid track.samples_nonempty start
  have hstop := (audioWindow track start stop).stop_le
  change LastBefore track (audioFirst track.samples start) stop
    (max (audioStop track.samples stop) (audioFirst track.samples start + 1) - 1)
  change max (audioStop track.samples stop)
    (audioFirst track.samples start + 1) ≤ _ at hstop
  cases stop with
  | none =>
      have hall : audioStop track.samples none = track.samples.len := rfl
      rw [hall] at hstop ⊢
      exact ⟨by omega, by omega, fun j hj _ => by omega,
        Or.inl fun time htime => by simp at htime⟩
  | some stop =>
      have hlt := fun j (hj : j < track.samples.len) =>
        track.samples_valid.lt_partitionByDecodeTime_iff hj stop
      have hpart : audioStop track.samples (some stop) =
          track.samples.partitionByDecodeTime stop := rfl
      rw [hpart] at hstop ⊢
      refine ⟨by omega, by omega, fun j hj htime => ?_, ?_⟩
      · have := (hlt j hj).mpr (htime stop rfl)
        omega
      · by_cases hle : track.samples.partitionByDecodeTime stop ≤
            audioFirst track.samples start + 1
        · exact Or.inr (by omega)
        · refine Or.inl fun time htime => ?_
          obtain rfl := Option.some.inj htime
          exact (hlt _ (by omega)).mp (by omega)

/-- What a window keeps of a file's reference. -/
theorem referenceWindow_spec {index : TimedIndex} {reference : Track}
    {window : ClipWindow} {range : SampleRange reference.samples}
    (h : referenceWindow index reference window = .ok range) :
    ∃ start,
      msToTicks (window.fromMs + index.presentationOffsetMs)
        reference.timescale = .ok start ∧
      start < reference.endTime ∧
      ∃ stop,
        range =
          (match reference.kind with
          | .video => videoWindow reference start
              (stop.filter fun stop => decide (stop < reference.endTime))
          | .audio => audioWindow reference start
              (stop.filter fun stop => decide (stop < reference.endTime))) ∧
        (∀ time ∈ stop, start < time) ∧
        stop = window.toMs.map fun toMs =>
          (toMs + index.presentationOffsetMs) * reference.timescale / 1000 := by
  unfold referenceWindow at h
  dsimp only at h
  obtain ⟨last, hlast, h⟩ := bind_eq_ok_iff.mp h
  obtain ⟨referenceEnd, hend, h⟩ := bind_eq_ok_iff.mp h
  have hreferenceEnd : referenceEnd = reference.endTime := by
    have htrack := trackEnd_eq reference
    unfold trackEnd at htrack
    rw [okOr_eq_ok_iff.mp hlast, okOr_some, ok_bind] at htrack
    have htotal := okOr_eq_ok_iff.mp htrack
    exact Option.some.inj ((okOr_eq_ok_iff.mp hend).symm.trans htotal)
  rw [hreferenceEnd] at h
  obtain ⟨fromMs, hfrom, h⟩ := bind_eq_ok_iff.mp h
  obtain ⟨-, hsum⟩ := checkedAdd_eq_some_iff.mp (okOr_eq_ok_iff.mp hfrom)
  rw [← hsum] at h
  obtain ⟨start, hstart, h⟩ := bind_eq_ok_iff.mp h
  split at h
  · cases h
  rename_i hlt
  obtain ⟨stop, hstop, h⟩ := bind_eq_ok_iff.mp h
  split at h
  · cases h
  rename_i hlater
  obtain rfl := Except.ok.inj h
  refine ⟨start, hstart, Nat.lt_of_not_le hlt, stop, rfl, ?_, ?_⟩
  · intro time htime
    obtain rfl := Option.mem_def.mp htime
    simpa using hlater
  · cases htoMs : window.toMs with
    | none =>
        rw [htoMs] at hstop
        exact (Except.ok.inj hstop).symm
    | some toMs =>
        rw [htoMs] at hstop
        obtain ⟨ticks, hticks, hstop⟩ := bind_eq_ok_iff.mp hstop
        obtain rfl := Except.ok.inj hstop
        obtain ⟨shifted, hshifted, hticks⟩ := bind_eq_ok_iff.mp hticks
        obtain ⟨-, rfl⟩ :=
          checkedAdd_eq_some_iff.mp (okOr_eq_ok_iff.mp hshifted)
        obtain ⟨-, rfl⟩ := toWord_eq_ok_iff.mp hticks
        rfl

/-- What a window keeps of a file whose reference is an audio track. -/
theorem referenceWindow_audio {index : TimedIndex} {reference : Track}
    {window : ClipWindow} {range : SampleRange reference.samples}
    (hkind : reference.kind = .audio)
    (h : referenceWindow index reference window = .ok range) :
    ∃ start,
      msToTicks (window.fromMs + index.presentationOffsetMs)
        reference.timescale = .ok start ∧
      start < reference.endTime ∧
      ∃ stop,
        range = audioWindow reference start
          (stop.filter fun stop => decide (stop < reference.endTime)) ∧
        (∀ time ∈ stop, start < time) ∧
        stop = window.toMs.map fun toMs =>
          (toMs + index.presentationOffsetMs) * reference.timescale / 1000 := by
  obtain ⟨start, hstart, hlt, stop, hrange, hlater, hstop⟩ :=
    referenceWindow_spec h
  rw [hkind] at hrange
  exact ⟨start, hstart, hlt, stop, hrange, hlater, hstop⟩

/-! ## Instants of the source -/

/-- An instant of a file's timeline on its source's clock, in milliseconds. -/
def sourceMs (index : TimedIndex) (timescale time : ℕ) : ℚ :=
  (time : ℚ) * 1000 / timescale - index.presentationOffsetMs

def frameEnd (track : Track) (i : ℕ) : ℕ :=
  track.samples.decodeTime i + (track.samples.get i).duration

def frameMs (track : Track) (i : ℕ) : ℚ :=
  ((track.samples.get i).duration : ℚ) * 1000 / track.timescale

/-- The kept audio starts and ends where the reference's span does on the
source's clock, within a frame and a millisecond. -/
structure FollowsSpan (video : TimedIndex) (videoCut : ReferenceCut)
    (audio : TimedIndex) (audioCut : ReferenceCut) : Prop where
  first :
    |sourceMs audio audioCut.reference.timescale
        (audioCut.reference.samples.decodeTime audioCut.range.first) -
      sourceMs video videoCut.reference.timescale videoCut.origin| ≤
      frameMs audioCut.reference audioCut.range.first + 1
  last :
    |sourceMs audio audioCut.reference.timescale
        (frameEnd audioCut.reference (audioCut.range.stop - 1)) -
      sourceMs video videoCut.reference.timescale videoCut.keptEnd| ≤
      frameMs audioCut.reference (audioCut.range.stop - 1) + 1

/-- An instant of the reference as audio is told it: in whole milliseconds of
the reference's served timeline, on the audio's served timeline. -/
def followedTick (audio : TimedIndex) (track : Track) (timescale time : ℕ) :
    ℕ :=
  (ticksToMs time timescale + audio.presentationOffsetMs) * track.timescale /
    1000

def followedStop (audio : TimedIndex) (track : Track) (toMs : Option ℕ)
    (timescale time : ℕ) : Option ℕ :=
  (toMs.map fun _ => followedTick audio track timescale time).filter
    fun stop => decide (stop < track.endTime)

/-- How much later an instant of the audio is, on its source's clock, than an
instant of the reference is on the reference's served timeline. -/
def lateMs (audio : TimedIndex) (track : Track) (time : ℕ)
    (reference : Track) (instant : ℕ) : ℚ :=
  sourceMs audio track.timescale time -
    (instant : ℚ) * 1000 / reference.timescale

/-- The frames that play at the ends of the reference's span, moved by the
reference's offset, are not too far from them. -/
structure SpanReached (video : TimedIndex) (videoCut : ReferenceCut)
    (toMs : Option ℕ) (audio : TimedIndex) (track : Track) : Prop where
  first : ∀ i,
    PlaysAt track
      (followedTick audio track videoCut.reference.timescale videoCut.origin)
      i →
    |lateMs audio track (track.samples.decodeTime i) videoCut.reference
        videoCut.origin + video.presentationOffsetMs| ≤ frameMs track i + 1
  last : ∀ i j,
    PlaysAt track
      (followedTick audio track videoCut.reference.timescale videoCut.origin)
      i →
    LastBefore track i
      (followedStop audio track toMs videoCut.reference.timescale
        videoCut.keptEnd) j →
    |lateMs audio track (frameEnd track j) videoCut.reference
        videoCut.keptEnd + video.presentationOffsetMs| ≤ frameMs track j + 1

theorem sourceMs_sub_eq (video audio : TimedIndex) (track reference : Track)
    (time instant : ℕ) :
    sourceMs audio track.timescale time -
        sourceMs video reference.timescale instant =
      lateMs audio track time reference instant +
        video.presentationOffsetMs := by
  unfold lateMs sourceMs
  ring

/-- Audio cut to a span of another file keeps the frames that play at its
ends. -/
theorem followed_ends {audio : TimedIndex} {audioCut : ReferenceCut}
    {timescale origin keptEnd : ℕ} {toMs : Option ℕ}
    (hkind : audioCut.reference.kind = .audio)
    (h : referenceWindow audio audioCut.reference
      ⟨ticksToMs origin timescale,
        toMs.map fun _ => ticksToMs keptEnd timescale⟩ = .ok audioCut.range) :
    PlaysAt audioCut.reference
        (followedTick audio audioCut.reference timescale origin)
        audioCut.range.first ∧
      LastBefore audioCut.reference audioCut.range.first
        (followedStop audio audioCut.reference toMs timescale keptEnd)
        (audioCut.range.stop - 1) := by
  obtain ⟨start, hstart, hlt, stop, hrange, -, hstop⟩ :=
    referenceWindow_audio hkind h
  obtain ⟨hword, rfl⟩ := toWord_eq_ok_iff.mp hstart
  have hend : audioCut.reference.endTime < 2 ^ 64 :=
    audioCut.reference.samples_valid.sample_end_lt
      (Nat.sub_lt audioCut.reference.samples_nonempty one_pos)
  have hfollowed : (stop.filter fun stop =>
      decide (stop < audioCut.reference.endTime)) =
      followedStop audio audioCut.reference toMs timescale keptEnd := by
    rw [hstop]
    unfold followedStop followedTick
    cases toMs with
    | none => rfl
    | some toMs => rfl
  rw [← hfollowed, hrange]
  refine ⟨audioWindow_first ?_, audioWindow_last⟩
  change followedTick audio audioCut.reference timescale origin <
    audioCut.reference.endTime at hlt
  omega

theorem followsSpan_iff {video audio : TimedIndex}
    {videoCut audioCut : ReferenceCut} {toMs : Option ℕ}
    (hkind : audioCut.reference.kind = .audio)
    (h : referenceWindow audio audioCut.reference
      ⟨ticksToMs videoCut.origin videoCut.reference.timescale,
        toMs.map fun _ =>
          ticksToMs videoCut.keptEnd videoCut.reference.timescale⟩ =
      .ok audioCut.range) :
    FollowsSpan video videoCut audio audioCut ↔
      SpanReached video videoCut toMs audio audioCut.reference := by
  obtain ⟨hfirst, hlast⟩ := followed_ends hkind h
  constructor
  · rintro ⟨hstart, hstop⟩
    rw [sourceMs_sub_eq] at hstart hstop
    refine ⟨fun i hi => ?_, fun i j hi hj => ?_⟩
    · obtain rfl := hi.unique hfirst
      exact hstart
    · obtain rfl := hi.unique hfirst
      obtain rfl := hj.unique hlast
      exact hstop
  · intro hreached
    refine ⟨?_, ?_⟩
    · rw [sourceMs_sub_eq]
      exact hreached.first _ hfirst
    · rw [sourceMs_sub_eq]
      exact hreached.last _ _ hfirst hlast

/-! ## Audio that plays through the span -/

/-- The audio plays without a gap at both ends of the span, and the span's
milliseconds fit a word. -/
structure PlaysThrough (videoCut : ReferenceCut) (toMs : Option ℕ)
    (audio : TimedIndex) (track : Track) (i j : ℕ) : Prop where
  origin_fits : videoCut.origin * 1000 / videoCut.reference.timescale < 2 ^ 64
  end_fits : videoCut.keptEnd * 1000 / videoCut.reference.timescale < 2 ^ 64
  first_lt : i < track.samples.len
  first_starts : track.samples.decodeTime i ≤
    followedTick audio track videoCut.reference.timescale videoCut.origin
  first_ends :
    followedTick audio track videoCut.reference.timescale videoCut.origin <
      frameEnd track i
  first_le : i ≤ j
  last_lt : j < track.samples.len
  last_starts : track.samples.decodeTime j <
    followedTick audio track videoCut.reference.timescale videoCut.keptEnd
  last_ends :
    followedTick audio track videoCut.reference.timescale videoCut.keptEnd ≤
      frameEnd track j
  /-- A window to the end keeps every frame. -/
  to_the_end :
    toMs = none ∨ track.endTime ≤
        followedTick audio track videoCut.reference.timescale
          videoCut.keptEnd →
      j + 1 = track.samples.len

theorem frameEnd_le {track : Track} {i j : ℕ} (hij : i < j)
    (hj : j < track.samples.len) :
    frameEnd track i ≤ track.samples.decodeTime j := by
  have hnext := track.samples_valid.decodeTime_add_duration_le
    (show i + 1 < track.samples.len by omega)
  have hmono := track.samples_valid.decodeTime_mono (i := i + 1) hij hj
  unfold frameEnd
  omega

section PlaysThrough

variable {videoCut : ReferenceCut} {toMs : Option ℕ} {audio : TimedIndex}
  {track : Track} {i j : ℕ}

theorem PlaysThrough.playsAt (h : PlaysThrough videoCut toMs audio track i j) :
    PlaysAt track
      (followedTick audio track videoCut.reference.timescale videoCut.origin)
      i := by
  refine ⟨h.first_lt, fun k hk htime => ?_, Or.inl h.first_starts⟩
  by_contra hlater
  have hends := frameEnd_le (Nat.not_le.mp hlater) hk
  have hfirst := h.first_ends
  omega

theorem PlaysThrough.lastBefore
    (h : PlaysThrough videoCut toMs audio track i j) :
    LastBefore track i
      (followedStop audio track toMs videoCut.reference.timescale
        videoCut.keptEnd) j := by
  have hlast := h.last_ends
  have hend := h.to_the_end
  unfold followedStop
  cases htoMs : toMs with
  | none =>
      have hall := hend (Or.inl htoMs)
      exact ⟨h.last_lt, h.first_le, fun k hk _ => by omega,
        Or.inl fun time htime => by simp at htime⟩
  | some ms =>
      rw [Option.map_some, Option.filter_some]
      split
      · rename_i hlt
        refine ⟨h.last_lt, h.first_le, fun k hk htime => ?_, ?_⟩
        · by_contra hlater
          have hends := frameEnd_le (Nat.not_le.mp hlater) hk
          have := htime _ rfl
          omega
        · refine Or.inl fun time htime => ?_
          obtain rfl := Option.some.inj htime
          exact h.last_starts
      · rename_i hge
        have hall := hend (Or.inr (by simpa using hge))
        exact ⟨h.last_lt, h.first_le, fun k hk _ => by omega,
          Or.inl fun time htime => by simp at htime⟩

theorem ticksToMs_eq {time timescale : ℕ} (hscale : 0 < timescale)
    (hfits : time * 1000 / timescale < 2 ^ 64) :
    ticksToMs time timescale = rescaled time timescale 1000 := by
  unfold ticksToMs
  rw [checkedDiv_eq_some_iff.mpr ⟨hscale.ne', rfl⟩]
  exact if_pos hfits

/-- The milliseconds an instant of the reference is told in are the instant's,
rounded down, and the tick they are read as is those milliseconds', rounded
down. -/
theorem followedTick_bounds (audio : TimedIndex) (track reference : Track)
    {time : ℕ} (hfits : time * 1000 / reference.timescale < 2 ^ 64) :
    (followedTick audio track reference.timescale time : ℚ) * 1000 /
        track.timescale ≤
      (time : ℚ) * 1000 / reference.timescale + audio.presentationOffsetMs ∧
    (time : ℚ) * 1000 / reference.timescale + audio.presentationOffsetMs <
      (followedTick audio track reference.timescale time + 1 : ℚ) * 1000 /
        track.timescale + 1 := by
  have hscale : (0 : ℚ) < track.timescale := by
    exact_mod_cast track.timescale_pos
  have hms := ticksToMs_eq reference.timescale_pos hfits
  have hmsLe := rescaled_le_exact time reference.timescale 1000
  have hmsLt := exact_lt_rescaled_add_one time reference.timescale 1000
  have htick : followedTick audio track reference.timescale time =
      rescaled (rescaled time reference.timescale 1000 +
        audio.presentationOffsetMs) 1000 track.timescale := by
    unfold followedTick
    rw [hms]
    rfl
  have htickLe := rescaled_le_exact (rescaled time reference.timescale 1000 +
    audio.presentationOffsetMs) 1000 track.timescale
  have htickLt := exact_lt_rescaled_add_one
    (rescaled time reference.timescale 1000 + audio.presentationOffsetMs) 1000
    track.timescale
  rw [← htick] at htickLe htickLt
  push_cast at hmsLe hmsLt htickLe htickLt
  constructor
  · rw [div_le_iff₀ hscale]
    rw [le_div_iff₀ (by norm_num)] at htickLe
    nlinarith
  · rw [div_add_one hscale.ne', lt_div_iff₀ hscale]
    rw [div_lt_iff₀ (by norm_num)] at htickLt
    nlinarith

theorem mul_div_mono {a b timescale : ℕ} (h : a ≤ b) :
    (a : ℚ) * 1000 / timescale ≤ (b : ℚ) * 1000 / timescale := by
  have hcast : (a : ℚ) ≤ b := by exact_mod_cast h
  gcongr

theorem frameEnd_ms (track : Track) (i : ℕ) :
    (frameEnd track i : ℚ) * 1000 / track.timescale =
      (track.samples.decodeTime i : ℚ) * 1000 / track.timescale +
        frameMs track i := by
  unfold frameEnd frameMs
  push_cast
  ring

theorem PlaysThrough.late_first
    (h : PlaysThrough videoCut toMs audio track i j) :
    -(frameMs track i + 1) <
        lateMs audio track (track.samples.decodeTime i) videoCut.reference
          videoCut.origin ∧
      lateMs audio track (track.samples.decodeTime i) videoCut.reference
          videoCut.origin ≤ 0 := by
  obtain ⟨hle, hlt⟩ :=
    followedTick_bounds audio track videoCut.reference h.origin_fits
  have hstart := @mul_div_mono _ _ track.timescale h.first_starts
  have hstop := @mul_div_mono _ _ track.timescale
    (Nat.succ_le_of_lt h.first_ends)
  rw [frameEnd_ms, Nat.succ_eq_add_one] at hstop
  push_cast at hstop
  unfold lateMs sourceMs
  constructor
  · linarith
  · linarith

theorem PlaysThrough.late_last
    (h : PlaysThrough videoCut toMs audio track i j) :
    -(frameMs track j + 1) <
        lateMs audio track (frameEnd track j) videoCut.reference
          videoCut.keptEnd ∧
      lateMs audio track (frameEnd track j) videoCut.reference
          videoCut.keptEnd ≤ frameMs track j := by
  obtain ⟨hle, hlt⟩ :=
    followedTick_bounds audio track videoCut.reference h.end_fits
  have hlast := h.last_starts
  have hends := h.last_ends
  have hstart := @mul_div_mono _ _ track.timescale
    (Nat.le_of_lt h.last_starts)
  have hstop := @mul_div_mono _ _ track.timescale h.last_ends
  have htick := @mul_div_mono _ _ track.timescale
    (show 1 ≤ (track.samples.get j).duration by
      unfold frameEnd at hends
      omega)
  have hframe := frameEnd_ms track j
  change _ ≤ frameMs track j at htick
  rw [Nat.cast_one, one_mul] at htick
  rw [add_mul, add_div, one_mul] at hlt
  unfold lateMs sourceMs
  constructor
  · linarith
  · linarith

/-- Audio that plays through the span follows the video where the video's file
has no offset. -/
theorem PlaysThrough.reached (h : PlaysThrough videoCut toMs audio track i j)
    {video : TimedIndex} (hoffset : video.presentationOffsetMs = 0) :
    SpanReached video videoCut toMs audio track := by
  obtain ⟨hfirstGt, hfirstLe⟩ := h.late_first
  obtain ⟨hlastGt, hlastLe⟩ := h.late_last
  have hframe : 0 ≤ frameMs track i := by
    unfold frameMs
    positivity
  refine ⟨fun k hk => ?_, fun k l hk hl => ?_⟩
  · obtain rfl := hk.unique h.playsAt
    rw [hoffset, abs_le]
    constructor
    · push_cast
      linarith
    · push_cast
      linarith
  · obtain rfl := hk.unique h.playsAt
    obtain rfl := hl.unique h.lastBefore
    rw [hoffset, abs_le]
    constructor
    · push_cast
      linarith
    · push_cast
      linarith

/-- Audio that plays through the span never follows the video where the offset
of the video's file is two frames and two milliseconds or more. -/
theorem PlaysThrough.not_reached
    (h : PlaysThrough videoCut toMs audio track i j) {video : TimedIndex}
    (hoffset : 2 * (frameMs track i + 1) ≤ video.presentationOffsetMs) :
    ¬SpanReached video videoCut toMs audio track := by
  intro hreached
  have hfirst := (abs_le.mp (hreached.first i h.playsAt)).2
  have hlate := h.late_first.1
  linarith

end PlaysThrough

/-! ## What a row consists of -/

theorem forall₂_of_zip {α β γ : Type} {R : α → β → Prop}
    {S : α × β → γ → Prop} {as : List α} {bs : List β} {cs : List γ}
    (hfirst : List.Forall₂ R as bs) (hsecond : List.Forall₂ S (as.zip bs) cs) :
    List.Forall₂ (fun a c => ∃ b, R a b ∧ S (a, b) c) as cs := by
  induction hfirst generalizing cs with
  | nil =>
      cases hsecond
      exact .nil
  | cons hhead _ ih =>
      cases hsecond with
      | cons hnext hrest => exact .cons ⟨_, hhead, hnext⟩ (ih hrest)

theorem forall₂_map_zip {α β γ : Type} {R : α → β → Prop} {f : α × β → γ}
    {as : List α} {bs : List β} (h : List.Forall₂ R as bs) :
    List.Forall₂ (fun a c => ∃ b, R a b ∧ c = f (a, b)) as
      ((as.zip bs).map f) := by
  induction h with
  | nil => exact .nil
  | cons hhead _ ih => exact .cons ⟨_, hhead, rfl⟩ ih

section Rows

variable {files : List TimedIndex} {count : ℕ} {cutter : Cutter files}
  {renditions : List (RenditionPlan files count)} {hasVideo : List Bool}
  {position : Fin count} {start : TimelinePosition} {trailing : Trailing}

theorem videoKind_spec {id : String} {first : Option Bool} {number : ℕ}
    {clips : List (ClipPlan files)} {video : Bool}
    (h : videoKind id first number clips = .ok video) :
    (∀ expected ∈ first, expected = video) ∧
      ∀ clip ∈ clips, ∃ narrowed,
        narrow (files.get clip.file) clip.tracks = .ok narrowed ∧
          hasVideoTrack narrowed.toMediaIndex = video := by
  induction clips generalizing first number with
  | nil =>
      obtain rfl := Except.ok.inj h
      refine ⟨fun expected hexpected => ?_, fun clip hclip => by simp at hclip⟩
      obtain rfl := Option.mem_def.mp hexpected
      rfl
  | cons clip rest ih =>
      unfold videoKind at h
      obtain ⟨narrowed, hnarrowed, h⟩ := bind_eq_ok_iff.mp h
      have hnarrow := mapError_eq_ok hnarrowed
      cases first with
      | none =>
          obtain ⟨hfirst, hrest⟩ := ih h
          refine ⟨fun expected hexpected => by simp at hexpected, ?_⟩
          exact List.forall_mem_cons.mpr
            ⟨⟨narrowed, hnarrow, hfirst _ rfl⟩, hrest⟩
      | some expected =>
          dsimp only at h
          split at h
          · cases h
          · rename_i hsame
            obtain ⟨hfirst, hrest⟩ := ih h
            have hexpected := hfirst expected rfl
            refine ⟨hfirst, List.forall_mem_cons.mpr
              ⟨⟨narrowed, hnarrow, ?_⟩, hrest⟩⟩
            rw [← hexpected]
            simpa using (Eq.symm (by simpa using hsame) :
              hasVideoTrack narrowed.toMediaIndex = expected)

/-- What cutting one clip of a rendition consists of. -/
structure Cuts (rendition : RenditionPlan files count) (position : Fin count)
    (window : ClipWindow) (start : TimelinePosition) (trailing : Trailing)
    (clip : CutClip) (narrowed : TimedIndex) (trimmed : Trimmed)
    (cut : ReferenceCut) (length : ℕ) : Prop where
  narrow_eq : narrow files[(rendition.clip position).file]
    (rendition.clip position).tracks = .ok narrowed
  trims : Trims narrowed window start trailing trimmed cut length
  asset : clip.asset.asset.index = trimmed.index.toMediaIndex
  stop : clip.stop = trimmed.stop
  spanFromMs :
    clip.spanFromMs = ticksToMs cut.origin cut.reference.timescale
  spanToMs :
    clip.spanToMs = ticksToMs cut.keptEnd cut.reference.timescale
  leadMs : clip.leadMs = ticksToMs cut.lead cut.reference.timescale

theorem Cutter.cut_spec {rendition : RenditionPlan files count}
    {window : ClipWindow} {clip : CutClip}
    (h : cutter.cut rendition position window start trailing = .ok clip) :
    ∃ narrowed trimmed cut length,
      Cuts rendition position window start trailing clip narrowed trimmed cut
        length := by
  unfold Cutter.cut at h
  obtain ⟨narrowed, hnarrowed, h⟩ := bind_eq_ok_iff.mp h
  obtain ⟨trimmed, htrimmed, h⟩ := bind_eq_ok_iff.mp h
  obtain ⟨asset, -, h⟩ := bind_eq_ok_iff.mp h
  obtain rfl := Except.ok.inj h
  obtain ⟨cut, length, htrims⟩ := trim_spec (mapError_eq_ok htrimmed)
  exact ⟨narrowed, trimmed, cut, length, mapError_eq_ok hnarrowed, htrims,
    asset.2, rfl, htrims.spanFromMs, htrims.spanToMs, htrims.leadMs⟩

theorem find?_of_findSome?
    {listed : List (RenditionPlan files count × Bool)}
    {cuts : List (Option CutClip)}
    (h : List.Forall₂
      (fun rendition cut =>
        cutter.cutVideo position start trailing rendition = .ok cut)
      listed cuts)
    {window : ClipWindow} {reference : CutClip}
    (hfound : ((listed.zip cuts).findSome? fun entry =>
      entry.2.map fun cut => ((entry.1.1.clip position).window, cut)) =
        some (window, reference)) :
    ∃ rendition,
      listed.find? Prod.snd = some (rendition, true) ∧
      window = (rendition.clip position).window ∧
      cutter.cut rendition position window start trailing = .ok reference := by
  induction h with
  | nil => simp at hfound
  | @cons head cut rest cuts hhead _ ih =>
      obtain ⟨rendition, video⟩ := head
      unfold Cutter.cutVideo at hhead
      cases video with
      | true =>
          obtain ⟨clip, hclip, hhead⟩ := bind_eq_ok_iff.mp hhead
          obtain rfl := Except.ok.inj hhead
          obtain ⟨rfl, rfl⟩ := Prod.mk.inj (Option.some.inj hfound)
          exact ⟨rendition, rfl, rfl, hclip⟩
      | false =>
          obtain rfl := Except.ok.inj hhead
          exact ih hfound

/-- The reference of a row, and the cuts of its audio-only renditions. -/
theorem Cutter.cutRow_spec {row : CutRow}
    (h : cutter.cutRow renditions hasVideo position start trailing = .ok row) :
    ∃ rendition reference audioStart,
      (renditions.zip hasVideo).find? Prod.snd = some (rendition, true) ∧
      cutter.cut rendition position (rendition.clip position).window start
        trailing = .ok reference ∧
      start.after reference.leadMs 1000 = .ok audioStart ∧
      row.next = reference.stop ∧
      List.Forall₂
        (fun listed entry => listed.2 = false →
          ∃ clip,
            cutter.cut listed.1 position
              (reference.followed (rendition.clip position).window) audioStart
              trailing = .ok clip ∧
            entry = (listed.1.id, clip.asset))
        (renditions.zip hasVideo) row.row := by
  unfold Cutter.cutRow at h
  obtain ⟨videoCuts, hvideo, h⟩ := bind_eq_ok_iff.mp h
  obtain ⟨⟨window, reference⟩, hreference, h⟩ := bind_eq_ok_iff.mp h
  obtain ⟨audioStart, hstart, h⟩ := bind_eq_ok_iff.mp h
  obtain ⟨cuts, hcuts, h⟩ := bind_eq_ok_iff.mp h
  obtain rfl := Except.ok.inj h
  have hvideoAll := mapM_forall₂ hvideo
  obtain ⟨rendition, hfind, rfl, hcut⟩ :=
    find?_of_findSome? hvideoAll (okOr_eq_ok_iff.mp hreference)
  refine ⟨rendition, reference, audioStart, hfind, hcut, hstart, rfl, ?_⟩
  have hall := forall₂_of_zip hvideoAll (mapM_forall₂ hcuts)
  apply (forall₂_map_zip hall).imp
  rintro ⟨listed, video⟩ entry ⟨clip, ⟨videoCut, hown, hclip⟩, rfl⟩ rfl
  obtain rfl := Except.ok.inj hown
  exact ⟨clip, hclip, rfl⟩

theorem reference_audio {index : MediaIndex} {reference : Track}
    (hvideo : hasVideoTrack index = false)
    (h : index.reference = some reference) : reference.kind = .audio := by
  have hall := List.any_eq_false.mp hvideo reference
    (MediaIndex.reference_mem h)
  cases hkind : reference.kind with
  | audio => rfl
  | video => simp [hkind] at hall

/-- The clip of an audio-only rendition: `audioCut` is what of the rendition's
file it holds, as `moved`, placed where the reference starts, later by the
reference's lead. -/
structure FollowingClip (rendition : RenditionPlan files count)
    (position : Fin count) (start : TimelinePosition) (videoCut : ReferenceCut)
    (asset : RenditionFile) (audio : TimedIndex) (audioCut : ReferenceCut)
    (moved : Track) (audioStart : TimelinePosition) (ticks : ℕ) : Prop where
  narrow_eq : narrow files[(rendition.clip position).file]
    (rendition.clip position).tracks = .ok audio
  audio_only : audioCut.reference.kind = .audio
  held : asset.asset.index.reference = some moved
  moved : Moved audioCut.reference audioCut.range audioCut.origin
    (ticks + audioCut.lead) moved
  placed : audioStart.inTicks audioCut.reference.timescale = .ok ticks
  follows_lead :
    start.after (ticksToMs videoCut.lead videoCut.reference.timescale) 1000 =
      .ok audioStart

theorem videoKinds_spec (h : videoKinds renditions = .ok hasVideo)
    (position : Fin count) :
    ∀ listed ∈ renditions.zip hasVideo, ∃ narrowed,
      narrow files[(listed.1.clip position).file]
        (listed.1.clip position).tracks = .ok narrowed ∧
      hasVideoTrack narrowed.toMediaIndex = listed.2 := by
  rintro ⟨rendition, video⟩ hlisted
  have hkind := List.forall₂_zip (mapM_forall₂ h) hlisted
  exact (videoKind_spec hkind).2 _ (List.get_mem _ _)

/-- In every row an audio-only rendition's clip holds the stretch of the source
that the reference's does exactly where the frames that play at the ends of the
reference's span are near enough to them once moved by the offset of the
reference's file. -/
theorem audio_follows_video_iff {row : CutRow}
    (hkinds : videoKinds renditions = .ok hasVideo)
    (hrow :
      cutter.cutRow renditions hasVideo position start trailing = .ok row) :
    ∃ rendition video videoCut,
      (renditions.zip hasVideo).find? Prod.snd = some (rendition, true) ∧
      narrow files[(rendition.clip position).file]
        (rendition.clip position).tracks = .ok video ∧
      referenceCut video (rendition.clip position).window = .ok videoCut ∧
      List.Forall₂
        (fun listed entry => listed.2 = false →
          entry.1 = listed.1.id ∧
          ∃ audio audioCut moved audioStart ticks,
            FollowingClip listed.1 position start videoCut entry.2 audio
              audioCut moved audioStart ticks ∧
            (FollowsSpan video videoCut audio audioCut ↔
              SpanReached video videoCut
                (rendition.clip position).window.toMs audio
                audioCut.reference) ∧
            ∀ i j,
              PlaysThrough videoCut (rendition.clip position).window.toMs audio
                audioCut.reference i j →
              (video.presentationOffsetMs = 0 →
                FollowsSpan video videoCut audio audioCut) ∧
              (2 * (frameMs audioCut.reference i + 1) ≤
                  video.presentationOffsetMs →
                ¬FollowsSpan video videoCut audio audioCut))
        (renditions.zip hasVideo) row.row := by
  obtain ⟨rendition, reference, audioStart, hfind, hreference, hstart, -,
    hall⟩ := cutter.cutRow_spec hrow
  obtain ⟨video, videoTrimmed, videoCut, videoLength, hvideo⟩ :=
    cutter.cut_spec hreference
  have hkind : List.Forall₂
      (fun listed entry => listed ∈ renditions.zip hasVideo ∧
        (listed.2 = false → ∃ clip,
          cutter.cut listed.1 position
            (reference.followed (rendition.clip position).window) audioStart
            trailing = .ok clip ∧
          entry = (listed.1.id, clip.asset)))
      (renditions.zip hasVideo) row.row :=
    (List.forall₂_and_left _ _).mpr ⟨fun listed hlisted => hlisted, hall⟩
  refine ⟨rendition, video, videoCut, hfind, hvideo.narrow_eq,
    hvideo.trims.cut_eq, hkind.imp ?_⟩
  rintro ⟨own, kind⟩ entry ⟨hlisted, hentry⟩ rfl
  obtain ⟨clip, hclip, rfl⟩ := hentry rfl
  obtain ⟨audio, trimmed, audioCut, length, haudio⟩ := cutter.cut_spec hclip
  obtain ⟨narrowed, hnarrowed, hnone⟩ := videoKinds_spec hkinds position _
    hlisted
  obtain rfl := Except.ok.inj (hnarrowed.symm.trans haudio.narrow_eq)
  have haudioKind := reference_audio hnone haudio.trims.referenced.reference
  obtain ⟨moved, ticks, hheld, hticks, hmoved⟩ := haudio.trims.reference
  have hwindow := haudio.trims.referenced.window
  unfold CutClip.followed at hwindow
  rw [hvideo.spanFromMs, hvideo.spanToMs] at hwindow
  have hiff := @followsSpan_iff video _ _ _ _ haudioKind hwindow
  rw [hvideo.leadMs] at hstart
  refine ⟨rfl, narrowed, audioCut, moved, audioStart, ticks, ⟨hnarrowed,
    haudioKind, ?_, hmoved, hticks, hstart⟩, hiff, fun i j hplays => ⟨?_, ?_⟩⟩
  · rw [← hheld]
    exact congrArg MediaIndex.reference haudio.asset
  · intro hoffset
    exact hiff.mpr (hplays.reached hoffset)
  · intro hoffset hfollows
    exact hplays.not_reached hoffset (hiff.mp hfollows)

end Rows

/-- Half a second a frame, and every timestamp a second later than the
source's. -/
def offsetVideo : TimedIndex where
  tracks :=
    [.checked 1 .video 1000
       { tables := ⟨[9, 9, 9, 9], [⟨0, 0⟩], [⟨0, 0, 500⟩], [], none⟩
         start := 0, stop := 4, shift := 1000 } (by decide)]
  ids_unique := by decide
  movieTimescale := 1000
  duration := 2000
  presentationOffsetMs := 1000

def plainAudio : TimedIndex where
  tracks :=
    [.checked 1 (.audio 1) 1000
       (.new ⟨[5, 5, 5, 5, 5, 5, 5, 5], [⟨0, 0⟩], [⟨0, 0, 250⟩], [], none⟩)
       (by decide)]
  ids_unique := by decide
  movieTimescale := 1000
  duration := 2000
  presentationOffsetMs := 0

/-- A `moov` of one track with one sample entry. -/
def clipMoov (handler entry payload : List UInt8) : List UInt8 :=
  boxBytes (code 'm' 'o' 'o' 'v') (boxesBytes [
    (code 'm' 'v' 'h' 'd', List.replicate 12 0 ++ (encode 4 1000 ++
      encode 4 2000)),
    (code 't' 'r' 'a' 'k', boxesBytes [
      (code 't' 'k' 'h' 'd', List.replicate 12 0 ++ (encode 4 1 ++
        (List.replicate 4 0 ++ encode 4 2000))),
      (code 'm' 'd' 'i' 'a', boxesBytes [
        (code 'm' 'd' 'h' 'd', List.replicate 12 0 ++ (encode 4 1000 ++
          (encode 4 2000 ++ (encode 2 0x55c4 ++ encode 2 0)))),
        (code 'h' 'd' 'l' 'r', List.replicate 8 0 ++ handler),
        (code 'm' 'i' 'n' 'f', boxesBytes [
          (code 'd' 'i' 'n' 'f', boxesBytes [
            (code 'd' 'r' 'e' 'f', List.replicate 4 0 ++ (encode 4 1 ++
              boxBytes (code 'u' 'r' 'l' ' ') [0, 0, 0, 1]))]),
          (code 's' 't' 'b' 'l', boxesBytes [
            (code 's' 't' 's' 'd', List.replicate 4 0 ++ (encode 4 1 ++
              boxBytes entry payload))])])])])])

/-- H.264 of 640 by 360 pixels. -/
def videoMetadata : ClipMetadata where
  moov := clipMoov (code 'v' 'i' 'd' 'e') (code 'a' 'v' 'c' '1')
    (List.replicate 24 0 ++ (encode 2 640 ++ (encode 2 360 ++
      (List.replicate 50 0 ++
        boxBytes (code 'a' 'v' 'c' 'C') [1, 100, 0, 31, 255, 225, 0, 4, 103, 100,
          0, 31, 1, 0, 1, 104]))))
  details _ :=
    { language := "und".toList
      label := none
      duration := 2000
      codec := .avc 640 360 100 0 31 }
  protectedTracks := []

/-- AC-3 of two channels. -/
def audioMetadata : ClipMetadata where
  moov := clipMoov (code 's' 'o' 'u' 'n') (code 'a' 'c' '-' '3')
    (List.replicate 16 0 ++ (encode 2 2 ++ (encode 2 16 ++ (encode 4 0 ++
      (encode 4 (48000 * 2 ^ 16) ++
        boxBytes (code 'd' 'a' 'c' '3') [1, 2, 3])))))
  details _ :=
    { language := "und".toList
      label := none
      duration := 2000
      codec := .ac3 48000 2 }
  protectedTracks := []

def offsetCutter : Cutter [offsetVideo, plainAudio] where
  metadata := ![videoMetadata, audioMetadata]
  version := "0123456789abcdef"
  segmentDurationMs := 1000
  limits := {}

def offsetRenditions :
    List (RenditionPlan [offsetVideo, plainAudio] 1) :=
  [⟨"v", [⟨0, ⟨0, some 500⟩, none⟩], none, rfl⟩,
   ⟨"a", [⟨1, ⟨0, some 500⟩, none⟩], none, rfl⟩]

theorem audio_follows_video_offset :
    ∃ row,
      videoKinds offsetRenditions = .ok [true, false] ∧
      offsetCutter.cutRow offsetRenditions
        [true, false] 0 .zero .keep = .ok row ∧
      ∃ rendition video videoCut,
        (offsetRenditions.zip [true, false]).find? Prod.snd =
          some (rendition, true) ∧
        referenceCut video (rendition.clip 0).window = .ok videoCut ∧
        List.Forall₂
          (fun listed entry => listed.2 = false →
            ∃ audio audioCut moved audioStart ticks,
              FollowingClip listed.1 0 .zero videoCut entry.2 audio audioCut
                moved audioStart ticks ∧
              (FollowsSpan video videoCut audio audioCut ↔
                SpanReached video videoCut (rendition.clip 0).window.toMs audio
                  audioCut.reference))
          (offsetRenditions.zip [true, false]) row.row := by
  have hkinds : videoKinds offsetRenditions = .ok [true, false] := by
    decide
  obtain ⟨row, hrow⟩ := exists_ok_of_isOk
    (show (offsetCutter.cutRow offsetRenditions
      [true, false] 0 .zero .keep).isOk = true by decide +kernel)
  obtain ⟨rendition, video, videoCut, hfind, -, hcut, hall⟩ :=
    audio_follows_video_iff hkinds hrow
  refine ⟨row, hkinds, hrow, rendition, video, videoCut, hfind, hcut,
    hall.imp ?_⟩
  intro listed entry hentry hkind
  obtain ⟨-, audio, audioCut, moved, audioStart, ticks, hclip, hiff, -⟩ :=
    hentry hkind
  exact ⟨audio, audioCut, moved, audioStart, ticks, hclip, hiff⟩

/-- The audio of the second second plays beside the video of the first. -/
theorem offset_video_loses_audio :
    ∃ row videoCut asset audioCut moved base,
      videoKinds offsetRenditions = .ok [true, false] ∧
      offsetCutter.cutRow offsetRenditions
        [true, false] 0 .zero .keep = .ok row ∧
      referenceCut offsetVideo ⟨0, some 500⟩ = .ok videoCut ∧
      row.row[1]? = some ("a", asset) ∧
      asset.asset.index.reference = some moved ∧
      audioCut.reference ∈ plainAudio.tracks ∧
      Moved audioCut.reference audioCut.range audioCut.origin base moved ∧
      ¬FollowsSpan offsetVideo videoCut plainAudio audioCut := by
  have hkinds : videoKinds offsetRenditions = .ok [true, false] := by
    decide
  obtain ⟨row, hrow⟩ := exists_ok_of_isOk
    (show (offsetCutter.cutRow offsetRenditions
      [true, false] 0 .zero .keep).isOk = true by decide +kernel)
  obtain ⟨rendition, reference, audioStart, hfind, hreference, -, -, hall⟩ :=
    Cutter.cutRow_spec hrow
  obtain ⟨rfl, -⟩ := Prod.mk.inj (Option.some.inj hfind)
  obtain ⟨video, videoTrimmed, videoCut, videoLength, hvideo⟩ :=
    Cutter.cut_spec hreference
  obtain rfl := Except.ok.inj hvideo.narrow_eq
  have hvideoCut : referenceCut offsetVideo ⟨0, some 500⟩ = .ok videoCut :=
    hvideo.trims.cut_eq
  have hspan : (referenceCut offsetVideo ⟨0, some 500⟩).map
      (fun cut => (cut.reference.timescale, cut.origin, cut.keptEnd)) =
        .ok (1000, 1000, 1500) := by
    decide
  rw [hvideoCut] at hspan
  obtain ⟨hrate, hspan⟩ := Prod.mk.inj (Except.ok.inj hspan)
  obtain ⟨horigin, hkeptEnd⟩ := Prod.mk.inj hspan
  obtain ⟨entries, hentries⟩ : ∃ entries, row.row = entries := ⟨_, rfl⟩
  rw [hentries] at hall
  cases hall with
  | cons hfirst hrest =>
      cases hrest with
      | cons hsecond hnone =>
          obtain ⟨clip, hclip, rfl⟩ := hsecond rfl
          obtain ⟨audio, trimmed, audioCut, length, haudio⟩ :=
            Cutter.cut_spec hclip
          obtain rfl := Except.ok.inj haudio.narrow_eq
          obtain ⟨moved, ticks, hheld, -, hmoved⟩ := haudio.trims.reference
          have hcut := haudio.trims.cut_eq
          have hwindow : reference.followed ⟨0, some 500⟩ =
              ⟨1000, some 1500⟩ := by
            unfold CutClip.followed
            rw [hvideo.spanFromMs, hvideo.spanToMs, hrate, horigin, hkeptEnd]
            rfl
          have hkept : (referenceCut plainAudio ⟨1000, some 1500⟩).map
              (fun cut => (cut.reference.timescale,
                cut.reference.samples.decodeTime cut.range.first,
                (cut.reference.samples.get cut.range.first).duration)) =
                .ok (1000, 1000, 250) := by
            decide
          rw [← hwindow] at hkept
          have hcut' : referenceCut plainAudio
              (reference.followed ⟨0, some 500⟩) = .ok audioCut := hcut
          rw [hcut'] at hkept
          obtain ⟨haudioRate, hkept⟩ := Prod.mk.inj (Except.ok.inj hkept)
          obtain ⟨hfirstTime, hduration⟩ := Prod.mk.inj hkept
          refine ⟨row, videoCut, clip.asset, audioCut, moved, _, hkinds, hrow,
            hvideoCut, ?_, ?_,
            MediaIndex.reference_mem haudio.trims.referenced.reference,
            hmoved, ?_⟩
          · rw [hentries]
            rfl
          · rw [← hheld]
            exact congrArg MediaIndex.reference haudio.asset
          · intro hfollows
            have hbound := hfollows.first
            unfold sourceMs frameMs at hbound
            rw [haudioRate, hfirstTime, hduration, hrate, horigin] at hbound
            norm_num [plainAudio, offsetVideo] at hbound

end Segmentor.Clip
