import Segmentor.SegmentTimes

/-!
# Cutting a clip

A clip is a window of one file's samples with its decode times moved to a
position on a sequence's timeline.  The window is decided on the reference
track, the one the segment planner cuts on; the other tracks keep what lies in
the reference's span.
-/

namespace Segmentor

open General

def TrackKey.text (key : TrackKey) : String :=
  match key.kind with
  | .video => "video"
  | .audio => s!"audio-{key.ordinal}"

namespace Clip

/-! ## Positions on the timeline -/

def nanosPerSecond : ℕ := 1000000000

def overflow : Error :=
  .invalidMedia "clip timing overflow"

/-- A number as a word, if it is one. -/
def toWord (value : ℕ) : Result ℕ :=
  if value < 2 ^ 64 then .ok value else .error overflow

/-- A window of one file, on the file's own clock. -/
structure ClipWindow where
  fromMs : ℕ
  /-- `none` plays to the end of the file. -/
  toMs : Option ℕ
  deriving DecidableEq, Repr

/-- A point on a sequence's timeline, in nanoseconds. -/
structure TimelinePosition where
  nanos : ℕ
  nanos_lt : nanos < 2 ^ 64
  deriving DecidableEq, Repr

namespace TimelinePosition

def zero : TimelinePosition where
  nanos := 0
  nanos_lt := word_pos

/-- The position in ticks, rounded down. -/
def inTicks (position : TimelinePosition) (timescale : ℕ) : Result ℕ :=
  toWord (position.nanos * timescale / nanosPerSecond)

/-- The position `ticks` later. -/
def after (position : TimelinePosition) (ticks timescale : ℕ) :
    Result TimelinePosition := do
  let nanos ← okOr (checkedDiv (ticks * nanosPerSecond) timescale) overflow
  if h : position.nanos + nanos < 2 ^ 64 then .ok ⟨position.nanos + nanos, h⟩
  else .error overflow

end TimelinePosition

/-- What happens to audio that runs past the end of a clip's video. -/
inductive Trailing
  | keep
  | cut
  deriving DecidableEq, Repr

/-- A media index with what trimming reads and sets besides the tracks. -/
structure TimedIndex extends MediaIndex where
  movieTimescale : ℕ
  duration : ℕ
  /-- How much later than the source's own clock every served timestamp is. -/
  presentationOffsetMs : ℕ

/-! ## Conversions -/

def presented (sample : Sample) : ℤ :=
  sample.decodeTime + sample.compositionOffset

def sampleEnd (sample : Sample) : Result ℕ :=
  okOr (checkedAdd (2 ^ 64) sample.decodeTime sample.duration) overflow

def msToTicks (milliseconds timescale : ℕ) : Result ℕ :=
  toWord (milliseconds * timescale / 1000)

/-- Saturates: what is out of range does not fail the load. -/
def ticksToMs (ticks timescale : ℕ) : ℕ :=
  match checkedDiv (ticks * 1000) timescale with
  | some milliseconds =>
      if milliseconds < 2 ^ 64 then milliseconds else 2 ^ 64 - 1
  | none => 2 ^ 64 - 1

def rescale (value fromTimescale toTimescale : ℕ) : Result ℕ := do
  let scaled ← okOr (checkedDiv (value * toTimescale) fromTimescale) overflow
  toWord scaled

/-! ## Windows -/

/-- Some of an index's samples, in a row. -/
structure SampleRange (samples : SampleIndex) where
  first : ℕ
  stop : ℕ
  first_le : first ≤ stop
  stop_le : stop ≤ samples.len

def SampleRange.kept {samples : SampleIndex} (range : SampleRange samples) :
    SampleIndex :=
  samples.window range.first range.stop

/-- The track cuts are decided on, as in the segment planner. -/
def referenceTrack (index : MediaIndex) : Result Track :=
  okOr
    ((index.tracks.find? fun track => track.kind == .video) <|>
      index.tracks.find? fun track => track.kind == .audio)
    (.unsupported "input has no audio or video track")

/-- The last sync sample shown at or before `start`, or the first one when
even that is shown later. -/
def videoFirst (samples : SampleIndex) (start : ℕ) : ℕ :=
  ((samples.syncIndices.filter fun index =>
      decide (presented (samples.get index) ≤ start)).getLast? <|>
    samples.syncIndices.head?).getD 0

/-- Where the shortest run of samples from `first` that holds every one shown
before `stop` ends. -/
def videoStop (samples : SampleIndex) (first : ℕ) : Option ℕ → ℕ
  | none => samples.len
  | some stop =>
      (((samples.toVec first samples.len).zipIdx.filter fun shown =>
        decide (presented shown.1 < stop)).getLast?).elim (first + 1)
          fun shown => first + shown.2 + 1

def audioFirst (samples : SampleIndex) (start : ℕ) : ℕ :=
  samples.partitionByDecodeTime (saturatingAdd (2 ^ 64) start 1) - 1

def audioStop (samples : SampleIndex) : Option ℕ → ℕ
  | none => samples.len
  | some stop => samples.partitionByDecodeTime stop

theorem videoFirst_lt {samples : SampleIndex} (hvalid : samples.Valid)
    (hpos : 0 < samples.len) (start : ℕ) :
    videoFirst samples start < samples.len := by
  have hmem : ∀ index ∈ samples.syncIndices, index < samples.len :=
    fun index hindex =>
      ((SampleIndex.mem_syncIndices hvalid.readable).mp hindex).1
  unfold videoFirst
  cases hlast : (samples.syncIndices.filter fun index =>
      decide (presented (samples.get index) ≤ start)).getLast? with
  | some index =>
      exact hmem index
        (List.mem_of_mem_filter (List.mem_of_getLast? hlast))
  | none =>
      cases hhead : samples.syncIndices.head? with
      | some index => exact hmem index (List.mem_of_mem_head? hhead)
      | none => exact hpos

theorem videoStop_le {samples : SampleIndex} (hvalid : samples.Valid)
    {first : ℕ} (hfirst : first < samples.len) (stop : Option ℕ) :
    videoStop samples first stop ≤ samples.len := by
  cases stop with
  | none => exact Nat.le_refl _
  | some stop =>
      unfold videoStop
      dsimp only
      cases hlast : ((samples.toVec first samples.len).zipIdx.filter
          fun shown => decide (presented shown.1 < stop)).getLast? with
      | none =>
          change first + 1 ≤ samples.len
          exact hfirst
      | some shown =>
          have hshown := List.mem_of_mem_filter (List.mem_of_getLast? hlast)
          have hlt := List.snd_lt_of_mem_zipIdx hshown
          rw [hvalid.toVec_eq hfirst.le (Nat.le_refl _), List.length_drop,
            List.length_take, SampleIndex.length_all, Nat.min_self] at hlt
          change first + shown.2 + 1 ≤ samples.len
          omega

theorem audioFirst_lt {samples : SampleIndex} (hvalid : samples.Valid)
    (hpos : 0 < samples.len) (start : ℕ) :
    audioFirst samples start < samples.len := by
  have := SampleIndex.partitionByDecodeTime_le hvalid.readable
    (saturatingAdd (2 ^ 64) start 1)
  unfold audioFirst
  omega

theorem audioStop_le {samples : SampleIndex} (hvalid : samples.Valid)
    (stop : Option ℕ) : audioStop samples stop ≤ samples.len := by
  cases stop with
  | none => exact Nat.le_refl _
  | some stop =>
      exact SampleIndex.partitionByDecodeTime_le hvalid.readable stop

def videoWindow (track : Track) (start : ℕ) (stop : Option ℕ) :
    SampleRange track.samples where
  first := videoFirst track.samples start
  stop :=
    max (videoStop track.samples (videoFirst track.samples start) stop)
      (videoFirst track.samples start + 1)
  first_le := by omega
  stop_le := by
    have hfirst := videoFirst_lt track.samples_valid track.samples_nonempty start
    have hstop := videoStop_le track.samples_valid hfirst stop
    exact Nat.max_le.mpr ⟨hstop, hfirst⟩

/-- Every audio frame is a valid cut: from the frame that holds `start` up to
the first one that starts at or after `stop`. -/
def audioWindow (track : Track) (start : ℕ) (stop : Option ℕ) :
    SampleRange track.samples where
  first := audioFirst track.samples start
  stop := max (audioStop track.samples stop) (audioFirst track.samples start + 1)
  first_le := by omega
  stop_le := by
    have hfirst := audioFirst_lt track.samples_valid track.samples_nonempty start
    exact Nat.max_le.mpr ⟨audioStop_le track.samples_valid stop, hfirst⟩

/-- The reference track's kept samples, for a window read on the file's own
clock.  A window reaching the end of the file keeps every sample. -/
def referenceWindow (index : TimedIndex) (reference : Track)
    (window : ClipWindow) : Result (SampleRange reference.samples) := do
  let timescale := reference.timescale
  let offset := index.presentationOffsetMs
  let last ← okOr reference.samples.last
    (.invalidMedia "track contains no samples")
  let referenceEnd ← sampleEnd last
  let fromMs ← okOr (checkedAdd (2 ^ 64) window.fromMs offset) overflow
  let start ← msToTicks fromMs timescale
  if referenceEnd ≤ start then
    .error (.invalidMedia
      s!"from_ms {window.fromMs} is at or past the end of the file")
  else
    let stop ← window.toMs.mapM fun toMs => do
      let toMs ← okOr (checkedAdd (2 ^ 64) toMs offset) overflow
      msToTicks toMs timescale
    if stop.any fun stop => decide (stop ≤ start) then
      .error (.invalidMedia "to_ms must be later than from_ms")
    else
      let stop := stop.filter fun stop => decide (stop < referenceEnd)
      .ok (match reference.kind with
        | .video => videoWindow reference start stop
        | .audio => audioWindow reference start stop)

/-- Another track's samples inside the reference's kept span, by the rule the
segment planner cuts followers with. -/
def followerWindow (track : Track) (start stop : ℕ) (toTheEnd : Bool) :
    SampleRange track.samples where
  first := track.samples.partitionByDecodeTime start
  stop :=
    max
      (if toTheEnd then track.samples.len
      else track.samples.partitionByDecodeTime stop)
      (track.samples.partitionByDecodeTime start)
  first_le := by omega
  stop_le := by
    have hle := SampleIndex.partitionByDecodeTime_le track.samples_valid.readable
    refine Nat.max_le.mpr ⟨?_, hle start⟩
    split
    · exact Nat.le_refl _
    · exact hle stop

/-! ## Moving a track -/

/-- The track with other samples. -/
def withSamples (track : Track) (samples : SampleIndex)
    (hvalid : samples.Valid) (hnonempty : 0 < samples.len) : Track :=
  { track with
    samples := samples
    samples_valid := hvalid
    samples_nonempty := hnonempty }

theorem SampleRange.kept_valid {track : Track}
    (range : SampleRange track.samples) : range.kept.Valid :=
  track.samples_valid.window range.first_le range.stop_le

@[simp] theorem SampleRange.len_kept {samples : SampleIndex}
    (range : SampleRange samples) :
    range.kept.len = range.stop - range.first := by
  simp only [kept, SampleIndex.window, SampleIndex.len]
  omega

theorem len_shifted {x y : SampleIndex} {delta : ℤ} {message : String}
    (h : x.shifted delta message = .ok y) : y.len = x.len := by
  unfold SampleIndex.shifted at h
  split at h
  · split at h
    · cases h
    · obtain rfl := Except.ok.inj h
      rfl
  · obtain rfl := Except.ok.inj h
    rfl

theorem len_pos_of_not_isEmpty {x : SampleIndex} (hvalid : x.Valid)
    (h : ¬x.isEmpty = true) : 0 < x.len := by
  rw [SampleIndex.isEmpty_iff hvalid.readable] at h
  omega

/-- `track` with only `range` kept, each decode time moved from `origin` to
`base`. -/
def movedTrack (track : Track) (range : SampleRange track.samples)
    (origin base : ℕ) : Result Track :=
  if hempty : range.kept.isEmpty = true then
    .error (.invalidMedia
      s!"the window leaves track `{track.key.text}` with no samples")
  else if range.kept.decodeTime 0 < origin then .error overflow
  else
    match hmoved : range.kept.shifted ((base : ℤ) - origin)
        "clip timing overflow" with
    | .error error => .error error
    | .ok samples => do
        let stop ← sampleEnd (samples.get (samples.len - 1))
        let _ ← okOr (checkedSub stop (samples.decodeTime 0)) overflow
        .ok (withSamples track samples (range.kept_valid.shifted hmoved)
          (by
            rw [len_shifted hmoved]
            exact len_pos_of_not_isEmpty range.kept_valid hempty))

/-- A track that holds some of another's samples, moved. -/
structure Moved (track : Track) (range : SampleRange track.samples)
    (origin base : ℕ) (moved : Track) : Prop where
  id : moved.id = track.id
  kind : moved.kind = track.kind
  timescale : moved.timescale = track.timescale
  len : moved.samples.len = range.stop - range.first
  origin_le : origin ≤ track.samples.decodeTime range.first
  decodeTime : ∀ i < moved.samples.len,
    moved.samples.decodeTime i + origin =
      track.samples.decodeTime (range.first + i) + base
  duration : ∀ i,
    (moved.samples.get i).duration =
      (track.samples.get (range.first + i)).duration

theorem Moved.nonempty {track moved : Track}
    {range : SampleRange track.samples} {origin base : ℕ}
    (h : Moved track range origin base moved) : range.first < range.stop := by
  have hpos := moved.samples_nonempty
  have hlen := h.len
  omega

/-- Where the moved samples end. -/
theorem Moved.endTime {track moved : Track}
    {range : SampleRange track.samples} {origin base : ℕ}
    (h : Moved track range origin base moved) :
    moved.endTime + origin =
      track.samples.decodeTime (range.first + (range.kept.len - 1)) +
        (track.samples.get (range.first + (range.kept.len - 1))).duration +
          base := by
  have hpos := moved.samples_nonempty
  have hlen : range.kept.len = moved.samples.len := by
    rw [range.len_kept, h.len]
  have htime := h.decodeTime (moved.samples.len - 1) (by omega)
  have hduration := h.duration (moved.samples.len - 1)
  unfold Track.endTime
  rw [hlen, hduration]
  omega

theorem shifted_eq {x y : SampleIndex} {delta : ℤ} {message : String}
    (h : x.shifted delta message = .ok y) :
    y = { x with shift := x.shift + delta } := by
  unfold SampleIndex.shifted at h
  split at h
  · split at h
    · cases h
    · exact (Except.ok.inj h).symm
  · exact (Except.ok.inj h).symm

theorem movedTrack_spec {track moved : Track}
    {range : SampleRange track.samples} {origin base : ℕ}
    (h : movedTrack track range origin base = .ok moved) :
    Moved track range origin base moved := by
  unfold movedTrack at h
  split at h
  · cases h
  rename_i hempty
  split at h
  · cases h
  rename_i horigin
  split at h
  · cases h
  rename_i samples hmoved
  obtain ⟨stop, -, h⟩ := bind_eq_ok_iff.mp h
  obtain ⟨duration, -, h⟩ := bind_eq_ok_iff.mp h
  obtain rfl := Except.ok.inj h
  have hvalid := range.kept_valid
  have hkept : 0 < range.kept.len := len_pos_of_not_isEmpty hvalid hempty
  have hlen := len_shifted hmoved
  have hfirst : range.kept.decodeTime 0 =
      track.samples.decodeTime range.first := rfl
  refine ⟨rfl, rfl, rfl, ?_, ?_, ?_, ?_⟩
  · rw [← range.len_kept, ← hlen]
    rfl
  · omega
  · intro i hi
    change i < samples.len at hi
    change samples.decodeTime i + origin = _
    have hnew := (hvalid.shifted hmoved).decodeTime_eq hi
    have hold := hvalid.decodeTime_eq (show i < range.kept.len by omega)
    have hsame : range.kept.decodeTime i =
        track.samples.decodeTime (range.first + i) := by
      simp only [SampleRange.kept, SampleIndex.window,
        SampleIndex.decodeTime, Nat.add_assoc, SampleIndex.moved]
    obtain rfl := shifted_eq hmoved
    dsimp only at hnew
    omega
  · intro i
    change (samples.get i).duration = _
    obtain rfl := shifted_eq hmoved
    simp only [SampleRange.kept, SampleIndex.window, SampleIndex.get,
      Nat.add_assoc]

/-! ## Trimming -/

theorem map_id_of_forall₂ {R : Track → Track → Prop}
    (hid : ∀ track moved, R track moved → moved.id = track.id)
    {tracks moved : List Track} (h : List.Forall₂ R tracks moved) :
    moved.map Track.id = tracks.map Track.id := by
  induction h with
  | nil => rfl
  | cons hhead _ ih => rw [List.map_cons, List.map_cons, hid _ _ hhead, ih]

/-- The index with every track replaced by another of the same id. -/
def mapTracks (index : MediaIndex) (f : Track → Result Track)
    (hid : ∀ track moved, f track = .ok moved → moved.id = track.id) :
    Result MediaIndex :=
  match hrun : index.tracks.mapM f with
  | .error error => .error error
  | .ok tracks =>
      .ok
        { tracks := tracks
          ids_unique := by
            rw [map_id_of_forall₂ hid (mapM_forall₂ hrun)]
            exact index.ids_unique }

theorem mapTracks_eq_ok {index moved : MediaIndex} {f : Track → Result Track}
    {hid : ∀ track moved, f track = .ok moved → moved.id = track.id}
    (h : mapTracks index f hid = .ok moved) :
    List.Forall₂ (fun track moved => f track = .ok moved) index.tracks
      moved.tracks := by
  unfold mapTracks at h
  split at h
  · cases h
  · rename_i tracks hrun
    obtain rfl := Except.ok.inj h
    exact mapM_forall₂ hrun

/-- What a window keeps of the reference track, and how much later than its
start the clip is moved so that no frame shows before it. -/
structure ReferenceCut where
  reference : Track
  range : SampleRange reference.samples
  origin : ℕ
  keptEnd : ℕ
  earliest : ℤ
  lead : ℕ

def referenceCut (index : TimedIndex) (window : ClipWindow) :
    Result ReferenceCut := do
  let reference ← referenceTrack index.toMediaIndex
  let range ← referenceWindow index reference window
  let kept := range.kept
  let origin := reference.samples.decodeTime range.first
  -- a window holds at least one sample
  let keptEnd ← sampleEnd (kept.get (kept.len - 1))
  let earliest := ((kept.iter.collect.map presented).min?).getD 0
  let later := (origin : ℤ) - earliest
  .ok
    { reference := reference
      range := range
      origin := origin
      keptEnd := keptEnd
      earliest := earliest
      lead := if 0 ≤ later ∧ later < 2 ^ 64 then later.toNat else 0 }

/-- What a clip keeps of one track, the instant of the window's start on the
track's own clock, and how much later than the clip's start it is moved. -/
structure TrackCut where
  track : Track
  range : SampleRange track.samples
  origin : ℕ
  lead : ℕ

/-- A track with the reference's id is the reference: ids are unique. -/
def trackCut (cut : ReferenceCut) (toTheEnd : Bool) (track : Track) :
    Result TrackCut :=
  if track.id = cut.reference.id then
    .ok ⟨cut.reference, cut.range, cut.origin, cut.lead⟩
  else do
    let timescale := cut.reference.timescale
    let origin ← rescale cut.origin timescale track.timescale
    let stop ← rescale cut.keptEnd timescale track.timescale
    let lead ← rescale cut.lead timescale track.timescale
    .ok ⟨track, followerWindow track origin stop toTheEnd, origin, lead⟩

def trimTrack (cut : ReferenceCut) (start : TimelinePosition)
    (toTheEnd : Bool) (track : Track) : Result Track := do
  let part ← trackCut cut toTheEnd track
  let ticks ← start.inTicks part.track.timescale
  let base ← okOr (checkedAdd (2 ^ 64) ticks part.lead) overflow
  movedTrack part.track part.range part.origin base

theorem trackCut_id {cut : ReferenceCut} {toTheEnd : Bool} {track : Track}
    {part : TrackCut} (h : trackCut cut toTheEnd track = .ok part) :
    part.track.id = track.id := by
  unfold trackCut at h
  split at h
  · rename_i hid
    obtain rfl := Except.ok.inj h
    exact hid.symm
  · obtain ⟨origin, -, h⟩ := bind_eq_ok_iff.mp h
    obtain ⟨stop, -, h⟩ := bind_eq_ok_iff.mp h
    obtain ⟨lead, -, h⟩ := bind_eq_ok_iff.mp h
    obtain rfl := Except.ok.inj h
    rfl

/-- Where a trimmed track comes from. -/
structure Placed (cut : ReferenceCut) (start : TimelinePosition)
    (toTheEnd : Bool) (track moved : Track) (part : TrackCut) (ticks : ℕ) :
    Prop where
  cut_eq : trackCut cut toTheEnd track = .ok part
  ticks_eq : start.inTicks part.track.timescale = .ok ticks
  moved : Moved part.track part.range part.origin (ticks + part.lead) moved

theorem trimTrack_spec {cut : ReferenceCut} {start : TimelinePosition}
    {toTheEnd : Bool} {track moved : Track}
    (h : trimTrack cut start toTheEnd track = .ok moved) :
    ∃ part ticks, Placed cut start toTheEnd track moved part ticks := by
  unfold trimTrack at h
  obtain ⟨part, hpart, h⟩ := bind_eq_ok_iff.mp h
  obtain ⟨ticks, hticks, h⟩ := bind_eq_ok_iff.mp h
  obtain ⟨base, hbase, h⟩ := bind_eq_ok_iff.mp h
  obtain ⟨-, rfl⟩ := checkedAdd_eq_some_iff.mp (okOr_eq_ok_iff.mp hbase)
  exact ⟨part, ticks, hpart, hticks, movedTrack_spec h⟩

theorem trimTrack_id {cut : ReferenceCut} {start : TimelinePosition}
    {toTheEnd : Bool} (track moved : Track)
    (h : trimTrack cut start toTheEnd track = .ok moved) :
    moved.id = track.id := by
  obtain ⟨part, ticks, hplaced⟩ := trimTrack_spec h
  rw [hplaced.moved.id, trackCut_id hplaced.cut_eq]

/-- A clip's samples, moved onto the sequence's timeline. -/
structure Trimmed where
  index : TimedIndex
  /-- Where this clip ends, which is where the next one starts. -/
  stop : TimelinePosition
  servedFromMs : ℕ
  servedToMs : ℕ
  /-- The span of the reference's decode times that was kept, on the file's
  own clock. -/
  spanFromMs : ℕ
  spanToMs : ℕ
  leadMs : ℕ

/-- Whether audio past the reference's last sample is kept. -/
def ReferenceCut.toTheEnd (cut : ReferenceCut) (trailing : Trailing) : Bool :=
  cut.range.stop == cut.reference.samples.len && trailing == .keep

/-- How long the clip is, in the reference's ticks. -/
def ReferenceCut.length (cut : ReferenceCut) : Result ℕ :=
  okOr
    ((checkedSub cut.keptEnd cut.origin).bind fun length =>
      checkedAdd (2 ^ 64) length cut.lead)
    overflow

/-- Cuts `index` down to `window` and moves every kept sample so the clip
starts at `start`. -/
def trim (index : TimedIndex) (window : ClipWindow) (start : TimelinePosition)
    (trailing : Trailing) : Result Trimmed := do
  let cut ← referenceCut index window
  let timescale := cut.reference.timescale
  let moved ← mapTracks index.toMediaIndex
    (trimTrack cut start (cut.toTheEnd trailing)) trimTrack_id
  let length ← cut.length
  let offset := index.presentationOffsetMs
  let duration ← rescale length timescale index.movieTimescale
  let stop ← start.after length timescale
  .ok
    { index :=
        { toMediaIndex := moved
          movieTimescale := index.movieTimescale
          duration := duration
          presentationOffsetMs := index.presentationOffsetMs }
      stop := stop
      servedFromMs :=
        ticksToMs
          (if 0 ≤ cut.earliest ∧ cut.earliest < 2 ^ 64 then
            cut.earliest.toNat
          else 0) timescale - offset
      servedToMs := ticksToMs cut.keptEnd timescale - offset
      spanFromMs := ticksToMs cut.origin timescale
      spanToMs := ticksToMs cut.keptEnd timescale
      leadMs := ticksToMs cut.lead timescale }

/-! ## What trimming does -/

theorem referenceTrack_eq (index : MediaIndex) :
    referenceTrack index = okOr index.reference
      (.unsupported "input has no audio or video track") := by
  unfold referenceTrack MediaIndex.reference MediaIndex.videoTracks
    MediaIndex.audioTracks
  rw [List.head?_filter, List.head?_filter]

/-- A reference cut holds what it says it does. -/
structure Referenced (index : TimedIndex) (window : ClipWindow)
    (cut : ReferenceCut) : Prop where
  reference : index.reference = some cut.reference
  window : referenceWindow index cut.reference window = .ok cut.range
  origin : cut.origin = cut.reference.samples.decodeTime cut.range.first
  keptEnd :
    cut.keptEnd =
      cut.reference.samples.decodeTime
          (cut.range.first + (cut.range.kept.len - 1)) +
        (cut.reference.samples.get
          (cut.range.first + (cut.range.kept.len - 1))).duration
  keptEnd_lt : cut.keptEnd < 2 ^ 64

theorem referenceCut_spec {index : TimedIndex} {window : ClipWindow}
    {cut : ReferenceCut} (h : referenceCut index window = .ok cut) :
    Referenced index window cut := by
  unfold referenceCut at h
  obtain ⟨reference, href, h⟩ := bind_eq_ok_iff.mp h
  obtain ⟨range, hrange, h⟩ := bind_eq_ok_iff.mp h
  obtain ⟨keptEnd, hend, h⟩ := bind_eq_ok_iff.mp h
  obtain rfl := Except.ok.inj h
  rw [referenceTrack_eq] at href
  obtain ⟨hlt, hend⟩ :=
    checkedAdd_eq_some_iff.mp (okOr_eq_ok_iff.mp hend)
  refine ⟨okOr_eq_ok_iff.mp href, hrange, rfl, ?_, ?_⟩
  · subst hend
    simp only [SampleRange.kept, SampleIndex.window, SampleIndex.get,
      SampleIndex.decodeTime, SampleIndex.moved, Nat.add_assoc]
  · subst hend
    exact hlt

/-- What a successful trim consists of. -/
structure Trims (index : TimedIndex) (window : ClipWindow)
    (start : TimelinePosition) (trailing : Trailing) (trimmed : Trimmed)
    (cut : ReferenceCut) (length : ℕ) : Prop where
  cut_eq : referenceCut index window = .ok cut
  tracks : List.Forall₂
    (fun track moved =>
      trimTrack cut start (cut.toTheEnd trailing) track = .ok moved)
    index.tracks trimmed.index.tracks
  length_eq : cut.length = .ok length
  stop : start.after length cut.reference.timescale = .ok trimmed.stop
  spanFromMs :
    trimmed.spanFromMs = ticksToMs cut.origin cut.reference.timescale
  spanToMs :
    trimmed.spanToMs = ticksToMs cut.keptEnd cut.reference.timescale
  leadMs : trimmed.leadMs = ticksToMs cut.lead cut.reference.timescale

theorem trim_spec {index : TimedIndex} {window : ClipWindow}
    {start : TimelinePosition} {trailing : Trailing} {trimmed : Trimmed}
    (h : trim index window start trailing = .ok trimmed) :
    ∃ cut length, Trims index window start trailing trimmed cut length := by
  unfold trim at h
  obtain ⟨cut, hcut, h⟩ := bind_eq_ok_iff.mp h
  obtain ⟨moved, hmoved, h⟩ := bind_eq_ok_iff.mp h
  obtain ⟨length, hlength, h⟩ := bind_eq_ok_iff.mp h
  obtain ⟨duration, -, h⟩ := bind_eq_ok_iff.mp h
  obtain ⟨stop, hstop, h⟩ := bind_eq_ok_iff.mp h
  obtain rfl := Except.ok.inj h
  exact ⟨cut, length, hcut, mapTracks_eq_ok hmoved, hlength, hstop, rfl, rfl,
    rfl⟩

/-- A track of the file is cut as itself. -/
theorem trackCut_track {index : MediaIndex} {cut : ReferenceCut}
    {toTheEnd : Bool} {track : Track} {part : TrackCut}
    (href : index.reference = some cut.reference)
    (htrack : track ∈ index.tracks)
    (h : trackCut cut toTheEnd track = .ok part) : part.track = track := by
  have hid := trackCut_id h
  unfold trackCut at h
  split at h
  · obtain rfl := Except.ok.inj h
    exact index.eq_of_id_eq (MediaIndex.reference_mem href) htrack hid
  · obtain ⟨origin, -, h⟩ := bind_eq_ok_iff.mp h
    obtain ⟨stop, -, h⟩ := bind_eq_ok_iff.mp h
    obtain ⟨lead, -, h⟩ := bind_eq_ok_iff.mp h
    obtain rfl := Except.ok.inj h
    rfl

theorem find?_of_forall₂ {R : Track → Track → Prop} {p : Track → Bool}
    (hp : ∀ track moved, R track moved → p moved = p track)
    {tracks moved : List Track} (h : List.Forall₂ R tracks moved) :
    (∀ track, tracks.find? p = some track →
      ∃ found, moved.find? p = some found ∧ R track found) ∧
    (tracks.find? p = none → moved.find? p = none) := by
  induction h with
  | nil => simp
  | @cons a b as bs hhead _ ih =>
      cases ha : p a with
      | true =>
          have hb := (hp _ _ hhead).trans ha
          rw [List.find?_cons_of_pos ha, List.find?_cons_of_pos hb]
          refine ⟨fun track htrack => ?_, fun hnone => by simp at hnone⟩
          obtain rfl := Option.some.inj htrack
          exact ⟨b, rfl, hhead⟩
      | false =>
          have hb := (hp _ _ hhead).trans ha
          rw [List.find?_cons_of_neg (by simp [ha]),
            List.find?_cons_of_neg (by simp [hb])]
          exact ih

section Trims

variable {index : TimedIndex} {window : ClipWindow}
  {start : TimelinePosition} {trailing : Trailing} {trimmed : Trimmed}
  {cut : ReferenceCut} {length : ℕ}

theorem Trims.referenced
    (h : Trims index window start trailing trimmed cut length) :
    Referenced index window cut :=
  referenceCut_spec h.cut_eq

theorem Trims.trimmedTracks
    (h : Trims index window start trailing trimmed cut length) :
    List.Forall₂
      (fun track moved => track ∈ index.tracks ∧
        trimTrack cut start (cut.toTheEnd trailing) track = .ok moved)
      index.tracks trimmed.index.tracks :=
  (List.forall₂_and_left _ _).mpr ⟨fun _ htrack => htrack, h.tracks⟩

theorem Trims.placed_of_trimTrack
    (h : Trims index window start trailing trimmed cut length)
    {track moved : Track} (htrack : track ∈ index.tracks)
    (hmoved : trimTrack cut start (cut.toTheEnd trailing) track = .ok moved) :
    ∃ part ticks,
      Placed cut start (cut.toTheEnd trailing) track moved part ticks ∧
        part.track = track := by
  obtain ⟨part, ticks, hplaced⟩ := trimTrack_spec hmoved
  exact ⟨part, ticks, hplaced,
    trackCut_track h.referenced.reference htrack hplaced.cut_eq⟩

/-- Every trimmed track holds samples of a track of the file. -/
theorem Trims.placed
    (h : Trims index window start trailing trimmed cut length) :
    List.Forall₂
      (fun track moved => ∃ part ticks,
        Placed cut start (cut.toTheEnd trailing) track moved part ticks ∧
          part.track = track)
      index.tracks trimmed.index.tracks :=
  h.trimmedTracks.imp fun _ _ htrimmed =>
    h.placed_of_trimTrack htrimmed.1 htrimmed.2

/-- The trimmed file's reference is the reference, trimmed. -/
theorem Trims.trimmed_reference
    (h : Trims index window start trailing trimmed cut length) :
    ∃ reference,
      trimmed.index.reference = some reference ∧
      trimTrack cut start (cut.toTheEnd trailing) cut.reference =
        .ok reference := by
  have hkind : ∀ track moved,
      (track ∈ index.tracks ∧
        trimTrack cut start (cut.toTheEnd trailing) track = .ok moved) →
      moved.kind = track.kind := by
    rintro track moved ⟨htrack, hmoved⟩
    obtain ⟨part, ticks, hplaced, rfl⟩ := h.placed_of_trimTrack htrack hmoved
    exact hplaced.moved.kind
  have hvideo := find?_of_forall₂ (p := fun track => track.kind == .video)
    (fun track moved hmoved => by rw [hkind track moved hmoved])
    h.trimmedTracks
  have haudio := find?_of_forall₂ (p := fun track => track.kind == .audio)
    (fun track moved hmoved => by rw [hkind track moved hmoved])
    h.trimmedTracks
  have href := h.referenced.reference
  unfold MediaIndex.reference MediaIndex.videoTracks
    MediaIndex.audioTracks at href ⊢
  rw [List.head?_filter, List.head?_filter] at href ⊢
  cases hsome : index.tracks.find? fun track => track.kind == .video with
  | some video =>
      rw [hsome] at href
      obtain rfl : video = cut.reference := by simpa using href
      obtain ⟨found, hfound, -, hmoved⟩ := hvideo.1 _ hsome
      exact ⟨found, by rw [hfound]; rfl, hmoved⟩
  | none =>
      rw [hsome] at href
      obtain ⟨found, hfound, -, hmoved⟩ := haudio.1 cut.reference
        (by simpa using href)
      exact ⟨found, by rw [hvideo.2 hsome, hfound]; rfl, hmoved⟩

theorem trimTrack_reference {toTheEnd : Bool} {moved : Track}
    (h : trimTrack cut start toTheEnd cut.reference = .ok moved) :
    ∃ ticks,
      start.inTicks cut.reference.timescale = .ok ticks ∧
      Moved cut.reference cut.range cut.origin (ticks + cut.lead) moved := by
  obtain ⟨part, ticks, hplaced⟩ := trimTrack_spec h
  have hpart := hplaced.cut_eq
  rw [trackCut, if_pos rfl] at hpart
  obtain rfl := Except.ok.inj hpart
  exact ⟨ticks, hplaced.ticks_eq, hplaced.moved⟩

theorem Trims.reference
    (h : Trims index window start trailing trimmed cut length) :
    ∃ reference ticks,
      trimmed.index.reference = some reference ∧
      start.inTicks cut.reference.timescale = .ok ticks ∧
      Moved cut.reference cut.range cut.origin (ticks + cut.lead)
        reference := by
  obtain ⟨reference, hreference, htrim⟩ := h.trimmed_reference
  obtain ⟨ticks, hticks, hmoved⟩ := trimTrack_reference htrim
  exact ⟨reference, ticks, hreference, hticks, hmoved⟩

theorem length_eq_ok_iff {cut : ReferenceCut} {length : ℕ} :
    cut.length = .ok length ↔
      cut.origin ≤ cut.keptEnd ∧ length < 2 ^ 64 ∧
        cut.keptEnd + cut.lead = length + cut.origin := by
  unfold ReferenceCut.length
  rw [okOr_eq_ok_iff, Option.bind_eq_some_iff]
  constructor
  · rintro ⟨span, hspan, hadd⟩
    obtain ⟨hle, rfl⟩ := checkedSub_eq_some_iff.mp hspan
    obtain ⟨hlt, rfl⟩ := checkedAdd_eq_some_iff.mp hadd
    exact ⟨hle, hlt, by omega⟩
  · rintro ⟨hle, hlt, heq⟩
    exact ⟨_, checkedSub_eq_some_iff.mpr ⟨hle, rfl⟩,
      checkedAdd_eq_some_iff.mpr ⟨by omega, by omega⟩⟩

/-- The clip's reference ends as long after the clip's start as the clip is
long. -/
theorem Trims.reference_end
    (h : Trims index window start trailing trimmed cut length) :
    ∃ reference ticks,
      trimmed.index.reference = some reference ∧
      reference.timescale = cut.reference.timescale ∧
      start.inTicks cut.reference.timescale = .ok ticks ∧
      trackEnd reference = .ok (ticks + length) := by
  obtain ⟨reference, ticks, hreference, hticks, hmoved⟩ := h.reference
  have heq := hmoved.endTime
  obtain ⟨-, -, hlength⟩ := length_eq_ok_iff.mp h.length_eq
  rw [← h.referenced.keptEnd] at heq
  refine ⟨reference, ticks, hreference, hmoved.timescale, hticks, ?_⟩
  rw [trackEnd_eq]
  congr 1
  omega

end Trims

end Clip

end Segmentor
