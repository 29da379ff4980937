import Segmentor.Clip
import Segmentor.General.Rounding
import Segmentor.HttpMessages
import Segmentor.Manifests

/-!
# The timeline of a sequence

A sequence's clips are trimmed in order, each to start where the one before
ends.  Positions are kept in nanoseconds and every clip is placed in its own
tracks' ticks.
-/

namespace Segmentor.Clip

open General

/-! ## The tracks a clip serves -/

/-- What to take of one kind of track. -/
inductive Pick
  | nothing
  | all
  | nth (number : ℕ)
  deriving DecidableEq, Repr

structure TrackSelection where
  video : Pick
  audio : Pick
  deriving DecidableEq, Repr

def Pick.canonical (letter : String) : Pick → Option String
  | .nothing => none
  | .all => some (letter ++ "0")
  | .nth number => some (letter ++ toString number)

def TrackSelection.canonical (selection : TrackSelection) : String :=
  "-".intercalate
    ([selection.video.canonical "v", selection.audio.canonical "a"].filterMap id)

/-- Whether the pick takes the track that is the `seen`th of its kind. -/
def Pick.takes (seen : ℕ) : Pick → Bool
  | .nothing => false
  | .all => true
  | .nth number => seen == number

/-- The selected tracks, after `videos` and `audios` tracks of each kind. -/
def TrackSelection.kept (selection : TrackSelection) :
    ℕ → ℕ → List Track → List Track
  | _, _, [] => []
  | videos, audios, track :: rest =>
      match track.kind with
      | .video =>
          if selection.video.takes (videos + 1) then
            track :: selection.kept (videos + 1) audios rest
          else selection.kept (videos + 1) audios rest
      | .audio =>
          if selection.audio.takes (audios + 1) then
            track :: selection.kept videos (audios + 1) rest
          else selection.kept videos (audios + 1) rest

/-- The track under another key. -/
def withKey (track : Track) (key : TrackKey) (hkind : key.kind = track.kind) :
    Track :=
  { track with key := key, key_kind := hkind }

/-- The tracks with new keys, after `audio` audio tracks. -/
def renumbered : ℕ → List Track → List Track
  | _, [] => []
  | audio, track :: rest =>
      match hkind : track.kind with
      | .video => withKey track .video hkind.symm :: renumbered audio rest
      | .audio =>
          withKey track (.audio (audio + 1)) hkind.symm ::
            renumbered (audio + 1) rest

theorem kept_sublist (selection : TrackSelection) (videos audios : ℕ)
    (tracks : List Track) :
    (selection.kept videos audios tracks).Sublist tracks := by
  induction tracks generalizing videos audios with
  | nil => exact .slnil
  | cons track rest ih =>
      unfold TrackSelection.kept
      split <;> split
      · exact (ih _ _).cons_cons _
      · exact (ih _ _).cons _
      · exact (ih _ _).cons_cons _
      · exact (ih _ _).cons _

theorem renumbered_rel (audio : ℕ) (tracks : List Track) :
    List.Forall₂ (fun track renamed => ∃ key hkind,
      renamed = withKey track key hkind) tracks (renumbered audio tracks) := by
  induction tracks generalizing audio with
  | nil => exact .nil
  | cons track rest ih =>
      unfold renumbered
      split
      · exact .cons ⟨_, _, rfl⟩ (ih _)
      · exact .cons ⟨_, _, rfl⟩ (ih _)

theorem map_id_renumbered (audio : ℕ) (tracks : List Track) :
    (renumbered audio tracks).map Track.id = tracks.map Track.id := by
  refine map_id_of_forall₂ ?_ (renumbered_rel audio tracks)
  rintro track renamed ⟨key, hkind, rfl⟩
  rfl

/-- The file with the selected tracks only, its audio tracks numbered afresh. -/
def narrow (index : TimedIndex) : Option TrackSelection → Result TimedIndex
  | none => .ok index
  | some selection =>
      let kept := selection.kept 0 0 index.tracks
      if kept.isEmpty then
        .error (.invalidMedia
          s!"tracks `{selection.canonical}` selects no track of this file")
      else
        .ok
          { index with
            tracks := renumbered 0 kept
            ids_unique := by
              rw [map_id_renumbered]
              exact ((kept_sublist selection 0 0 index.tracks).map
                Track.id).nodup index.ids_unique }

/-! ## Trimming every clip -/

/-- What one clip is made from: its file, its window, and the tracks of the
file it serves. -/
structure ClipPlan (files : List TimedIndex) where
  file : Fin files.length
  window : ClipWindow
  tracks : Option TrackSelection

/-- An error, with the clip it is about. -/
def clipError (position : ℕ) (error : Error) : Error :=
  .invalidMedia s!"clip {position}: {error.text}"

/-- Trims the clips in order, the first of them, clip `position`, to start at
`start`.  Each comes with where it starts; last is where they all end. -/
def trimClips {files : List TimedIndex} :
    ℕ → TimelinePosition → List (ClipPlan files) →
      Result (List (TimelinePosition × Trimmed) × TimelinePosition)
  | _, start, [] => .ok ([], start)
  | position, start, clip :: rest => do
      let trailing := if rest.isEmpty then Trailing.keep else Trailing.cut
      let index ← (narrow files[clip.file] clip.tracks).mapError
        (clipError position)
      let cut ← (trim index clip.window start trailing).mapError
        (clipError position)
      let (others, total) ← trimClips (position + 1) cut.stop rest
      .ok ((start, cut) :: others, total)

/-- How a clip's representations are addressed: their first fragments' decode
times are the clip's start in the track's ticks, rounded down. -/
def clipAddressing (firstSegment position : ℕ) (start : TimelinePosition)
    (track : Track) : Result Addressing :=
  let offset := start.nanos * track.timescale / 1000000000
  if offset < 2 ^ 64 then
    .ok
      { startNumber := firstSegment
        clip := some position
        presentationTimeOffset := some offset }
  else .error (.invalidMedia "period offset overflow")

/-! ## Positions and ticks -/

theorem toWord_eq_ok_iff {value word : ℕ} :
    toWord value = .ok word ↔ value < 2 ^ 64 ∧ value = word := by
  unfold toWord
  constructor
  · intro h
    split at h
    · rename_i hlt
      exact ⟨hlt, Except.ok.inj h⟩
    · cases h
  · rintro ⟨hlt, rfl⟩
    rw [if_pos hlt]

theorem inTicks_eq_ok_iff {position : TimelinePosition}
    {timescale ticks : ℕ} :
    position.inTicks timescale = .ok ticks ↔
      rescaled position.nanos nanosPerSecond timescale < 2 ^ 64 ∧
        rescaled position.nanos nanosPerSecond timescale = ticks :=
  toWord_eq_ok_iff

theorem after_eq_ok {position later : TimelinePosition}
    {ticks timescale : ℕ} (h : position.after ticks timescale = .ok later) :
    later.nanos =
      position.nanos + rescaled ticks timescale nanosPerSecond := by
  unfold TimelinePosition.after at h
  obtain ⟨nanos, hnanos, h⟩ := bind_eq_ok_iff.mp h
  obtain ⟨-, rfl⟩ := checkedDiv_eq_some_iff.mp (okOr_eq_ok_iff.mp hnanos)
  split at h
  · obtain rfl := Except.ok.inj h
    rfl
  · cases h

/-- How long a clip is, exactly, in seconds. -/
def ReferenceCut.seconds (cut : ReferenceCut) : ℚ :=
  ((cut.keptEnd : ℚ) - cut.origin + cut.lead) / cut.reference.timescale

def ClipPlan.seconds {files : List TimedIndex} (clip : ClipPlan files) : ℚ :=
  match (narrow files[clip.file] clip.tracks).bind fun index =>
    referenceCut index clip.window with
  | .ok cut => cut.seconds
  | .error _ => 0

/-- The nanoseconds a clip moves the timeline on by are its length, rounded
down. -/
theorem Trims.nanos_eq {index : TimedIndex} {window : ClipWindow}
    {start : TimelinePosition} {trailing : Trailing} {trimmed : Trimmed}
    {cut : ReferenceCut} {length : ℕ}
    (h : Trims index window start trailing trimmed cut length) :
    0 ≤ cut.seconds ∧
      trimmed.stop.nanos =
        start.nanos + ⌊nanosPerSecond * cut.seconds⌋₊ := by
  obtain ⟨-, -, hlength⟩ := length_eq_ok_iff.mp h.length_eq
  have hseconds : cut.seconds = (length : ℚ) / cut.reference.timescale := by
    have hcast : (cut.keptEnd : ℚ) + cut.lead = length + cut.origin := by
      exact_mod_cast hlength
    unfold ReferenceCut.seconds
    congr 1
    linarith
  refine ⟨by rw [hseconds]; positivity, ?_⟩
  rw [after_eq_ok h.stop, rescaled_eq_floor, hseconds]
  push_cast
  congr 2
  ring

/-- Between two clips in a row: on the earlier one's clock, the later one
starts where the earlier one's reference ends, or one tick before. -/
def JoinsWithinTick (earlier later : TimelinePosition × Trimmed) : Prop :=
  ∃ reference stop start,
    earlier.2.index.reference = some reference ∧
    trackEnd reference = .ok stop ∧
    later.1.inTicks reference.timescale = .ok start ∧
    stop - 1 ≤ start ∧ start ≤ stop

theorem Trims.joinsWithinTick {index : TimedIndex} {window : ClipWindow}
    {start : TimelinePosition} {trailing : Trailing} {trimmed : Trimmed}
    {cut : ReferenceCut} {length : ℕ}
    (h : Trims index window start trailing trimmed cut length)
    (hrate : cut.reference.timescale ≤ nanosPerSecond)
    {later : TimelinePosition × Trimmed} (hlater : later.1 = trimmed.stop) :
    JoinsWithinTick (start, trimmed) later := by
  obtain ⟨reference, ticks, hreference, hscale, hticks, hend⟩ :=
    h.reference_end
  obtain ⟨-, rfl⟩ := inTicks_eq_ok_iff.mp hticks
  obtain ⟨hle, hge⟩ := rescaled_append cut.reference.timescale_pos hrate
    start.nanos length
  have hstop := after_eq_ok h.stop
  rw [trackEnd_eq] at hend
  have hfits : reference.endTime < 2 ^ 64 :=
    reference.samples_valid.sample_end_lt
      (Nat.sub_lt reference.samples_nonempty one_pos)
  have hword := Except.ok.inj hend
  refine ⟨reference, _, rescaled trimmed.stop.nanos nanosPerSecond
    cut.reference.timescale, hreference, trackEnd_eq reference, ?_, ?_, ?_⟩
  · rw [hlater, hscale, inTicks_eq_ok_iff, hstop]
    exact ⟨by omega, rfl⟩
  · rw [hstop]
    omega
  · rw [hstop]
    omega

/-! ## Runs of the loop -/

/-- What one clip's entry is trimmed from. -/
structure TrimmedFrom {files : List TimedIndex} (clip : ClipPlan files)
    (start : TimelinePosition) (trimmed : Trimmed) (index : TimedIndex)
    (trailing : Trailing) (cut : ReferenceCut) (length : ℕ) : Prop where
  narrowed : narrow files[clip.file] clip.tracks = .ok index
  trims : Trims index clip.window start trailing trimmed cut length

/-- The entries of the clips from `start` to `total`. -/
inductive TrimmedInOrder {files : List TimedIndex} :
    TimelinePosition → List (ClipPlan files) →
      List (TimelinePosition × Trimmed) → TimelinePosition → Prop
  | nil (start : TimelinePosition) : TrimmedInOrder start [] [] start
  | cons {start total : TimelinePosition} {clip : ClipPlan files}
      {clips : List (ClipPlan files)} {trimmed : Trimmed}
      {entries : List (TimelinePosition × Trimmed)} {index : TimedIndex}
      {trailing : Trailing} {cut : ReferenceCut} {length : ℕ}
      (hclip : TrimmedFrom clip start trimmed index trailing cut length)
      (hrest : TrimmedInOrder trimmed.stop clips entries total) :
      TrimmedInOrder start (clip :: clips) ((start, trimmed) :: entries) total

theorem mapError_eq_ok {ε δ α : Type} {x : Except ε α} {f : ε → δ} {a : α}
    (h : x.mapError f = .ok a) : x = .ok a := by
  cases x with
  | error error => cases h
  | ok value =>
      obtain rfl := Except.ok.inj h
      rfl

section Runs

variable {files : List TimedIndex} {clips : List (ClipPlan files)}
  {entries : List (TimelinePosition × Trimmed)}
  {start total : TimelinePosition}

theorem trimClips_spec {position : ℕ}
    (h : trimClips position start clips = .ok (entries, total)) :
    TrimmedInOrder start clips entries total := by
  induction clips generalizing position start entries with
  | nil =>
      obtain ⟨rfl, rfl⟩ := Prod.mk.inj (Except.ok.inj h)
      exact .nil start
  | cons clip rest ih =>
      unfold trimClips at h
      obtain ⟨index, hindex, h⟩ := bind_eq_ok_iff.mp h
      obtain ⟨trimmed, htrim, h⟩ := bind_eq_ok_iff.mp h
      obtain ⟨⟨others, last⟩, hothers, h⟩ := bind_eq_ok_iff.mp h
      obtain ⟨rfl, rfl⟩ := Prod.mk.inj (Except.ok.inj h)
      obtain ⟨cut, length, htrims⟩ := trim_spec (mapError_eq_ok htrim)
      exact .cons ⟨mapError_eq_ok hindex, htrims⟩ (ih hothers)

theorem TrimmedFrom.seconds {clip : ClipPlan files} {trimmed : Trimmed}
    {index : TimedIndex} {trailing : Trailing} {cut : ReferenceCut}
    {length : ℕ}
    (h : TrimmedFrom clip start trimmed index trailing cut length) :
    clip.seconds = cut.seconds := by
  unfold ClipPlan.seconds
  rw [h.narrowed]
  change (match referenceCut index clip.window with
    | .ok cut => cut.seconds
    | .error _ => 0) = _
  rw [h.trims.cut_eq]

theorem narrow_timescale {index narrowed : TimedIndex}
    {selection : Option TrackSelection}
    (h : narrow index selection = .ok narrowed) {track : Track}
    (htrack : track ∈ narrowed.tracks) :
    ∃ own ∈ index.tracks, track.timescale = own.timescale := by
  cases selection with
  | none =>
      obtain rfl := Except.ok.inj h
      exact ⟨track, htrack, rfl⟩
  | some selection =>
      unfold narrow at h
      dsimp only at h
      split at h
      · cases h
      · obtain rfl := Except.ok.inj h
        obtain ⟨own, hown, key, hkind, rfl⟩ :=
          exists_mem_of_forall₂ (renumbered_rel _ _).flip htrack
        exact ⟨own, (kept_sublist _ _ _ _).subset hown, rfl⟩

theorem TrimmedInOrder.nanos_eq (h : TrimmedInOrder start clips entries total)
    {n : ℕ} {position : TimelinePosition}
    (hposition :
      (entries.map Prod.fst ++ [total])[n]? = some position) :
    n ≤ clips.length ∧
    (∀ seconds ∈ (clips.take n).map ClipPlan.seconds, 0 ≤ seconds) ∧
      position.nanos = start.nanos +
        ((clips.take n).map fun clip =>
          ⌊(nanosPerSecond : ℚ) * clip.seconds⌋₊).sum := by
  induction h generalizing n with
  | nil start =>
      cases n with
      | zero =>
          obtain rfl := Option.some.inj hposition
          simp
      | succ n => simp at hposition
  | cons hclip hrest ih =>
      cases n with
      | zero =>
          obtain rfl := Option.some.inj hposition
          simp
      | succ n =>
          obtain ⟨hn, hnonneg, hnanos⟩ := ih hposition
          obtain ⟨hlength, hstop⟩ := hclip.trims.nanos_eq
          rw [← hclip.seconds] at hlength hstop
          rw [List.length_cons, List.take_succ_cons, List.map_cons,
            List.map_cons, List.sum_cons]
          refine ⟨by omega, ?_, by omega⟩
          exact List.forall_mem_cons.mpr ⟨hlength, hnonneg⟩

theorem TrimmedInOrder.joined (h : TrimmedInOrder start clips entries total)
    (hrate : ∀ file ∈ files, ∀ track ∈ file.tracks,
      track.timescale ≤ nanosPerSecond)
    {earlier later : TimelinePosition × Trimmed}
    (hpair : [earlier, later] <:+: entries) :
    JoinsWithinTick earlier later := by
  induction h with
  | nil start => simp at hpair
  | @cons start total clip clips trimmed entries index trailing cut length
      hclip hrest ih =>
      rcases List.infix_cons_iff.mp hpair with hprefix | hinfix
      · obtain ⟨rfl, hnextPrefix⟩ := List.cons_prefix_cons.mp hprefix
        cases hrest with
        | nil => simp at hnextPrefix
        | cons hnext hafter =>
            have hlater := (List.cons_prefix_cons.mp hnextPrefix).1
            obtain ⟨own, hown, hscale⟩ := narrow_timescale hclip.narrowed
              (MediaIndex.reference_mem hclip.trims.referenced.reference)
            refine hclip.trims.joinsWithinTick ?_
              (congrArg Prod.fst hlater)
            rw [hscale]
            exact hrate _ (List.get_mem files clip.file) own hown
      · exact ih hinfix

/-- A clip's tracks are addressed from the ticks their samples were placed
from: their bases less the leads. -/
def AddressedAsTrimmed (clip : ClipPlan files)
    (entry : TimelinePosition × Trimmed) : Prop :=
  ∃ index cut toTheEnd,
    narrow files[clip.file] clip.tracks = .ok index ∧
    referenceCut index clip.window = .ok cut ∧
    List.Forall₂
      (fun track moved => ∃ part offset,
        trackCut cut toTheEnd track = .ok part ∧
        Moved part.track part.range part.origin (offset + part.lead) moved ∧
        ∀ firstSegment position,
          clipAddressing firstSegment position entry.1 moved =
            .ok ⟨firstSegment, some position, some offset⟩)
      index.tracks entry.2.index.tracks

theorem clipAddressing_eq {track : Track} {ticks : ℕ}
    (h : start.inTicks track.timescale = .ok ticks)
    (firstSegment position : ℕ) :
    clipAddressing firstSegment position start track =
      .ok ⟨firstSegment, some position, some ticks⟩ := by
  obtain ⟨hlt, rfl⟩ := toWord_eq_ok_iff.mp h
  unfold clipAddressing
  exact if_pos hlt

theorem TrimmedInOrder.addressed
    (h : TrimmedInOrder start clips entries total) :
    List.Forall₂ AddressedAsTrimmed clips entries := by
  induction h with
  | nil start => exact .nil
  | @cons start total clip clips trimmed entries index trailing cut length
      hclip hrest ih =>
      refine .cons ⟨index, cut, cut.toTheEnd trailing, hclip.narrowed,
        hclip.trims.cut_eq, ?_⟩ ih
      apply hclip.trims.tracks.imp
      intro track moved hmoved
      obtain ⟨part, ticks, hplaced⟩ := trimTrack_spec hmoved
      refine ⟨part, ticks, hplaced.cut_eq, hplaced.moved, ?_⟩
      apply clipAddressing_eq
      rw [hplaced.moved.timescale]
      exact hplaced.ticks_eq

/-- Clips join within a tick, positions fall behind by less than a nanosecond
for each clip, and every track of every clip is addressed from where its
samples were placed. -/
theorem clips_join_without_drift
    (hrate : ∀ file ∈ files, ∀ track ∈ file.tracks,
      track.timescale ≤ 1000000000)
    (h : trimClips 0 .zero clips = .ok (entries, total)) :
    (∀ earlier later, [earlier, later] <:+: entries →
      JoinsWithinTick earlier later) ∧
    (∀ (n : ℕ) (position : TimelinePosition),
      (entries.map Prod.fst ++ [total])[n]? = some position →
        (1000000000 * ((clips.take n).map ClipPlan.seconds).sum : ℚ) - n ≤
            position.nanos ∧
          (position.nanos : ℚ) ≤
            1000000000 * ((clips.take n).map ClipPlan.seconds).sum) ∧
    List.Forall₂ AddressedAsTrimmed clips entries := by
  have hrun := trimClips_spec h
  refine ⟨fun earlier later hpair => hrun.joined hrate hpair, ?_,
    hrun.addressed⟩
  intro n position hposition
  obtain ⟨hn, hnonneg, hnanos⟩ := hrun.nanos_eq hposition
  have hbounds := @sum_floor_bounds
    (((clips.take n).map ClipPlan.seconds).map
      fun seconds => (nanosPerSecond : ℚ) * seconds) (by
    intro value hvalue
    obtain ⟨seconds, hseconds, rfl⟩ := List.mem_map.mp hvalue
    exact mul_nonneg (by positivity) (hnonneg seconds hseconds))
  rw [List.sum_map_mul_left, List.map_id', List.map_map, List.map_map,
    List.length_map, List.length_map, List.length_take,
    Nat.min_eq_left hn] at hbounds
  have hzero : position.nanos =
      ((clips.take n).map fun clip =>
        ⌊(nanosPerSecond : ℚ) * clip.seconds⌋₊).sum := by
    rw [hnanos]
    exact Nat.zero_add _
  rw [hzero]
  exact ⟨hbounds.2, hbounds.1⟩

end Runs

/-- Five frames at 30000/1001 Hz, each shown a frame before it is decoded, and
eight audio frames. -/
def reorderedFile : TimedIndex where
  tracks :=
    [.checked 1 .video 90000
       (.new ⟨[9, 9, 9, 9, 9], [⟨0, 0⟩], [⟨0, 0, 3003⟩], [⟨0, -3003⟩], some [0]⟩)
       (by decide),
     .checked 2 (.audio 1) 44100
       (.new ⟨[5, 5, 5, 5, 5, 5, 5, 5], [⟨0, 45⟩], [⟨0, 0, 1024⟩], [], none⟩)
       (by decide)]
  ids_unique := by decide
  movieTimescale := 1000
  duration := 167
  presentationOffsetMs := 0

/-- The whole file, twice. -/
def repeatedClips : List (ClipPlan [reorderedFile]) :=
  [⟨0, ⟨0, none⟩, none⟩, ⟨0, ⟨0, none⟩, none⟩]

theorem repeatedClips_join :
    ∃ entries total,
      trimClips 0 .zero repeatedClips = .ok (entries, total) ∧
        (∀ earlier later, [earlier, later] <:+: entries →
          JoinsWithinTick earlier later) ∧
        List.Forall₂ AddressedAsTrimmed repeatedClips entries := by
  obtain ⟨⟨entries, total⟩, hrun⟩ := exists_ok_of_isOk
    (show (trimClips 0 .zero repeatedClips).isOk = true by decide)
  obtain ⟨hjoin, -, haddressed⟩ := clips_join_without_drift (by decide) hrun
  exact ⟨entries, total, hrun, hjoin, haddressed⟩

end Segmentor.Clip
