import Segmentor.FollowedAudio
import Segmentor.General.RelatedLists
import Segmentor.KeyPeriods
import Segmentor.RenditionAlignment
import Mathlib.Data.List.FinRange

/-!
# Grids of renditions

The renditions of a title, or of one clip of it, are sorted into those with
video and those with audio only, compared with each other, and their audio is
made one group.  An adaptive sequence has a grid for each clip.  Every
rendition keeps its tracks from clip to clip, so the grids are all laid out as
the first.
-/

namespace Segmentor

open General

/-! ## One grid -/

namespace RenditionFile

variable (file : RenditionFile)

def hasKind (kind : TrackKind) : Bool :=
  file.asset.index.tracks.any fun track => track.kind == kind

/-- The keys of the audio tracks, in file order. -/
def audioKeys : List TrackKey :=
  (file.asset.index.tracks.filter fun track => track.kind == .audio).map
    Track.key

end RenditionFile

def noVideoRendition : Error :=
  .invalidMedia "an adaptive asset needs at least one video rendition"

def checkKind (entry : RenditionEntry RenditionFile) : Result Unit :=
  if entry.asset.hasKind .video || entry.asset.hasKind .audio then .ok ()
  else
    .error (.invalidMedia (s!"rendition `{String.ofList entry.id}` has " ++
      "neither a video nor an audio track"))

/-- The renditions with video, and those with audio only. -/
def classifyRenditions (renditions : List (RenditionEntry RenditionFile)) :
    Result (List (RenditionEntry RenditionFile) ×
      List (RenditionEntry RenditionFile)) := do
  renditions.forM checkKind
  let video := renditions.filter fun entry => entry.asset.hasKind .video
  if video.isEmpty then .error noVideoRendition
  else
    .ok (video, renditions.filter fun entry => !entry.asset.hasKind .video)

/-- The audio of every audio-only rendition, or else that of the first video
rendition that has any. -/
def buildAudioGroup (video audioOnly : List (RenditionEntry RenditionFile)) :
    List (AudioEntry video.length audioOnly.length) :=
  if audioOnly.isEmpty then
    (video.findFinIdx? fun entry => entry.asset.hasKind .audio).elim []
      fun index => (video.get index).asset.audioKeys.map fun key =>
        { owner := .video index, internalKey := key }
  else
    (List.finRange audioOnly.length).flatMap fun index =>
      (audioOnly.get index).asset.audioKeys.map fun key =>
        { owner := .dedicated index, internalKey := key }

/-- A rendition with video as its key periods are compared. -/
def RenditionEntry.videoEntry (entry : RenditionEntry RenditionFile) :
    VideoEntry where
  id := String.ofList entry.id
  asset := entry.asset.asset

/-- Sorts the renditions, checks that a player can switch between those with
video, and builds the audio group. -/
def prepareClip (renditions : List (RenditionEntry RenditionFile)) :
    Result (ClipGrid RenditionFile) := do
  let (video, audioOnly) ← classifyRenditions renditions
  checkAlignment video
  checkKeyPeriods (video.map RenditionEntry.videoEntry)
  .ok
    { video := video
      audioOnly := audioOnly
      audio := buildAudioGroup video audioOnly }

/-! ## The tracks of a rendition in every clip -/

/-- A file's tracks by name, each with its codec's family and string. -/
def layout (file : RenditionFile) : List (String × ℕ × Text) :=
  (file.asset.index.tracks.map fun track =>
    let codec := (file.details track.id).codec
    (track.key.text, codec.ctorIdx, codec.codecs)).mergeSort
      fun a b => a.1 ≤ b.1

def layoutNames (tracks : List (String × ℕ × Text)) : String :=
  ", ".intercalate (tracks.map Prod.fst)

def checkLayout (expected found : List (String × ℕ × Text)) (position : ℕ) :
    Result Unit :=
  if expected.map Prod.fst ≠ found.map Prod.fst then
    .error (.invalidMedia (s!"clips 0 and {position} have different tracks " ++
      s!"({layoutNames expected} vs {layoutNames found})"))
  else
    match (expected.zip found).find? fun (a, b) => a.2.1 != b.2.1 with
    | some ((key, _, codec), (_, _, other)) =>
        .error (.invalidMedia (s!"clips 0 and {position} use different " ++
          s!"codecs for track `{key}` ({String.ofList codec} vs " ++
          s!"{String.ofList other})"))
    | none => .ok ()

/-- Every clip must have the tracks of the first, with the same codecs. -/
def checkLayouts : List RenditionFile → Result Unit
  | [] => .error (.invalidMedia "a sequence needs at least one clip")
  | first :: rest => (rest.zipIdx 1).forM fun (clip, position) =>
      checkLayout (layout first) (layout clip) position

/-! ## A grid for each clip -/

namespace Clip

def TimelinePosition.millis (position : TimelinePosition) : ℕ :=
  position.nanos / 1000000

/-- Every clip must end where the first does. -/
def checkClipLengths (position : ℕ) (toleranceMs : ℤ) :
    List (String × TimelinePosition) → Result Unit
  | [] => .ok ()
  | (firstId, firstEnd) :: rest => rest.forM fun (id, stop) =>
      if toleranceMs < |(stop.millis : ℤ) - firstEnd.millis| then
        .error (.invalidMedia (s!"renditions `{firstId}` and `{id}` differ " ++
          s!"in the length of clip {position} ({firstEnd.millis} ms vs " ++
          s!"{stop.millis} ms)"))
      else .ok ()

/-- Audio-only clips may also end a frame of theirs apart. -/
def checkAudioLengths (position : ℕ) (reference : String × TimelinePosition)
    (videoToleranceMs : ℤ) (audio : List (String × TimelinePosition × ℤ)) :
    Result Unit :=
  audio.forM fun (id, stop, frameMs) =>
    checkClipLengths position (videoToleranceMs + frameMs)
      [reference, (id, stop)]

def CutRow.entries (row : CutRow) : List (RenditionEntry RenditionFile) :=
  row.row.map fun (id, file) => { id := id.toList, asset := file }

/-- The grid of clip `position`, whose renditions must be equally long. -/
def CutRow.grid (row : CutRow) (position : ℕ) :
    Result (ClipGrid RenditionFile) := do
  let grid ← (prepareClip row.entries).mapError (clipError position)
  let tolerances ← grid.video.mapM RenditionEntry.sampleToleranceMs
  let toleranceMs : ℕ := tolerances.max?.getD 0
  checkClipLengths position toleranceMs row.videoEnds
  let reference ← okOr row.videoEnds.head? noVideoRendition
  checkAudioLengths position reference toleranceMs row.audioEnds
  .ok grid

section Rows

variable {files : List TimedIndex} {count : ℕ}

/-- Cuts the clips at `positions`, the first of them to start at `start`.
Each row comes with where it starts; last is where they all end. -/
def Cutter.cutRows (cutter : Cutter files)
    (renditions : List (RenditionPlan files count)) (hasVideo : List Bool) :
    List (Fin count) → TimelinePosition →
      Result (List (TimelinePosition × CutRow) × TimelinePosition)
  | [], start => .ok ([], start)
  | position :: rest, start => do
      let trailing :=
        if position.val + 1 = count then Trailing.keep else Trailing.cut
      let row ← cutter.cutRow renditions hasVideo position start trailing
      let (others, total) ← cutRows cutter renditions hasVideo rest row.next
      .ok ((start, row) :: others, total)

/-- One rendition's clip of every row. -/
def rendered (rows : List (TimelinePosition × CutRow)) (index : ℕ) :
    List RenditionFile :=
  rows.filterMap fun (_, row) => row.row[index]?.map Prod.snd

def checkRendition (rows : List (TimelinePosition × CutRow))
    (listed : RenditionPlan files count × ℕ) : Result Unit :=
  (checkLayouts (rendered rows listed.2)).mapError fun error =>
    .invalidMedia s!"rendition `{listed.1.id}`: {error.text}"

/-- The grids of the clips, where each of them starts, and where they end. -/
structure Grids where
  grids : List (ClipGrid RenditionFile)
  starts : List TimelinePosition
  total : TimelinePosition

/-- Cuts every rendition's clips onto one timeline and builds their grids.  A
single clip is an adaptive asset: nothing comes after it to be drifted. -/
def Cutter.build (cutter : Cutter files)
    (renditions : List (RenditionPlan files count)) : Result Grids := do
  if count = 0 ∨ renditions.isEmpty then
    .error (.invalidMedia ("every rendition of an adaptive sequence needs " ++
      "the same, non-zero number of clips"))
  else
    let hasVideo ← videoKinds renditions
    if !hasVideo.any id then .error noVideoRendition
    else
      let (rows, total) ←
        cutter.cutRows renditions hasVideo (List.finRange count) .zero
      renditions.zipIdx.forM (checkRendition rows)
      let grids ← rows.zipIdx.mapM fun ((_, row), position) =>
        if count = 1 then prepareClip row.entries else row.grid position
      .ok
        { grids := grids
          starts := rows.map Prod.fst
          total := total }

end Rows

end Clip

/-! ## Names of tracks -/

theorem TrackKey.text_audio (ordinal : ℕ) :
    (TrackKey.audio ordinal).text.toList =
      "audio-".toList ++ decimal ordinal := by
  change ("audio-" ++ toString ordinal).toList = _
  rw [String.toList_append]
  simp [decimal]

theorem TrackKey.text_eq_video_iff (key : TrackKey) :
    key.text = "video" ↔ key.kind = .video := by
  unfold text
  cases hkind : key.kind with
  | video => simp
  | audio =>
      simp only [reduceCtorEq, iff_false]
      intro h
      have hhead := congrArg (fun name => name.toList.head?) h
      change (TrackKey.audio key.ordinal).text.toList.head? = some 'v' at hhead
      rw [text_audio] at hhead
      cases hhead

/-- An audio track's name says which one it is. -/
theorem TrackKey.eq_audio_of_text {key : TrackKey} {ordinal : ℕ}
    (h : key.text = (TrackKey.audio ordinal).text) : key = .audio ordinal := by
  obtain ⟨kind, own⟩ := key
  cases kind with
  | video =>
      have hvideo := (TrackKey.text_eq_video_iff (.audio ordinal)).mp h.symm
      cases hvideo
  | audio =>
      have hnames := congrArg String.toList h
      change (TrackKey.audio own).text.toList = _ at hnames
      rw [text_audio, text_audio] at hnames
      have hdigits := List.append_cancel_left hnames
      have hown := congrArg (Nat.ofDigitChars 10 · 0) hdigits
      dsimp only [decimal] at hown
      rw [Nat.ofDigitChars_toDigits (by decide) (by decide),
        Nat.ofDigitChars_toDigits (by decide) (by decide)] at hown
      rw [hown]
      rfl

/-- Audio tracks are numbered in file order. -/
def MediaIndex.KeysInOrder (index : MediaIndex) : Prop :=
  ((index.tracks.map Track.key).filter fun key => key.kind == .audio).Pairwise
    fun a b => a.ordinal ≤ b.ordinal

theorem RenditionFile.audioKeys_eq (file : RenditionFile) :
    file.audioKeys =
      (file.asset.index.tracks.map Track.key).filter
        fun key => key.kind == .audio := by
  unfold audioKeys
  rw [List.filter_map]
  congr 2
  funext track
  exact congrArg (· == TrackKind.audio) track.key_kind.symm

theorem RenditionFile.hasKind_eq (file : RenditionFile) (kind : TrackKind) :
    file.hasKind kind =
      (file.asset.index.tracks.map Track.key).any fun key =>
        key.kind == kind := by
  unfold hasKind
  rw [List.any_map]
  congr 1
  funext track
  exact congrArg (· == kind) track.key_kind.symm

/-! ## The same tracks -/

/-- Two clips of one rendition. -/
structure SameTracks (a b : RenditionEntry RenditionFile) : Prop where
  id : a.id = b.id
  kind : ∀ kind, a.asset.hasKind kind = b.asset.hasKind kind
  keys : a.asset.audioKeys = b.asset.audioKeys

theorem names_layout (file : RenditionFile) :
    ((layout file).map Prod.fst).Perm
      (file.asset.index.tracks.map fun track => track.key.text) := by
  have hperm := ((List.mergeSort_perm (file.asset.index.tracks.map fun track =>
    let codec := (file.details track.id).codec
    (track.key.text, codec.ctorIdx, codec.codecs)) _).map Prod.fst :
      ((layout file).map Prod.fst).Perm _)
  rwa [List.map_map] at hperm

theorem checkLayouts_eq_ok {first : RenditionFile} {rest : List RenditionFile}
    (h : checkLayouts (first :: rest) = .ok ()) :
    ∀ clip ∈ rest, (layout first).map Prod.fst = (layout clip).map Prod.fst := by
  intro clip hclip
  obtain ⟨i, hi⟩ := List.mem_iff_getElem?.mp hclip
  have hmem : (clip, 1 + i) ∈ rest.zipIdx 1 := by
    rw [List.mk_mem_zipIdx_iff_le_and_getElem?_sub]
    exact ⟨by omega, by rwa [Nat.add_sub_cancel_left]⟩
  have hlayout := forM_eq_ok_iff.mp h _ hmem
  dsimp only at hlayout
  unfold checkLayout at hlayout
  split at hlayout
  · cases hlayout
  · rename_i hsame
    exact not_not.mp hsame

/-- Names that are the same are of the same tracks. -/
theorem sameTracks_of_names {a b : RenditionEntry RenditionFile}
    (hid : a.id = b.id) (ha : a.asset.asset.index.KeysInOrder)
    (hb : b.asset.asset.index.KeysInOrder)
    (h : (layout a.asset).map Prod.fst = (layout b.asset).map Prod.fst) :
    SameTracks a b := by
  have hnames : ((a.asset.asset.index.tracks.map Track.key).map
      TrackKey.text).Perm
        ((b.asset.asset.index.tracks.map Track.key).map TrackKey.text) := by
    have hfirst := (names_layout a.asset).symm
    rw [h] at hfirst
    rw [List.map_map, List.map_map]
    exact hfirst.trans (names_layout b.asset)
  have hcount : ∀ ordinal (keys : List TrackKey),
      keys.count (.audio ordinal) =
        (keys.map TrackKey.text).count (TrackKey.audio ordinal).text := by
    intro ordinal keys
    rw [List.count_eq_countP, List.count_eq_countP, List.countP_map]
    refine List.countP_congr fun key _ => ?_
    simp only [Function.comp_apply, beq_iff_eq]
    exact ⟨fun hkey => by rw [hkey], TrackKey.eq_audio_of_text⟩
  refine ⟨hid, fun kind => ?_, ?_⟩
  · have hany : ∀ keys : List TrackKey,
        (keys.any fun key => key.kind == kind) =
          (keys.map TrackKey.text).any fun name =>
            (name == "video") == (kind == .video) := by
      intro keys
      rw [List.any_map]
      congr 1
      funext key
      have hvideo : (key.text == "video") = (key.kind == .video) := by
        rw [Bool.eq_iff_iff, beq_iff_eq, beq_iff_eq, TrackKey.text_eq_video_iff]
      rw [Function.comp_apply, hvideo]
      cases key.kind <;> cases kind <;> rfl
    rw [RenditionFile.hasKind_eq, RenditionFile.hasKind_eq, hany, hany]
    exact hnames.any_eq
  · rw [RenditionFile.audioKeys_eq, RenditionFile.audioKeys_eq]
    refine List.Perm.eq_of_pairwise ?_ ha hb (List.perm_iff_count.mpr ?_)
    · intro x y hx hy hle hge
      obtain ⟨-, hx⟩ := List.mem_filter.mp hx
      obtain ⟨-, hy⟩ := List.mem_filter.mp hy
      obtain ⟨kind, own⟩ := x
      obtain ⟨other, number⟩ := y
      rw [beq_iff_eq] at hx hy
      dsimp only at hx hy hle hge
      rw [hx, hy, Nat.le_antisymm hle hge]
    · intro key
      by_cases hkind : key.kind = .audio
      · obtain ⟨kind, ordinal⟩ := key
        dsimp only at hkind
        subst hkind
        rw [List.count_filter (by rfl), List.count_filter (by rfl)]
        exact (hcount ordinal _).trans
          ((hnames.count_eq _).trans (hcount ordinal _).symm)
      · have hnone : ∀ keys : List TrackKey,
            (keys.filter fun key => key.kind == .audio).count key = 0 := by
          intro keys
          rw [List.count_eq_zero]
          intro hmem
          exact hkind (beq_iff_eq.mp (List.mem_filter.mp hmem).2)
        rw [hnone, hnone]

/-! ## What a grid consists of -/

section

variable {File : Type}

def ClipGrid.ownerEntry (grid : ClipGrid File)
    (owner : AudioOwner grid.video.length grid.audioOnly.length) :
    RenditionEntry File :=
  match owner with
  | .video index => grid.video.get index
  | .dedicated index => grid.audioOnly.get index

/-- The members of the audio group: the rendition each is of, and its key
there. -/
def ClipGrid.members (grid : ClipGrid File) :
    List (RenditionEntry File × TrackKey) :=
  grid.audio.map fun entry => (grid.ownerEntry entry.owner, entry.internalKey)

end

def videoEntries (renditions : List (RenditionEntry RenditionFile)) :
    List (RenditionEntry RenditionFile) :=
  renditions.filter fun entry => entry.asset.hasKind .video

/-- The renditions whose audio is shared: those with audio only, or else the
first of the others that has any. -/
def audioOwners (renditions : List (RenditionEntry RenditionFile)) :
    List (RenditionEntry RenditionFile) :=
  let audioOnly :=
    renditions.filter fun entry => !entry.asset.hasKind .video
  if audioOnly.isEmpty then
    ((videoEntries renditions).find? fun entry =>
      entry.asset.hasKind .audio).toList
  else audioOnly

/-- The audio tracks of those renditions, one rendition after the other. -/
def sharedTracks (renditions : List (RenditionEntry RenditionFile)) :
    List (RenditionEntry RenditionFile × TrackKey) :=
  (audioOwners renditions).flatMap fun entry =>
    entry.asset.audioKeys.map fun key => (entry, key)

/-- A grid of the renditions: its video renditions can be switched between. -/
structure GridOf (renditions : List (RenditionEntry RenditionFile))
    (grid : ClipGrid RenditionFile) : Prop where
  video : grid.video = videoEntries renditions
  nonempty : grid.video ≠ []
  aligned : checkAlignment grid.video = .ok ()
  members : grid.members = sharedTracks renditions

theorem members_buildAudioGroup
    (video audioOnly : List (RenditionEntry RenditionFile)) :
    ClipGrid.members ⟨video, audioOnly, buildAudioGroup video audioOnly⟩ =
      (if audioOnly.isEmpty then
        (video.find? fun entry => entry.asset.hasKind .audio).toList
      else audioOnly).flatMap fun entry =>
        entry.asset.audioKeys.map fun key => (entry, key) := by
  unfold ClipGrid.members buildAudioGroup
  dsimp only
  split
  · rw [List.find?_eq_map_findFinIdx?_getElem]
    cases video.findFinIdx? fun entry => entry.asset.hasKind .audio with
    | none => rfl
    | some index =>
        rw [Option.elim_some, List.map_map, Option.map_some,
          Option.toList_some, List.flatMap_singleton]
        rfl
  · rw [List.map_flatMap]
    have hget := List.map_get_finRange audioOnly
    conv_rhs => rw [← hget, List.flatMap_map]
    refine List.flatMap_congr fun index _ => ?_
    rw [List.map_map]
    rfl

theorem prepareClip_spec {renditions : List (RenditionEntry RenditionFile)}
    {grid : ClipGrid RenditionFile} (h : prepareClip renditions = .ok grid) :
    GridOf renditions grid := by
  unfold prepareClip at h
  obtain ⟨⟨video, audioOnly⟩, hsorted, h⟩ := bind_eq_ok_iff.mp h
  obtain ⟨⟨⟩, haligned, h⟩ := bind_eq_ok_iff.mp h
  obtain ⟨-, -, h⟩ := bind_eq_ok_iff.mp h
  obtain rfl := Except.ok.inj h
  unfold classifyRenditions at hsorted
  obtain ⟨-, -, hsorted⟩ := bind_eq_ok_iff.mp hsorted
  dsimp only at hsorted
  split at hsorted
  · cases hsorted
  · rename_i hnonempty
    obtain ⟨rfl, rfl⟩ := Prod.mk.inj (Except.ok.inj hsorted)
    refine ⟨rfl, fun hempty => hnonempty ?_, haligned,
      members_buildAudioGroup _ _⟩
    exact List.isEmpty_iff.mpr hempty

section

variable {a b : List (RenditionEntry RenditionFile)}

theorem videoEntries_same (h : List.Forall₂ SameTracks a b) :
    List.Forall₂ SameTracks (videoEntries a) (videoEntries b) := by
  refine List.rel_filter (fun x y hxy => ?_) h
  exact (Bool.eq_iff_iff.mp (hxy.kind .video))

theorem audioOwners_same (h : List.Forall₂ SameTracks a b) :
    List.Forall₂ SameTracks (audioOwners a) (audioOwners b) := by
  have hdedicated : List.Forall₂ SameTracks
      (a.filter fun entry => !entry.asset.hasKind .video)
      (b.filter fun entry => !entry.asset.hasKind .video) := by
    refine List.rel_filter (fun x y hxy => ?_) h
    change (!x.asset.hasKind .video) = true ↔ (!y.asset.hasKind .video) = true
    rw [hxy.kind .video]
  have hempty : (a.filter fun entry => !entry.asset.hasKind .video).isEmpty =
      (b.filter fun entry => !entry.asset.hasKind .video).isEmpty := by
    rw [Bool.eq_iff_iff, List.isEmpty_iff_length_eq_zero,
      List.isEmpty_iff_length_eq_zero, hdedicated.length_eq]
  unfold audioOwners
  dsimp only
  rw [hempty]
  split
  · have hsound := List.rel_filter (fun x y (hxy : SameTracks x y) =>
      Bool.eq_iff_iff.mp (hxy.kind .audio)) (videoEntries_same h)
    rw [← List.head?_filter, ← List.head?_filter]
    exact forall₂_head? hsound
  · exact hdedicated

/-- Clips of the same renditions share the same tracks. -/
theorem sharedTracks_same (h : List.Forall₂ SameTracks a b) :
    List.Forall₂ (fun x y => SameTracks x.1 y.1 ∧ x.2 = y.2) (sharedTracks a)
      (sharedTracks b) := by
  refine List.rel_flatMap (audioOwners_same h) fun x y hxy => ?_
  rw [hxy.keys, List.forall₂_map_left_iff, List.forall₂_map_right_iff,
    List.forall₂_same]
  exact fun key _ => ⟨hxy, rfl⟩

end

/-! ## Building the grids -/

namespace Clip

section Rows

variable {files : List TimedIndex} {count : ℕ} {cutter : Cutter files}
  {renditions : List (RenditionPlan files count)} {hasVideo : List Bool}

theorem trimTrack_key {index : MediaIndex} {cut : ReferenceCut}
    {start : TimelinePosition} {toTheEnd : Bool} {track moved : Track}
    (href : index.reference = some cut.reference)
    (htrack : track ∈ index.tracks)
    (h : trimTrack cut start toTheEnd track = .ok moved) :
    moved.key = track.key := by
  unfold trimTrack at h
  obtain ⟨part, hpart, h⟩ := bind_eq_ok_iff.mp h
  obtain ⟨ticks, -, h⟩ := bind_eq_ok_iff.mp h
  obtain ⟨base, -, h⟩ := bind_eq_ok_iff.mp h
  rw [← trackCut_track href htrack hpart]
  unfold movedTrack at h
  split at h
  · cases h
  split at h
  · cases h
  split at h
  · cases h
  obtain ⟨stop, -, h⟩ := bind_eq_ok_iff.mp h
  obtain ⟨length, -, h⟩ := bind_eq_ok_iff.mp h
  obtain rfl := Except.ok.inj h
  rfl

theorem keys_renumbered (audio : ℕ) (tracks : List Track) :
    (∀ key ∈ ((renumbered audio tracks).map Track.key).filter
        fun key => key.kind == .audio, audio < key.ordinal) ∧
      (((renumbered audio tracks).map Track.key).filter
        fun key => key.kind == .audio).Pairwise
          fun a b => a.ordinal ≤ b.ordinal := by
  induction tracks generalizing audio with
  | nil => exact ⟨List.forall_mem_nil _, .nil⟩
  | cons track rest ih =>
      unfold renumbered
      split
      · exact ih audio
      · obtain ⟨hlater, hsorted⟩ := ih (audio + 1)
        rw [List.map_cons, List.filter_cons_of_pos (by rfl)]
        refine ⟨List.forall_mem_cons.mpr ⟨Nat.lt_succ_self _, fun key hkey =>
          Nat.lt_of_succ_lt (hlater key hkey)⟩, .cons (fun key hkey => ?_)
            hsorted⟩
        exact (hlater key hkey).le

/-- The audio tracks of a clip are numbered in file order, as its file's
are. -/
theorem Cutter.keysInOrder_of_cut {rendition : RenditionPlan files count}
    {position : Fin count} {window : ClipWindow} {start : TimelinePosition}
    {trailing : Trailing} {clip : CutClip}
    (hfiles : ∀ file ∈ files, file.toMediaIndex.KeysInOrder)
    (h : cutter.cut rendition position window start trailing = .ok clip) :
    clip.asset.asset.index.KeysInOrder := by
  obtain ⟨narrowed, trimmed, cut, length, hcuts⟩ := Cutter.cut_spec h
  have hnarrowed : narrowed.toMediaIndex.KeysInOrder := by
    have hnarrow := hcuts.narrow_eq
    unfold narrow at hnarrow
    split at hnarrow
    · obtain rfl := Except.ok.inj hnarrow
      exact hfiles _ (List.getElem_mem _)
    · dsimp only at hnarrow
      split at hnarrow
      · cases hnarrow
      · obtain rfl := Except.ok.inj hnarrow
        exact (keys_renumbered 0 _).2
  have hkeys : narrowed.tracks.map Track.key =
      trimmed.index.tracks.map Track.key := by
    rw [← List.forall₂_eq_eq_eq, List.forall₂_map_left_iff,
      List.forall₂_map_right_iff]
    exact hcuts.trims.trimmedTracks.imp fun track moved htrimmed =>
      (trimTrack_key hcuts.trims.referenced.reference htrimmed.1
        htrimmed.2).symm
  rw [hcuts.asset]
  unfold MediaIndex.KeysInOrder
  rw [← hkeys]
  exact hnarrowed

/-- A row holds a clip of every rendition, in order. -/
theorem Cutter.row_entries {position : Fin count} {start : TimelinePosition}
    {trailing : Trailing} {row : CutRow}
    (hfiles : ∀ file ∈ files, file.toMediaIndex.KeysInOrder)
    (hlength : hasVideo.length = renditions.length)
    (h : cutter.cutRow renditions hasVideo position start trailing =
      .ok row) :
    List.Forall₂ (fun (rendition : RenditionPlan files count)
        (entry : RenditionEntry RenditionFile) =>
      entry.id = rendition.id.toList ∧ entry.asset.asset.index.KeysInOrder)
      renditions row.entries := by
  unfold Cutter.cutRow at h
  obtain ⟨videoCuts, hvideo, h⟩ := bind_eq_ok_iff.mp h
  obtain ⟨⟨window, reference⟩, hreference, h⟩ := bind_eq_ok_iff.mp h
  obtain ⟨audioStart, -, h⟩ := bind_eq_ok_iff.mp h
  obtain ⟨cuts, hcuts, h⟩ := bind_eq_ok_iff.mp h
  obtain rfl := Except.ok.inj h
  have hall := forall₂_of_zip (mapM_forall₂ hvideo) (mapM_forall₂ hcuts)
  have hclips : List.Forall₂ (fun (listed : RenditionPlan files count × Bool)
      (clip : CutClip) => clip.asset.asset.index.KeysInOrder)
      (renditions.zip hasVideo) cuts := by
    refine hall.imp fun listed clip hcut => ?_
    obtain ⟨videoCut, hown, hclip⟩ := hcut
    cases videoCut with
    | none => exact keysInOrder_of_cut hfiles hclip
    | some cut =>
        obtain rfl := Except.ok.inj hclip
        unfold Cutter.cutVideo at hown
        split at hown
        · obtain ⟨found, hfound, hown⟩ := bind_eq_ok_iff.mp hown
          obtain rfl := Option.some.inj (Except.ok.inj hown)
          exact keysInOrder_of_cut hfiles hfound
        · cases hown
  have hentries := (forall₂_map_zip hclips :
    List.Forall₂ _ _ (((renditions.zip hasVideo).zip cuts).map fun entry =>
      (entry.1.1.id, entry.2.asset)))
  have hfirst : (renditions.zip hasVideo).map Prod.fst = renditions :=
    List.map_fst_zip hlength.ge
  unfold CutRow.entries
  dsimp only
  rw [List.forall₂_map_right_iff]
  suffices hall : List.Forall₂ (fun (rendition : RenditionPlan files count)
      (entry : String × RenditionFile) => entry.1.toList = rendition.id.toList ∧
        entry.2.asset.index.KeysInOrder)
      ((renditions.zip hasVideo).map Prod.fst)
      (((renditions.zip hasVideo).zip cuts).map fun entry =>
        (entry.1.1.id, entry.2.asset)) by
    rwa [hfirst] at hall
  rw [List.forall₂_map_left_iff]
  refine hentries.imp fun listed entry hentry => ?_
  obtain ⟨clip, horder, rfl⟩ := hentry
  exact ⟨rfl, horder⟩

theorem Cutter.cutRows_entries {positions : List (Fin count)}
    {start total : TimelinePosition} {rows : List (TimelinePosition × CutRow)}
    (hfiles : ∀ file ∈ files, file.toMediaIndex.KeysInOrder)
    (hlength : hasVideo.length = renditions.length)
    (h : cutter.cutRows renditions hasVideo positions start =
      .ok (rows, total)) :
    rows.length = positions.length ∧ ∀ row ∈ rows,
      List.Forall₂ (fun (rendition : RenditionPlan files count)
          (entry : RenditionEntry RenditionFile) =>
        entry.id = rendition.id.toList ∧ entry.asset.asset.index.KeysInOrder)
        renditions row.2.entries := by
  induction positions generalizing start rows with
  | nil =>
      obtain ⟨rfl, rfl⟩ := Prod.mk.inj (Except.ok.inj h)
      exact ⟨rfl, List.forall_mem_nil _⟩
  | cons position positions ih =>
      unfold Cutter.cutRows at h
      obtain ⟨row, hrow, h⟩ := bind_eq_ok_iff.mp h
      obtain ⟨⟨others, stop⟩, hothers, h⟩ := bind_eq_ok_iff.mp h
      obtain ⟨rfl, rfl⟩ := Prod.mk.inj (Except.ok.inj h)
      obtain ⟨hcount, hrest⟩ := ih hothers
      exact ⟨congrArg Nat.succ hcount, List.forall_mem_cons.mpr
        ⟨row_entries hfiles hlength hrow, hrest⟩⟩

theorem names_eq_of_checkLayouts {clips : List RenditionFile}
    (h : checkLayouts clips = .ok ()) :
    ∀ a ∈ clips, ∀ b ∈ clips,
      (layout a).map Prod.fst = (layout b).map Prod.fst := by
  cases clips with
  | nil => cases h
  | cons first rest =>
      have hfirst : ∀ clip ∈ first :: rest,
          (layout first).map Prod.fst = (layout clip).map Prod.fst :=
        List.forall_mem_cons.mpr ⟨rfl, checkLayouts_eq_ok h⟩
      intro a ha b hb
      exact (hfirst a ha).symm.trans (hfirst b hb)

theorem CutRow.prepareClip_eq_ok {row : CutRow} {position : ℕ}
    {grid : ClipGrid RenditionFile} (h : row.grid position = .ok grid) :
    prepareClip row.entries = .ok grid := by
  unfold CutRow.grid at h
  obtain ⟨prepared, hprepared, h⟩ := bind_eq_ok_iff.mp h
  obtain ⟨tolerances, -, h⟩ := bind_eq_ok_iff.mp h
  obtain ⟨-, -, h⟩ := bind_eq_ok_iff.mp h
  obtain ⟨reference, -, h⟩ := bind_eq_ok_iff.mp h
  obtain ⟨-, -, h⟩ := bind_eq_ok_iff.mp h
  obtain rfl := Except.ok.inj h
  exact mapError_eq_ok hprepared

/-- The grids of a sequence: each is of clips of the same renditions. -/
structure GridsOf (rows : List (List (RenditionEntry RenditionFile)))
    (built : Grids) : Prop where
  grids : List.Forall₂ GridOf rows built.grids
  same : ∀ a ∈ rows, ∀ b ∈ rows, List.Forall₂ SameTracks a b
  ids : ∀ row ∈ rows, (row.map RenditionEntry.id).Nodup
  starts : built.starts.length = built.grids.length
  nonempty : built.grids ≠ []

/-- What is built of renditions with different ids is a grid for each clip, and
a rendition has the same tracks in all of them. -/
theorem Cutter.build_spec {built : Grids}
    (hids : (renditions.map RenditionPlan.id).Nodup)
    (hfiles : ∀ file ∈ files, file.toMediaIndex.KeysInOrder)
    (h : cutter.build renditions = .ok built) :
    ∃ rows, GridsOf rows built := by
  unfold Cutter.build at h
  split at h
  · cases h
  rename_i hcount
  obtain ⟨hasVideo, hkinds, h⟩ := bind_eq_ok_iff.mp h
  split at h
  · cases h
  obtain ⟨⟨rows, total⟩, hrows, h⟩ := bind_eq_ok_iff.mp h
  dsimp only at h
  obtain ⟨⟨⟩, hlayouts, h⟩ := bind_eq_ok_iff.mp h
  obtain ⟨grids, hgrids, h⟩ := bind_eq_ok_iff.mp h
  obtain rfl := Except.ok.inj h
  obtain ⟨hpositions, hentries⟩ := cutRows_entries hfiles
    (mapM_forall₂ hkinds).length_eq.symm hrows
  have hall := mapM_forall₂ hgrids
  refine ⟨rows.map fun row => row.2.entries, ?_, ?_, ?_, ?_, ?_⟩
  · have hpaired : List.Forall₂ (fun row grid => GridOf row grid)
        (rows.zipIdx.map fun entry => entry.1.2.entries) grids := by
      rw [List.forall₂_map_left_iff]
      refine hall.imp fun entry grid hgrid => ?_
      obtain ⟨⟨start, row⟩, position⟩ := entry
      dsimp only at hgrid
      split at hgrid
      · exact prepareClip_spec hgrid
      · exact prepareClip_spec (CutRow.prepareClip_eq_ok hgrid)
    have hsame : (rows.zipIdx.map fun entry => entry.1.2.entries) =
        rows.map fun row => row.2.entries := by
      conv_rhs => rw [← List.zipIdx_map_fst 0 rows, List.map_map]
      rfl
    rwa [hsame] at hpaired
  · simp only [List.forall_mem_map]
    intro a ha b hb
    have hfirst := List.forall₂_iff_get.mp (hentries a ha)
    have hsecond := List.forall₂_iff_get.mp (hentries b hb)
    refine List.forall₂_iff_get.mpr
      ⟨hfirst.1.symm.trans hsecond.1, fun i hi hj => ?_⟩
    have hlisted : i < renditions.length := hfirst.1.symm ▸ hi
    obtain ⟨hid, horder⟩ := hfirst.2 i hlisted hi
    obtain ⟨hother, hagain⟩ := hsecond.2 i hlisted hj
    refine sameTracks_of_names (hid.trans hother.symm) horder hagain ?_
    have hmem : ∀ row ∈ rows, ∀ (hget : i < row.2.entries.length),
        (row.2.entries.get ⟨i, hget⟩).asset ∈ rendered rows i := by
      rintro ⟨start, row⟩ hrow hget
      refine List.mem_filterMap.mpr ⟨_, hrow, ?_⟩
      have hlength : i < row.row.length := by
        simpa [CutRow.entries] using hget
      dsimp only
      rw [List.getElem?_eq_getElem hlength]
      simp [CutRow.entries]
    have hchecked := forM_eq_ok_iff.mp hlayouts (renditions[i], i)
      (List.mk_mem_zipIdx_iff_getElem?.mpr (List.getElem?_eq_getElem hlisted))
    exact names_eq_of_checkLayouts (mapError_eq_ok hchecked) _ (hmem a ha hi) _
      (hmem b hb hj)
  · simp only [List.forall_mem_map]
    intro row hrow
    have hnames : row.2.entries.map RenditionEntry.id =
        renditions.map fun rendition => rendition.id.toList := by
      rw [← List.forall₂_eq_eq_eq, List.forall₂_map_left_iff,
        List.forall₂_map_right_iff]
      exact (hentries row hrow).flip.imp fun _ _ hentry => hentry.1
    rw [hnames]
    have hlists := hids.map (f := String.toList) fun a b hab =>
      String.toList_injective hab
    rwa [List.map_map] at hlists
  · dsimp only
    rw [List.length_map, ← hall.length_eq, List.length_zipIdx]
  · intro hempty
    dsimp only at hempty
    rw [hempty] at hall
    have hlength := hall.length_eq
    rw [List.length_zipIdx, hpositions, List.length_finRange] at hlength
    exact hcount (.inl hlength)

end Rows

end Clip

end Segmentor
