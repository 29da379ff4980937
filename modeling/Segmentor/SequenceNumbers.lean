import Segmentor.FragmentNumbers
import Segmentor.RenderedTitles
import Segmentor.RenditionGrids
import Segmentor.Sequence

/-!
# Segment numbers across clips

The segments of a track are numbered on from clip to clip by the clips' plans,
and a request's number is taken back to a clip and a place in it.  A track may
have fewer segments than a clip's plan: the numbers between what it lists of
one clip and of the next belong to nothing.
-/

namespace Segmentor

open General

/-! ## What is listed of each clip -/

/-- The numbers in front of the first initialization section, and those behind
each of them. -/
def numbersByMap : List PlaylistLine → List ℕ × List (List ℕ)
  | [] => ([], [])
  | .map _ :: rest => ([], (numbersByMap rest).1 :: (numbersByMap rest).2)
  | .segment _ number :: rest =>
      (number :: (numbersByMap rest).1, (numbersByMap rest).2)
  | _ :: rest => numbersByMap rest

/-- The numbers a playlist lists of each clip, which are behind the clip's
initialization section. -/
def listedByClip (lines : List PlaylistLine) : List (List ℕ) :=
  (numbersByMap lines).2

/-- How many segments a view lists of a track. -/
def Presentation.listedCount (presentation : Presentation) (key : TrackKey) :
    ℕ :=
  match presentation.track key with
  | .ok track => (presentation.trackSegments track.id).length
  | .error _ => 0

theorem listedNumbers_eq_numbersByMap (lines : List PlaylistLine) :
    listedNumbers lines =
      (numbersByMap lines).1 ++ (numbersByMap lines).2.flatten := by
  induction lines with
  | nil => rfl
  | cons line lines ih =>
      have hcons : listedNumbers (line :: lines) =
          line.number.toList ++ listedNumbers lines := by
        unfold listedNumbers
        rw [List.filterMap_cons]
        cases line.number <;> rfl
      rw [hcons, ih]
      cases line <;> rfl

/-- Lines that start no clip. -/
def WithinClip (lines : List PlaylistLine) : Prop :=
  ∀ line ∈ lines, ∀ clip, line ≠ .map clip

theorem WithinClip.append {lines others : List PlaylistLine}
    (h : WithinClip lines) (hothers : WithinClip others) :
    WithinClip (lines ++ others) :=
  List.forall_mem_append.mpr ⟨h, hothers⟩

theorem withinClip_keys (lines : List KeyLine) :
    WithinClip (lines.map PlaylistLine.key) := by
  intro line hline clip
  obtain ⟨key, -, rfl⟩ := List.mem_map.mp hline
  simp

theorem withinClip_hlsKeyNone : WithinClip [hlsKeyNone] :=
  withinClip_keys [.clear]

theorem withinClip_single {line : PlaylistLine} (h : ∀ clip, line ≠ .map clip) :
    WithinClip [line] :=
  List.forall_mem_singleton.mpr h

theorem withinClip_of_if {condition : Prop} [Decidable condition]
    {lines : List PlaylistLine} (h : WithinClip lines) :
    WithinClip (if condition then lines else []) := by
  split
  · exact h
  · exact List.forall_mem_nil _

theorem withinClip_keyTransitionLines (previous current : Option PeriodKeys)
    (kind : TrackKind) :
    WithinClip (keyTransitionLines previous current kind) := by
  cases current with
  | none => exact withinClip_of_if withinClip_hlsKeyNone
  | some keys => exact withinClip_keys _

theorem withinClip_writeAes128Key (presentation : Presentation) :
    WithinClip (writeAes128Key presentation) := by
  unfold writeAes128Key
  cases presentation.aes128 with
  | none => exact List.forall_mem_nil _
  | some key => exact withinClip_single (by simp)

theorem withinClip_dueLines (kind : TrackKind) (number : ℕ)
    (periods : List ScheduledPeriod) :
    WithinClip (dueLines kind number periods).1 := by
  unfold dueLines
  split
  · exact List.forall_mem_nil _
  · split
    · unfold periodLines
      split
      · exact withinClip_keys _
      · exact withinClip_hlsKeyNone
    · exact List.forall_mem_nil _

theorem withinClip_segmentEntries {track : Track} {firstNumber offset : ℕ}
    {periods : List ScheduledPeriod} {segments : List TrackSegment}
    {lines : List PlaylistLine}
    (h : segmentEntries track firstNumber offset periods segments =
      .ok lines) : WithinClip lines := by
  induction segments generalizing offset periods lines with
  | nil =>
      obtain rfl := Except.ok.inj h
      exact List.forall_mem_nil _
  | cons segment segments ih =>
      unfold segmentEntries at h
      obtain ⟨milliseconds, -, h⟩ := bind_eq_ok_iff.mp h
      obtain ⟨number, -, h⟩ := bind_eq_ok_iff.mp h
      dsimp only at h
      obtain ⟨entries, hentries, h⟩ := bind_eq_ok_iff.mp h
      obtain rfl := Except.ok.inj h
      exact WithinClip.append (withinClip_dueLines _ _ _)
        (List.forall_mem_cons.mpr ⟨by simp, ih hentries⟩)

theorem numbersByMap_append {lines : List PlaylistLine} (h : WithinClip lines)
    (rest : List PlaylistLine) :
    numbersByMap (lines ++ rest) =
      (listedNumbers lines ++ (numbersByMap rest).1,
        (numbersByMap rest).2) := by
  induction lines with
  | nil => rfl
  | cons line lines ih =>
      obtain ⟨hline, hlines⟩ := List.forall_mem_cons.mp h
      rw [List.cons_append]
      cases line with
      | map clip => exact absurd rfl (hline clip)
      | segment milliseconds number =>
          rw [numbersByMap, ih hlines]
          rfl
      | opening target => exact ih hlines
      | discontinuity => exact ih hlines
      | key line => exact ih hlines
      | endList => exact ih hlines

theorem listedNumbers_of_if {condition : Prop} [Decidable condition]
    {lines : List PlaylistLine} (h : listedNumbers lines = []) :
    listedNumbers (if condition then lines else []) = [] := by
  split
  · exact h
  · rfl

theorem numbersByMap_clipLines {key : TrackKey} {position : ℕ}
    {previous : Option Encryption} {clips : List SequenceClip}
    {lines : List PlaylistLine}
    (h : clipLines key position previous clips = .ok lines) :
    numbersByMap lines = ([], listings (clips.map SequenceClip.firstSegment)
      (clips.map fun clip => clip.presentation.listedCount key)) := by
  induction clips generalizing position previous lines with
  | nil =>
      obtain rfl := Except.ok.inj h
      rfl
  | cons clip clips ih =>
      unfold clipLines at h
      obtain ⟨track, htrack, h⟩ := bind_eq_ok_iff.mp h
      dsimp only at h
      obtain ⟨entries, hentries, h⟩ := bind_eq_ok_iff.mp h
      obtain ⟨others, hothers, h⟩ := bind_eq_ok_iff.mp h
      obtain rfl := Except.ok.inj h
      have hcount : clip.presentation.listedCount key =
          (clip.presentation.trackSegments track.id).length := by
        unfold Presentation.listedCount
        rw [htrack]
      have hbreak : WithinClip
          (if 0 < position then [.discontinuity] else []) :=
        withinClip_of_if (withinClip_single (by simp))
      have hcleared : WithinClip
          (if 0 < position ∧ clip.presentation.aes128.isSome then [hlsKeyNone]
          else []) :=
        withinClip_of_if withinClip_hlsKeyNone
      have hkeys := withinClip_keyTransitionLines
        (previous.map Encryption.toPeriodKeys)
        (clip.presentation.encryption.map Encryption.toPeriodKeys) track.kind
      simp only [List.append_assoc]
      rw [numbersByMap_append hbreak,
        numbersByMap_append (withinClip_of_if hkeys),
        numbersByMap_append hcleared, List.singleton_append, numbersByMap,
        numbersByMap_append (withinClip_writeAes128Key _),
        numbersByMap_append (withinClip_segmentEntries hentries), ih hothers,
        listedNumbers_segmentEntries hentries, listedNumbers_writeAes128Key,
        listedNumbers_of_if rfl,
        listedNumbers_of_if (listedNumbers_keyTransitionLines ..),
        listedNumbers_of_if rfl, List.map_cons, List.map_cons, hcount,
        List.append_nil, Nat.add_zero]
      simp only [List.nil_append, List.append_nil]
      rfl

/-- What a sequence's playlist lists of each clip: as many numbers from the
clip's first on as the clip has segments of the track. -/
theorem listedByClip_sequenceMediaPlaylist {clips : List SequenceClip}
    {key : TrackKey} {lines : List PlaylistLine}
    (h : sequenceMediaPlaylist clips key = .ok lines) :
    listedByClip lines = listings (clips.map SequenceClip.firstSegment)
        (clips.map fun clip => clip.presentation.listedCount key) ∧
      listedNumbers lines = (listedByClip lines).flatten := by
  unfold sequenceMediaPlaylist at h
  obtain ⟨target, -, h⟩ := bind_eq_ok_iff.mp h
  obtain ⟨entries, hentries, h⟩ := bind_eq_ok_iff.mp h
  obtain rfl := Except.ok.inj h
  have hlines : numbersByMap (.opening target :: entries ++ [.endList]) =
      numbersByMap entries := by
    have hend : ∀ lines : List PlaylistLine,
        numbersByMap (lines ++ [.endList]) = numbersByMap lines := by
      intro lines
      induction lines with
      | nil => rfl
      | cons line lines ih =>
          rw [List.cons_append]
          cases line <;> simp only [numbersByMap, ih]
    exact hend (.opening target :: entries)
  rw [listedNumbers_eq_numbersByMap, listedByClip, hlines,
    numbersByMap_clipLines hentries]
  exact ⟨rfl, rfl⟩

/-! ## What a manifest lists of each clip -/

namespace Dash

def Adaptation.templates : Adaptation → List (Text × SegmentTemplate)
  | .video _ representations =>
      representations.map fun representation =>
        (representation.id, representation.template)
  | .audio adaptation => [(adaptation.id, adaptation.template)]
  | .text _ _ _ => []

/-- The template of the representation called `name`. -/
def Period.template (period : Period) (name : Text) : Option SegmentTemplate :=
  ((period.adaptations.flatMap Adaptation.templates).find? fun named =>
    named.1 == name).map Prod.snd

/-- The numbers a manifest lists of each clip, which are those of its
period. -/
def Mpd.listedByClip (mpd : Mpd) (name : Text) : List (List ℕ) :=
  mpd.periods.map fun period =>
    (period.template name).elim [] SegmentTemplate.numbers

end Dash

/-- A presentation of a planned file has one video track at most. -/
def Presentation.OneVideo (presentation : Presentation) : Prop :=
  (presentation.tracks.filter fun track => track.kind == .video).length ≤ 1

theorem PackagedAsset.oneVideo (asset : PackagedAsset) :
    asset.presentation.OneVideo := by
  obtain ⟨targetDurationMs, hplan⟩ := asset.planned
  obtain ⟨reference, ticks, h⟩ := plan_spec hplan
  exact h.videos

theorem TrackKey.text_inj_of_audio {a b : TrackKey} (hb : b.kind = .audio) :
    a.text = b.text ↔ a = b := by
  obtain ⟨kind, ordinal⟩ := b
  dsimp only at hb
  subst hb
  exact ⟨eq_audio_of_text, fun h => by rw [h]⟩

theorem MediaPresentation.video_eq_some {presentation : MediaPresentation}
    (hone : presentation.OneVideo) {track : Track}
    (htrack : track ∈ presentation.tracks) (hkind : track.kind = .video) :
    presentation.video = some track := by
  unfold video
  rw [← List.head?_filter]
  have hmem : track ∈ presentation.tracks.filter fun track =>
      track.kind == .video :=
    List.mem_filter.mpr ⟨htrack, by rw [hkind]; rfl⟩
  obtain ⟨only, honly⟩ := List.length_eq_one_iff.mp
    (Nat.le_antisymm hone (List.length_pos_of_mem hmem))
  rw [honly] at hmem ⊢
  rw [List.mem_singleton.mp hmem]
  rfl

/-- The tracks in the order a manifest has them; one is found by its name. -/
theorem MediaPresentation.find?_tracks {presentation : MediaPresentation}
    (hone : presentation.OneVideo) {key : TrackKey} {track : Track}
    (h : presentation.track key = .ok track) :
    (presentation.video.toList ++ presentation.audioTracks).find?
      (fun track => track.key.text.toList == key.text.toList) = some track := by
  obtain ⟨htrack, hkey⟩ := Presentation.track_eq_ok h
  have hfind := okOr_eq_ok_iff.mp h
  have hkind : key.kind = track.kind := by rw [← hkey, track.key_kind]
  cases hvideo : track.kind with
  | video =>
      rw [video_eq_some hone htrack hvideo, Option.toList_some,
        List.singleton_append, List.find?_cons_of_pos]
      rw [hkey]
      exact beq_self_eq_true _
  | audio =>
      have haudio : key.kind = .audio := hkind.trans hvideo
      have hnone : presentation.video.toList.find?
          (fun track => track.key.text.toList == key.text.toList) = none := by
        rw [List.find?_eq_none]
        intro other hother hname
        have hother := List.find?_some (Option.mem_toList.mp hother)
        have hsame := (TrackKey.text_inj_of_audio haudio).mp
          (String.toList_injective (by simpa using hname))
        rw [← other.key_kind, hsame, haudio] at hother
        cases hother
      rw [List.find?_append, hnone, Option.none_or]
      unfold audioTracks
      rw [List.find?_filter, ← hfind]
      congr 1
      funext other
      rw [Bool.eq_iff_iff]
      simp only [decide_eq_true_eq, beq_iff_eq]
      constructor
      · rintro ⟨-, hname⟩
        exact (TrackKey.text_inj_of_audio haudio).mp
          (String.toList_injective hname)
      · rintro rfl
        exact ⟨other.key_kind.symm.trans haudio, rfl⟩

namespace Dash

theorem templates_videoAdaptation {presentation : MediaPresentation}
    {track : Track} {id : Text} {addressing : Addressing}
    {adaptation : Adaptation}
    (h : videoAdaptation presentation track id addressing = .ok adaptation) :
    adaptation.templates = [(id,
      writeSegmentTemplate presentation.toPresentation track addressing)] := by
  obtain ⟨representation, hrepresentation, h⟩ := bind_eq_ok_iff.mp h
  obtain rfl := Except.ok.inj h
  obtain ⟨size, -, hrepresentation⟩ := bind_eq_ok_iff.mp hrepresentation
  obtain ⟨bandwidth, -, hrepresentation⟩ := bind_eq_ok_iff.mp hrepresentation
  obtain rfl := Except.ok.inj hrepresentation
  rfl

theorem templates_audioAdaptation {presentation : MediaPresentation}
    {track : Track} {id : Text} {addressing : Addressing}
    {adaptation : Adaptation}
    (h : audioAdaptation presentation track id addressing = .ok adaptation) :
    adaptation.templates = [(id,
      writeSegmentTemplate presentation.toPresentation track addressing)] := by
  obtain ⟨format, -, h⟩ := bind_eq_ok_iff.mp h
  obtain ⟨bandwidth, -, h⟩ := bind_eq_ok_iff.mp h
  obtain rfl := Except.ok.inj h
  rfl

/-- The template a track of a clip has in the clip's period. -/
structure TemplateOf (clip : MediaClip) (track : Track) (name : Text)
    (named : Text × SegmentTemplate) : Prop where
  name : named.1 = name
  numbers : named.2.numbers = List.range' clip.firstSegment
    (clip.presentation.trackSegments track.id).length

theorem templateOf_clip {clip : MediaClip} {position : ℕ} {track : Track}
    {addressing : Addressing}
    (h : MediaClip.addressing clip position track = .ok addressing)
    (name : Text) :
    TemplateOf clip track name (name, writeSegmentTemplate
      clip.presentation.toPresentation track addressing) := by
  unfold MediaClip.addressing Clip.clipAddressing at h
  dsimp only at h
  split at h
  · obtain rfl := Except.ok.inj h
    refine ⟨rfl, ?_⟩
    unfold SegmentTemplate.numbers writeSegmentTemplate
    dsimp only
    rw [List.length_map, List.length_zipIdx]
  · cases h

theorem template_eq_of_find? {period : Period} {name : Text} {clip : MediaClip}
    {track : Track} {named : Text × SegmentTemplate}
    (hfind : (period.adaptations.flatMap Adaptation.templates).find?
      (fun named => named.1 == name) = some named)
    (h : TemplateOf clip track name named) :
    (period.template name).elim [] SegmentTemplate.numbers =
      List.range' clip.firstSegment
        (clip.presentation.trackSegments track.id).length := by
  unfold Period.template
  rw [hfind, Option.map_some, Option.elim_some, h.numbers]

/-- A track's numbers in its clip's period count on from the clip's first. -/
theorem numbers_clipPeriod {clip : MediaClip} {position : ℕ} {period : Period}
    (hone : clip.presentation.OneVideo) {key : TrackKey} {track : Track}
    (htrack : clip.presentation.track key = .ok track)
    (h : clipPeriod (clip, position) = .ok period) :
    (period.template key.text.toList).elim [] SegmentTemplate.numbers =
      List.range' clip.firstSegment
        (clip.presentation.trackSegments track.id).length := by
  obtain ⟨tracks, htracks, h⟩ := bind_eq_ok_iff.mp h
  obtain rfl := Except.ok.inj h
  obtain ⟨video, hvideo, htracks⟩ := bind_eq_ok_iff.mp htracks
  obtain ⟨audio, haudio, htracks⟩ := bind_eq_ok_iff.mp htracks
  obtain rfl := Except.ok.inj htracks
  have heach : List.Forall₂ (fun track adaptation =>
      ∃ named, Adaptation.templates adaptation = [named] ∧
        TemplateOf clip track track.key.text.toList named)
      (clip.presentation.video.toList ++ clip.presentation.audioTracks)
      (video ++ audio) := by
    refine List.rel_append ((mapM_forall₂ hvideo).imp ?_)
      ((mapM_forall₂ haudio).imp ?_)
    · intro track adaptation hadaptation
      obtain ⟨addressing, haddressing, hadaptation⟩ :=
        bind_eq_ok_iff.mp hadaptation
      exact ⟨_, templates_videoAdaptation hadaptation,
        templateOf_clip haddressing _⟩
    · intro track adaptation hadaptation
      obtain ⟨addressing, haddressing, hadaptation⟩ :=
        bind_eq_ok_iff.mp hadaptation
      exact ⟨_, templates_audioAdaptation hadaptation,
        templateOf_clip haddressing _⟩
  have hall : List.Forall₂ (fun track named =>
      TemplateOf clip track track.key.text.toList named)
      (clip.presentation.video.toList ++ clip.presentation.audioTracks)
      ((video ++ audio).flatMap Adaptation.templates) := by
    rw [← List.flatMap_singleton' (clip.presentation.video.toList ++
      clip.presentation.audioTracks)]
    refine List.rel_flatMap heach fun track adaptation hadaptation => ?_
    obtain ⟨named, hnamed, htemplate⟩ := hadaptation
    rw [hnamed]
    exact .cons htemplate .nil
  obtain ⟨named, hfind, htemplate⟩ := exists_find?_of_forall₂
    (q := fun named : Text × SegmentTemplate => named.1 == key.text.toList)
    hall (fun track named htemplate => by rw [htemplate.name])
    (clip.presentation.find?_tracks hone htrack)
  have hkey := (Presentation.track_eq_ok htrack).2
  rw [hkey] at htemplate
  exact template_eq_of_find? hfind htemplate

end Dash

/-! ## One number for each entry -/

/-- The answer for a number listed at a position of a clip is the track's
segment there, with the number one higher in its fragment. -/
structure ServesListed (asset : PackagedAsset) (key : TrackKey)
    (position number : ℕ) (answer : Result PendingSegment) : Prop where
  part : ∃ track part, asset.track key = .ok track ∧
    (asset.plan.trackSegments track.id)[position]? = some part
  answer_eq :
    answer = asset.prepareNumberedSegment key position (number + 1)
  numbered : ∀ pending, answer = .ok pending → pending.Numbered (number + 1)

def IsNotFound {α : Type} (answer : Result α) : Prop :=
  ∃ message, answer = .error (.notFound message)

/-- The numbers a playlist lists, and with it the manifest's representation
called `name`, go one-to-one with the segments the track has in each clip, and
no other number is answered. -/
structure OneToOne (lines : List PlaylistLine) (manifest : Result Dash.Mpd)
    (name : Text) (owner : ℕ → Result (PackagedAsset × TrackKey))
    (prepare : ℕ → Result PendingSegment) : Prop where
  manifest : ∀ mpd, manifest = .ok mpd →
    mpd.listedByClip name = listedByClip lines
  flatten : listedNumbers lines = (listedByClip lines).flatten
  served : ∀ (k : ℕ) (row : List ℕ), (listedByClip lines)[k]? = some row →
    ∃ asset key, owner k = .ok (asset, key) ∧
      row.length = asset.listedCount key ∧
      ∀ (j number : ℕ), row[j]? = some number →
        ServesListed asset key j number (prepare number)
  distinct : (listedNumbers lines).Nodup
  unlisted : ∀ number < 2 ^ 32, number ∉ listedNumbers lines →
    IsNotFound (prepare number)

namespace PackagedAsset

variable {asset : PackagedAsset} {key : TrackKey}

theorem getElem?_trackSegments {track : Track}
    (htrack : asset.track key = .ok track) (number : ℕ) :
    (asset.plan.trackSegments track.id)[number]? =
      asset.plan.segments[number]?.bind fun segment =>
        segment.part track.id := by
  obtain ⟨targetDurationMs, hplan⟩ := asset.planned
  obtain ⟨reference, ticks, h⟩ := plan_spec hplan
  exact h.getElem?_trackSegments (Presentation.track_eq_ok htrack).1 number

theorem exists_part_of_lt {position : ℕ}
    (h : position < asset.listedCount key) :
    ∃ track part, asset.track key = .ok track ∧
      (asset.plan.trackSegments track.id)[position]? = some part := by
  cases htrack : asset.track key with
  | error error =>
      unfold listedCount at h
      rw [htrack] at h
      exact absurd h (Nat.not_lt_zero _)
  | ok track =>
      rw [listedCount_eq htrack] at h
      exact ⟨track, _, rfl, List.getElem?_eq_getElem h⟩

/-- No segment is found behind those a track has. -/
theorem prepareNumberedSegment_notFound {position : ℕ}
    (h : asset.listedCount key ≤ position) (sequenceNumber : ℕ) :
    IsNotFound (asset.prepareNumberedSegment key position sequenceNumber) := by
  unfold prepareNumberedSegment
  cases htrack : asset.track key with
  | error error =>
      unfold PackagedAsset.track Presentation.track at htrack
      cases hfind : asset.presentation.tracks.find? fun track =>
          track.key == key with
      | none =>
          rw [hfind] at htrack
          obtain rfl := Except.error.inj htrack
          exact ⟨_, rfl⟩
      | some track =>
          rw [hfind] at htrack
          cases htrack
  | ok track =>
      rw [listedCount_eq htrack] at h
      have hpart := (getElem?_trackSegments htrack position).symm.trans
        (List.getElem?_eq_none h)
      cases hsegment : asset.plan.segments[position]? with
      | none => exact ⟨_, rfl⟩
      | some segment =>
          rw [hsegment, Option.bind_some] at hpart
          rw [ok_bind, okOr_some, ok_bind, hpart]
          exact ⟨_, rfl⟩

end PackagedAsset

/-- Clips that are numbered by as many segments as their plans have. -/
theorem oneToOne_of_clips {lines : List PlaylistLine}
    {manifest : Result Dash.Mpd} {name : Text}
    {owner : ℕ → Result (PackagedAsset × TrackKey)}
    {prepare : ℕ → Result PendingSegment}
    (owners : List (PackagedAsset × TrackKey)) (counts : List ℕ)
    (hcounts : counts ≠ []) (htotal : counts.sum < 2 ^ 32)
    (hle : List.Forall₂ (fun (owner : PackagedAsset × TrackKey) count =>
      owner.1.listedCount owner.2 ≤ count) owners counts)
    (hlisted : listedByClip lines = listings (firstNumbers 0 counts)
      (owners.map fun owner => owner.1.listedCount owner.2))
    (hflatten : listedNumbers lines = (listedByClip lines).flatten)
    (hmanifest : ∀ mpd, manifest = .ok mpd →
      mpd.listedByClip name = listedByClip lines)
    (howner : ∀ (k : ℕ) own, owners[k]? = some own → owner k = .ok own)
    (hprepare : ∀ number first own,
      (firstNumbers 0 counts)[groupOf (firstNumbers 0 counts) number]? =
        some first →
      owners[groupOf (firstNumbers 0 counts) number]? = some own →
      prepare number = own.1.prepareNumberedSegment own.2 (number - first)
        (saturatingAdd (2 ^ 32) number 1)) :
    OneToOne lines manifest name owner prepare := by
  have hfits : List.Forall₂ (· ≤ ·)
      (owners.map fun owner => owner.1.listedCount owner.2) counts :=
    List.forall₂_map_left_iff.mpr hle
  refine ⟨hmanifest, hflatten, ?_, ?_, ?_⟩
  · intro k row hrow
    rw [hlisted] at hrow
    obtain ⟨first, count, hfirst, hcount, rfl⟩ :=
      getElem?_listings_eq_some_iff.mp hrow
    have hmapped := hcount
    rw [List.getElem?_map] at hmapped
    obtain ⟨own, hown, rfl⟩ := Option.map_eq_some_iff.mp hmapped
    refine ⟨own.1, own.2, howner k own hown, List.length_range', ?_⟩
    intro j number hnumber
    obtain ⟨hj, hnumber⟩ := List.getElem?_eq_some_iff.mp hnumber
    rw [List.length_range'] at hj
    rw [List.getElem_range', Nat.one_mul] at hnumber
    subst hnumber
    obtain ⟨hgroup, hlt⟩ := groupOf_listed hfits hfirst hcount hj
    have hnext : saturatingAdd (2 ^ 32) (first + j) 1 = first + j + 1 := by
      unfold saturatingAdd
      omega
    have hanswer := hprepare (first + j) first own (by rw [hgroup, hfirst])
      (by rw [hgroup, hown])
    rw [Nat.add_sub_cancel_left, hnext] at hanswer
    refine ⟨PackagedAsset.exists_part_of_lt hj, hanswer, fun pending hrun => ?_⟩
    rw [hanswer] at hrun
    exact PackagedAsset.prepareNumberedSegment_numbered (by omega) hrun
  · rw [hflatten, hlisted]
    exact nodup_listings hfits
  · intro number hnumber hunlisted
    rw [hflatten, hlisted] at hunlisted
    obtain ⟨first, count, hfirst, hcount, hlater⟩ :=
      not_listed hfits hcounts (Nat.zero_le number) hunlisted
    rw [List.getElem?_map] at hcount
    obtain ⟨own, hown, rfl⟩ := Option.map_eq_some_iff.mp hcount
    rw [hprepare number first own hfirst hown]
    exact PackagedAsset.prepareNumberedSegment_notFound hlater _

/-! ## Clip sequences -/

theorem listings_map {α : Type} (first count : α → ℕ) (l : List α) :
    listings (l.map first) (l.map count) =
      l.map fun a => List.range' (first a) (count a) := by
  unfold listings
  rw [List.zipWith_map, List.zipWith_self]

theorem Presentation.listedCount_eq {presentation : Presentation}
    {key : TrackKey} {track : Track} (h : presentation.track key = .ok track) :
    presentation.listedCount key =
      (presentation.trackSegments track.id).length := by
  unfold listedCount
  rw [h]

theorem exists_track_of_clipLines {key : TrackKey} {position : ℕ}
    {previous : Option Encryption} {clips : List SequenceClip}
    {lines : List PlaylistLine}
    (h : clipLines key position previous clips = .ok lines) :
    ∀ clip ∈ clips, ∃ track, clip.presentation.track key = .ok track := by
  induction clips generalizing position previous lines with
  | nil => exact List.forall_mem_nil _
  | cons clip clips ih =>
      unfold clipLines at h
      obtain ⟨track, htrack, h⟩ := bind_eq_ok_iff.mp h
      dsimp only at h
      obtain ⟨entries, -, h⟩ := bind_eq_ok_iff.mp h
      obtain ⟨others, hothers, -⟩ := bind_eq_ok_iff.mp h
      exact List.forall_mem_cons.mpr ⟨⟨track, htrack⟩, ih hothers⟩

theorem exists_track_of_sequenceMediaPlaylist {clips : List SequenceClip}
    {key : TrackKey} {lines : List PlaylistLine}
    (h : sequenceMediaPlaylist clips key = .ok lines) :
    ∀ clip ∈ clips, ∃ track, clip.presentation.track key = .ok track := by
  obtain ⟨target, -, h⟩ := bind_eq_ok_iff.mp h
  obtain ⟨entries, hentries, -⟩ := bind_eq_ok_iff.mp h
  exact exists_track_of_clipLines hentries

/-- A manifest of clips that all have a track lists as many numbers of it in
each clip's period as the clip has segments of it. -/
theorem Dash.listedByClip_sequenceManifest {clips : List MediaClip}
    {total : Clip.TimelinePosition} {version : String} {mpd : Mpd}
    {key : TrackKey}
    (hone : ∀ clip ∈ clips, clip.presentation.OneVideo)
    (htracks : ∀ clip ∈ clips, ∃ track,
      clip.presentation.track key = .ok track)
    (h : sequenceManifest clips total version = .ok mpd) :
    mpd.listedByClip key.text.toList =
      listings (clips.map MediaClip.firstSegment)
        (clips.map fun clip => clip.presentation.listedCount key) := by
  obtain ⟨periods, hperiods, h⟩ := bind_eq_ok_iff.mp h
  obtain rfl := Except.ok.inj h
  have hlisted := map_eq_of_forall₂ (f := fun entry : MediaClip × ℕ =>
      List.range' entry.1.firstSegment
        (entry.1.presentation.listedCount key))
    (g := fun period =>
      (period.template key.text.toList).elim [] SegmentTemplate.numbers)
    (mapM_forall₂ hperiods) (by
      rintro ⟨clip, position⟩ hmem period hperiod
      have hclip := List.fst_mem_of_mem_zipIdx hmem
      obtain ⟨track, htrack⟩ := htracks clip hclip
      rw [Presentation.listedCount_eq htrack,
        numbers_clipPeriod (hone clip hclip) htrack hperiod])
  rw [listings_map]
  conv_rhs => rw [← List.zipIdx_map_fst 0 clips, List.map_map]
  exact hlisted.symm

def SequenceTitle.assets (title : SequenceTitle) : List PackagedAsset :=
  title.clips.map fun clip => clip.1.asset

def SequenceTitle.firstSegments (title : SequenceTitle) : List ℕ :=
  title.clips.map fun clip => clip.2.1

/-- The clips of a title are numbered by their plans. -/
def SequenceTitle.Numbered (title : SequenceTitle) : Prop :=
  numberClips 0 title.assets = .ok title.firstSegments

/-- What answers the requests for a title's segments. -/
def SequenceTitle.asset (title : SequenceTitle) (h : title.Numbered) :
    SequenceAsset where
  clips := title.assets
  firstSegments := title.firstSegments
  numbered := h

/-- The file of a clip, and the track's key in it. -/
def SequenceAsset.owner (sequence : SequenceAsset) (key : TrackKey)
    (clip : ℕ) : Result (PackagedAsset × TrackKey) := do
  let asset ← okOr sequence.clips[clip]? (.notFound "clip does not exist")
  .ok (asset, key)

theorem SequenceAsset.prepareSegment_eq_of_clip {sequence : SequenceAsset}
    {number first : ℕ} {asset : PackagedAsset}
    (hasset : sequence.clips[groupOf sequence.firstSegments number]? =
      some asset)
    (hfirst : sequence.firstSegments[groupOf sequence.firstSegments number]? =
      some first) (key : TrackKey) :
    sequence.prepareSegment key number =
      asset.prepareNumberedSegment key (number - first)
        (saturatingAdd (2 ^ 32) number 1) := by
  have hclip : sequence.clipOf number =
      groupOf sequence.firstSegments number := rfl
  unfold prepareSegment
  dsimp only
  rw [hclip, hasset, hfirst]

theorem SequenceTitle.views_asset {title : SequenceTitle}
    (h : title.Numbered) :
    (title.asset h).views = title.views.map MediaClip.toSequenceClip := by
  unfold SequenceAsset.views SequenceTitle.views SequenceTitle.asset assets
    firstSegments
  rw [List.zip_map', List.map_map, List.map_map]
  rfl

/-- The numbers of a sequence of clips. -/
theorem SequenceTitle.oneToOne {title : SequenceTitle} (h : title.Numbered)
    {key : TrackKey} {lines : List PlaylistLine}
    (hlines : (title.asset h).mediaPlaylist key = .ok lines) :
    OneToOne lines (Dash.sequenceManifest title.views title.total title.version)
      key.text.toList ((title.asset h).owner key)
      ((title.asset h).prepareSegment key) := by
  obtain ⟨hfirsts, htotal⟩ := numberClips_eq_ok (by decide) h
  rw [clipStarts_eq] at hfirsts
  rw [Nat.zero_add] at htotal
  have hplaylist : title.clips ≠ [] ∧ sequenceMediaPlaylist
      (title.views.map MediaClip.toSequenceClip) key = .ok lines := by
    unfold SequenceAsset.mediaPlaylist at hlines
    rw [views_asset h] at hlines
    split at hlines
    · rename_i clip rest hclips
      split at hlines
      · refine ⟨?_, hlines⟩
        rintro hempty
        simp [SequenceTitle.asset, assets, hempty] at hclips
      · cases hlines
    · cases hlines
  obtain ⟨hnonempty, hplaylist⟩ := hplaylist
  obtain ⟨hlisted, hflatten⟩ := listedByClip_sequenceMediaPlaylist hplaylist
  have htracks := exists_track_of_sequenceMediaPlaylist hplaylist
  have hlists : listings ((title.views.map MediaClip.toSequenceClip).map
        SequenceClip.firstSegment)
      ((title.views.map MediaClip.toSequenceClip).map fun clip =>
        clip.presentation.listedCount key) =
      listings (title.views.map MediaClip.firstSegment)
        (title.views.map fun clip => clip.presentation.listedCount key) := by
    rw [List.map_map, List.map_map]
    rfl
  have hviews : listings (title.views.map MediaClip.firstSegment)
        (title.views.map fun clip => clip.presentation.listedCount key) =
      listings title.firstSegments
        ((title.clips.map fun clip => (clip.1.asset, key)).map
          fun own => own.1.listedCount own.2) := by
    unfold SequenceTitle.views firstSegments
    rw [List.map_map, List.map_map, List.map_map]
    rfl
  rw [hlists] at hlisted
  refine oneToOne_of_clips (title.clips.map fun clip => (clip.1.asset, key))
    (title.assets.map PackagedAsset.segmentCount)
    (by simpa [assets] using hnonempty) htotal ?_ ?_ hflatten ?_ ?_ ?_
  · unfold assets
    rw [List.forall₂_map_left_iff, List.forall₂_map_right_iff,
      List.forall₂_map_right_iff, List.forall₂_same]
    exact fun clip _ => clip.1.asset.listedCount_le key
  · rw [hlisted, hviews, hfirsts]
  · intro mpd hmpd
    rw [hlisted]
    refine Dash.listedByClip_sequenceManifest ?_ ?_ hmpd
    · intro clip hclip
      obtain ⟨entry, -, rfl⟩ := List.mem_map.mp hclip
      exact entry.1.asset.oneVideo
    · intro clip hclip
      exact htracks _ (List.mem_map_of_mem hclip)
  · intro k own hown
    rw [List.getElem?_map] at hown
    obtain ⟨clip, hclip, rfl⟩ := Option.map_eq_some_iff.mp hown
    unfold SequenceAsset.owner SequenceTitle.asset assets
    dsimp only
    rw [List.getElem?_map, hclip]
    rfl
  · intro number first own hfirst hown
    rw [List.getElem?_map] at hown
    obtain ⟨clip, hclip, rfl⟩ := Option.map_eq_some_iff.mp hown
    rw [← hfirsts] at hfirst hclip
    have hasset : title.assets[groupOf title.firstSegments number]? =
        some clip.1.asset := by
      unfold assets
      rw [List.getElem?_map, hclip]
      rfl
    exact SequenceAsset.prepareSegment_eq_of_clip hasset hfirst key

end Segmentor
