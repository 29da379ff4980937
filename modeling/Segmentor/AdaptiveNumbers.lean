import Segmentor.AdaptiveRequests
import Segmentor.ParsedFiles

/-!
# Segment numbers across grids

Each video rendition of an adaptive sequence and each member of its audio group
is a sequence of its own.  Video is numbered by the plans of the first
rendition, which every other has as many segments as; a member of the audio
group by the plans of the files it is in.
-/

namespace Segmentor

open General

/-! ## Counting the segments of the grids -/

theorem cumulative_eq_ok {next : ℕ} {counts : List (Result ℕ)}
    {firsts : List ℕ} (hnext : next < 2 ^ 32)
    (h : cumulative next counts = .ok firsts) :
    ∃ sizes, List.Forall₂ (fun count size => count = .ok size) counts sizes ∧
      firsts = firstNumbers next sizes ∧ next + sizes.sum < 2 ^ 32 := by
  induction counts generalizing next firsts with
  | nil =>
      obtain rfl := Except.ok.inj h
      exact ⟨[], .nil, rfl, hnext⟩
  | cons count counts ih =>
      unfold cumulative at h
      obtain ⟨size, hsize, h⟩ := bind_eq_ok_iff.mp h
      obtain ⟨following, hfollowing, h⟩ := bind_eq_ok_iff.mp h
      obtain ⟨others, hothers, h⟩ := bind_eq_ok_iff.mp h
      obtain rfl := Except.ok.inj h
      rw [okOr_eq_ok_iff] at hfollowing
      split at hfollowing
      · obtain ⟨hlt, rfl⟩ := checkedAdd_eq_some_iff.mp hfollowing
        obtain ⟨sizes, hsizes, rfl, htotal⟩ := ih hlt hothers
        refine ⟨size :: sizes, .cons hsize hsizes, rfl, ?_⟩
        rw [List.sum_cons]
        omega
      · cases hfollowing

/-- Clips that are counted are numbered by the plans of their files. -/
theorem cumulative_plans {File : Type} {grids : List File}
    {file : File → Result RenditionFile} {firsts : List ℕ}
    (h : cumulative 0 (grids.map fun grid => plannedSegments (file grid)) =
      .ok firsts) :
    ∃ files, List.Forall₂ (fun grid found => file grid = .ok found) grids
        files ∧
      firsts = firstNumbers 0 (files.map fun found =>
        found.asset.segmentCount) ∧
      (files.map fun found => found.asset.segmentCount).sum < 2 ^ 32 := by
  obtain ⟨sizes, hsizes, rfl, htotal⟩ := cumulative_eq_ok (by decide) h
  rw [List.forall₂_map_left_iff] at hsizes
  have hfiles : List.Forall₂ (fun grid size => ∃ found,
      file grid = .ok found ∧ size = found.asset.segmentCount) grids sizes := by
    refine hsizes.imp fun grid size hsize => ?_
    unfold plannedSegments at hsize
    cases hfile : file grid with
    | error error => rw [hfile] at hsize; cases hsize
    | ok found =>
        rw [hfile] at hsize
        exact ⟨found, rfl, (Except.ok.inj hsize).symm⟩
  obtain ⟨files, hfound, hcounts⟩ := exists_forall₂_both hfiles
  have hmap : sizes = files.map fun found => found.asset.segmentCount := by
    rw [← List.forall₂_eq_eq_eq, List.forall₂_map_right_iff]
    exact hcounts
  rw [Nat.zero_add] at htotal
  exact ⟨files, hfound, hmap ▸ rfl, hmap ▸ htotal⟩

namespace AdaptiveSequence

variable {sequence : AdaptiveSequence}

theorem rowClips_eq_ok {file : ClipGrid RenditionFile → Result RenditionFile}
    {firsts : List ℕ} {clips : List MediaClip}
    (hfirsts : firsts.length = sequence.grids.length)
    (hstarts : sequence.starts.length = sequence.grids.length)
    (h : sequence.rowClips file firsts = .ok clips) :
    ∃ files, List.Forall₂ (fun grid found => file grid = .ok found)
        sequence.grids files ∧
      clips.map MediaClip.presentation =
        files.map RenditionFile.presentation ∧
      clips.map MediaClip.firstSegment = firsts := by
  have hrows := mapM_forall₂ h
  have hpairs : ((sequence.grids.zip firsts).zip sequence.starts).map
      Prod.fst = sequence.grids.zip firsts :=
    List.map_fst_zip (by simp [hfirsts, hstarts])
  have hgrids : (((sequence.grids.zip firsts).zip sequence.starts).map
      Prod.fst).map Prod.fst = sequence.grids := by
    rw [hpairs]
    exact List.map_fst_zip hfirsts.ge
  have hnumbers : (((sequence.grids.zip firsts).zip sequence.starts).map
      Prod.fst).map Prod.snd = firsts := by
    rw [hpairs]
    exact List.map_snd_zip hfirsts.le
  have hboth : List.Forall₂ (fun entry (clip : MediaClip) => ∃ found,
      file entry.1.1 = .ok found ∧ clip.presentation = found.presentation)
      ((sequence.grids.zip firsts).zip sequence.starts) clips := by
    refine hrows.imp fun entry clip hclip => ?_
    obtain ⟨found, hfound, hclip⟩ := bind_eq_ok_iff.mp hclip
    obtain rfl := Except.ok.inj hclip
    exact ⟨found, hfound, rfl⟩
  obtain ⟨files, hfiles, hpresentations⟩ := exists_forall₂_both hboth
  refine ⟨files, ?_, ?_, ?_⟩
  · rw [← hgrids, List.map_map, List.forall₂_map_left_iff]
    exact hfiles
  · exact map_eq_of_forall₂ hpresentations fun _ _ _ h => h
  · rw [← hnumbers, List.map_map]
    refine (map_eq_of_forall₂ hrows fun entry _ clip hclip => ?_).symm
    obtain ⟨found, -, hclip⟩ := bind_eq_ok_iff.mp hclip
    obtain rfl := Except.ok.inj hclip
    rfl

end AdaptiveSequence

/-! ## What the manifest lists -/

theorem videoName_injective : Function.Injective videoName :=
  fun _ _ h => List.append_cancel_left h

theorem videoName_ne_audio (id : Text) (ordinal : ℕ) :
    videoName id ≠ (TrackKey.audio ordinal).text.toList := by
  rw [TrackKey.text_audio]
  intro h
  have hfirst := congrArg List.head? h
  rw [videoName, List.head?_append, List.head?_append] at hfirst
  have hvideo : "video-".toList.head? = some 'v' := rfl
  have haudio : "audio-".toList.head? = some 'a' := rfl
  rw [hvideo, haudio, Option.some_or, Option.some_or] at hfirst
  exact absurd hfirst (by decide)

theorem audioText_injective {a b : ℕ}
    (h : (TrackKey.audio a).text.toList = (TrackKey.audio b).text.toList) :
    a = b :=
  congrArg TrackKey.ordinal
    (TrackKey.eq_audio_of_text (String.toList_injective h))

namespace Dash

theorem templates_videoRepresentation {presentation : MediaPresentation}
    {track : Track} {id : Text} {addressing : Addressing}
    {representation : VideoRepresentation}
    (h : videoRepresentation presentation track id addressing =
      .ok representation) :
    (representation.id, representation.template) = (id,
      writeSegmentTemplate presentation.toPresentation track addressing) := by
  obtain ⟨size, -, h⟩ := bind_eq_ok_iff.mp h
  obtain ⟨bandwidth, -, h⟩ := bind_eq_ok_iff.mp h
  obtain rfl := Except.ok.inj h
  rfl

/-- The numbers a row's clip at `position` has in its period. -/
def RowNumbers (clips : List MediaClip) (key : TrackKey) (position : ℕ)
    (numbers : List ℕ) : Prop :=
  ∀ clip, clips[position]? = some clip → numbers =
    List.range' clip.firstSegment (clip.presentation.listedCount key)

section

variable {ordered : List SequenceVideo} {audio : List SequenceAudio}
  {first : MediaClip} {position : ℕ} {period : Period}

/-- The templates of a period: those of the video, and one of each member. -/
theorem templates_gridPeriod
    (h : gridPeriod ordered audio (first, position) = .ok period) :
    ∃ video members, period.adaptations.flatMap Adaptation.templates =
        video ++ members ∧
      List.Forall₂ (fun (entry : SequenceVideo) named =>
        ∃ clip track, entry.clips[position]? = some clip ∧
          clip.presentation.video = some track ∧
          TemplateOf clip track (videoName entry.id) named) ordered video ∧
      List.Forall₂ (fun (member : SequenceAudio) named =>
        ∃ clip track, member.clips[position]? = some clip ∧
          clip.presentation.track member.internalKey = .ok track ∧
          TemplateOf clip track member.key.text.toList named)
        audio members := by
  obtain ⟨⟨protection, representations⟩, hvideo, h⟩ := bind_eq_ok_iff.mp h
  obtain ⟨members, hmembers, h⟩ := bind_eq_ok_iff.mp h
  obtain rfl := Except.ok.inj h
  obtain ⟨entries, hentries, hvideo⟩ := bind_eq_ok_iff.mp hvideo
  obtain ⟨-, rfl⟩ := Prod.mk.inj (Except.ok.inj hvideo)
  refine ⟨_, _, List.flatMap_cons, ?_, ?_⟩
  · unfold Adaptation.templates
    dsimp only
    rw [List.map_map, List.forall₂_map_right_iff]
    refine (mapM_forall₂ hentries).imp fun entry written hwritten => ?_
    obtain ⟨clip, hclip, hwritten⟩ := bind_eq_ok_iff.mp hwritten
    obtain ⟨track, htrack, hwritten⟩ := bind_eq_ok_iff.mp hwritten
    obtain ⟨addressing, haddressing, hwritten⟩ := bind_eq_ok_iff.mp hwritten
    obtain ⟨representation, hrepresentation, hwritten⟩ :=
      bind_eq_ok_iff.mp hwritten
    obtain rfl := Except.ok.inj hwritten
    refine ⟨clip, track, okOr_eq_ok_iff.mp hclip, okOr_eq_ok_iff.mp htrack, ?_⟩
    rw [Function.comp_apply, templates_videoRepresentation hrepresentation]
    exact templateOf_clip haddressing _
  · rw [← List.flatMap_singleton' audio]
    refine List.rel_flatMap (mapM_forall₂ hmembers)
      fun member adaptation hadaptation => ?_
    obtain ⟨clip, hclip, hadaptation⟩ := bind_eq_ok_iff.mp hadaptation
    obtain ⟨track, htrack, hadaptation⟩ := bind_eq_ok_iff.mp hadaptation
    obtain ⟨addressing, haddressing, hadaptation⟩ :=
      bind_eq_ok_iff.mp hadaptation
    rw [templates_audioAdaptation hadaptation]
    exact .cons ⟨clip, track, okOr_eq_ok_iff.mp hclip, htrack,
      templateOf_clip haddressing _⟩ .nil

theorem numbers_gridPeriod_video
    (h : gridPeriod ordered audio (first, position) = .ok period)
    (hids : (ordered.map SequenceVideo.id).Nodup) {entry : SequenceVideo}
    (hentry : entry ∈ ordered)
    (hone : ∀ clip ∈ entry.clips, clip.presentation.OneVideo)
    (htracks : ∀ clip ∈ entry.clips, ∃ track,
      clip.presentation.track .video = .ok track) :
    RowNumbers entry.clips .video position
      ((period.template (videoName entry.id)).elim []
        SegmentTemplate.numbers) := by
  obtain ⟨video, members, htemplates, hvideo, -⟩ := templates_gridPeriod h
  have hfound : (ordered.find? fun other =>
      videoName other.id == videoName entry.id) = some entry := by
    refine find?_of_nodup (f := fun other : SequenceVideo =>
      videoName other.id) ?_ hentry
    have hnames := hids.map videoName_injective
    rwa [List.map_map] at hnames
  obtain ⟨named, hnamed, clip, track, hclip, htrack, htemplate⟩ := exists_find?_of_forall₂
    (q := fun named : Text × SegmentTemplate =>
      named.1 == videoName entry.id) hvideo
    (fun other named ⟨_, _, _, _, htemplate⟩ => by rw [htemplate.name]) hfound
  intro own hown
  obtain rfl := Option.some.inj (hclip.symm.trans hown)
  have hmem := List.mem_of_getElem? hclip
  obtain ⟨found, hfound⟩ := htracks clip hmem
  obtain ⟨hlisted, hkey⟩ := Presentation.track_eq_ok hfound
  have hkind : found.kind = .video := by rw [← found.key_kind, hkey]; rfl
  obtain rfl := Option.some.inj (htrack.symm.trans
    (MediaPresentation.video_eq_some (hone clip hmem) hlisted hkind))
  rw [Presentation.listedCount_eq hfound]
  refine template_eq_of_find? ?_ htemplate
  rw [htemplates, List.find?_append, hnamed, Option.some_or]

theorem numbers_gridPeriod_audio
    (h : gridPeriod ordered audio (first, position) = .ok period)
    (hkeys : (audio.map fun member => member.key.text.toList).Nodup)
    {member : SequenceAudio} (hmember : member ∈ audio) {ordinal : ℕ}
    (hordinal : member.key = .audio ordinal) :
    RowNumbers member.clips member.internalKey position
      ((period.template member.key.text.toList).elim []
        SegmentTemplate.numbers) := by
  obtain ⟨video, members, htemplates, hvideo, haudio⟩ := templates_gridPeriod h
  have hfound := find?_of_nodup (f := fun member : SequenceAudio =>
    member.key.text.toList) hkeys hmember
  obtain ⟨named, hnamed, clip, track, hclip, htrack, htemplate⟩ := exists_find?_of_forall₂
    (q := fun named : Text × SegmentTemplate =>
      named.1 == member.key.text.toList) haudio
    (fun other named ⟨_, _, _, _, htemplate⟩ => by rw [htemplate.name]) hfound
  intro own hown
  obtain rfl := Option.some.inj (hclip.symm.trans hown)
  rw [Presentation.listedCount_eq htrack]
  refine template_eq_of_find? ?_ htemplate
  have hnone : (video.find? fun named =>
      named.1 == member.key.text.toList) = none := by
    rw [List.find?_eq_none]
    intro named hmem hname
    obtain ⟨entry, -, _, _, -, -, htemplate⟩ :=
      exists_mem_of_forall₂ hvideo.flip hmem
    rw [htemplate.name, hordinal] at hname
    exact videoName_ne_audio _ _ (beq_iff_eq.mp hname)
  rw [htemplates, List.find?_append, hnone, Option.none_or, hnamed]

end

theorem adaptiveSequenceManifest_eq_ok {video : List SequenceVideo}
    {audio : List SequenceAudio} {total : Clip.TimelinePosition}
    {version : String} {mpd : Mpd}
    (h : adaptiveSequenceManifest video audio total version = .ok mpd) :
    ∃ ordered : List SequenceVideo, ordered.Perm video ∧
      (∀ entry ∈ video, entry.clips.length = mpd.periods.length) ∧
      (∀ member ∈ audio, member.clips.length = mpd.periods.length) ∧
      ∀ (position : ℕ) period, mpd.periods[position]? = some period →
        ∃ first, gridPeriod ordered audio (first, position) = .ok period := by
  obtain ⟨ordered, hordered, h⟩ := bind_eq_ok_iff.mp h
  obtain ⟨first, hfirst, h⟩ := bind_eq_ok_iff.mp h
  dsimp only at h
  split at h
  · cases h
  rename_i hcounts
  obtain ⟨periods, hperiods, h⟩ := bind_eq_ok_iff.mp h
  obtain rfl := Except.ok.inj h
  have heach := mapM_forall₂ hperiods
  have hlength : periods.length = first.clips.length := by
    rw [← heach.length_eq, List.length_zipIdx]
  have hperm : ordered.Perm video := by
    obtain ⟨variants, hvariants, hordered⟩ := bind_eq_ok_iff.mp hordered
    obtain rfl := Except.ok.inj hordered
    unfold variantsByBandwidth at hvariants
    split at hvariants
    · cases hvariants
    obtain ⟨unsorted, hunsorted, hvariants⟩ := bind_eq_ok_iff.mp hvariants
    obtain rfl := Except.ok.inj hvariants
    refine ((List.mergeSort_perm _ _).map Prod.fst).trans (.of_eq ?_)
    have hsame := map_eq_of_forall₂ (f := id) (g := Prod.fst)
      (mapM_forall₂ hunsorted) (by
        intro entry _ written hwritten
        obtain ⟨variant, -, hwritten⟩ := bind_eq_ok_iff.mp hwritten
        obtain rfl := Except.ok.inj hwritten
        rfl)
    rw [← hsame, List.map_id]
  simp only [not_or, Bool.not_eq_true, List.any_eq_false, bne_iff_ne, ne_eq,
    not_not] at hcounts
  refine ⟨ordered, hperm, ?_, ?_, ?_⟩
  · intro entry hentry
    rw [hlength]
    exact hcounts.2.1 entry (hperm.mem_iff.mpr hentry)
  · intro member hmember
    rw [hlength]
    exact hcounts.2.2 member hmember
  · intro position period hperiod
    change periods[position]? = some period at hperiod
    obtain ⟨listed, hlisted, hgrid⟩ :=
      exists_getElem?_of_forall₂ heach.flip hperiod
    rw [List.getElem?_zipIdx, Nat.zero_add] at hlisted
    obtain ⟨clip, -, rfl⟩ := Option.map_eq_some_iff.mp hlisted
    exact ⟨clip, hgrid⟩

theorem listedByClip_of_rows {mpd : Mpd} {name : Text} {clips : List MediaClip}
    {key : TrackKey} (hlength : clips.length = mpd.periods.length)
    (h : ∀ (position : ℕ) period, mpd.periods[position]? = some period →
      RowNumbers clips key position
        ((period.template name).elim [] SegmentTemplate.numbers)) :
    mpd.listedByClip name = listings (clips.map MediaClip.firstSegment)
      (clips.map fun clip => clip.presentation.listedCount key) := by
  rw [listings_map]
  refine List.ext_getElem? fun position => ?_
  unfold Mpd.listedByClip
  rw [List.getElem?_map, List.getElem?_map]
  cases hperiod : mpd.periods[position]? with
  | none =>
      have hlate := List.getElem?_eq_none_iff.mp hperiod
      rw [List.getElem?_eq_none (hlength.trans_le hlate)]
      rfl
  | some period =>
      have hindex := (List.getElem?_eq_some_iff.mp hperiod).1
      have hclip := List.getElem?_eq_getElem (hlength.symm ▸ hindex)
      rw [hclip, Option.map_some, Option.map_some,
        h position period hperiod _ hclip]

end Dash

/-! ## One row of the grids -/

theorem RenditionEntry.starts_length {entry : RenditionEntry RenditionFile}
    {table : Timetable} (h : entry.timetable = .ok table) :
    ∃ track, entry.asset.presentation.video = some track ∧
      table.starts.length =
        (entry.asset.presentation.trackSegments track.id).length := by
  obtain ⟨hstarts, -⟩ := timetable_eq_ok_iff.mp h
  obtain ⟨track, htrack, hstarts⟩ := bind_eq_ok_iff.mp hstarts
  exact ⟨track, okOr_eq_ok_iff.mp htrack,
    (mapM_forall₂ hstarts).length_eq.symm⟩

/-- Video renditions that line up list as many segments as each other, so no
more than the first one's plan has. -/
theorem listedCount_le_first {video : List (RenditionEntry RenditionFile)}
    (h : checkAlignment video = .ok ())
    {first entry : RenditionEntry RenditionFile}
    (hfirst : video[0]? = some first) (hentry : entry ∈ video) :
    entry.asset.asset.listedCount .video ≤ first.asset.asset.segmentCount := by
  cases video with
  | nil => cases hentry
  | cons head rest =>
      obtain rfl := Option.some.inj hfirst
      rcases List.mem_cons.mp hentry with rfl | hrest
      · exact entry.asset.asset.listedCount_le .video
      obtain ⟨own, hown, hall⟩ := checkAlignment_cons_eq_ok_iff.mp h
      obtain ⟨table, htable, hlines⟩ := hall entry hrest
      obtain ⟨ownTrack, -, hownLength⟩ := RenditionEntry.starts_length hown
      obtain ⟨track, htrack, hlength⟩ := RenditionEntry.starts_length htable
      have hplan : (head.asset.presentation.trackSegments ownTrack.id).length ≤
          head.asset.asset.segmentCount := List.length_filterMap_le ..
      cases hkey : entry.asset.asset.track .video with
      | error error =>
          unfold PackagedAsset.listedCount
          rw [hkey]
          exact Nat.zero_le _
      | ok found =>
          obtain ⟨hlisted, hname⟩ := Presentation.track_eq_ok hkey
          have hkind : found.kind = .video := by
            rw [← found.key_kind, hname]
            rfl
          have hsame : entry.asset.presentation.video = some found :=
            MediaPresentation.video_eq_some entry.asset.asset.oneVideo hlisted
              hkind
          obtain rfl := Option.some.inj (htrack.symm.trans hsame)
          have hcount : entry.asset.asset.listedCount .video =
              (entry.asset.presentation.trackSegments track.id).length :=
            listedCount_eq hkey
          have := hlines.length_eq
          omega

namespace AdaptiveSequence

variable {sequence : AdaptiveSequence} {rendition : Option Text}
  {key internal : TrackKey} {lines : List PlaylistLine}

/-- A row that is numbered by at least as many segments as it lists of each
clip, and whose requests are answered from its files. -/
theorem row_oneToOne
    {clips : List MediaClip} {name : Text}
    (file : ClipGrid RenditionFile → Result RenditionFile) (sizes : List ℕ)
    (hstarts : sequence.starts.length = sequence.grids.length)
    (hsizes : sizes.length = sequence.grids.length)
    (htotal : sizes.sum < 2 ^ 32)
    (hrow : sequence.rowClips file (firstNumbers 0 sizes) = .ok clips)
    (hplaylist : rowPlaylist clips internal = .ok lines)
    (hle : ∀ files, List.Forall₂ (fun grid found => file grid = .ok found)
      sequence.grids files →
        List.Forall₂ (fun (found : RenditionFile) size =>
          found.asset.listedCount internal ≤ size) files sizes)
    (hmanifest : (∀ clip ∈ clips, clip.presentation.OneVideo) →
      (∀ clip ∈ clips, ∃ track,
        clip.presentation.track internal = .ok track) →
      ∀ mpd, sequence.dash = .ok mpd → mpd.listedByClip name =
        listings (clips.map MediaClip.firstSegment)
          (clips.map fun clip => clip.presentation.listedCount internal))
    (hresolve : ∀ grid ∈ sequence.grids, ∀ found, file grid = .ok found →
      grid.resolve rendition key = .ok (found, internal))
    (hfirsts : sequence.firsts key = .ok (firstNumbers 0 sizes)) :
    OneToOne lines sequence.dash name (sequence.owner rendition key)
      (sequence.prepareSegment rendition key) := by
  obtain ⟨files, hfiles, hpresentations, hnumbers⟩ :=
    rowClips_eq_ok (by rw [length_firstNumbers, hsizes]) hstarts hrow
  have hresolved : ∀ (k : ℕ) found, files[k]? = some found →
      sequence.resolve rendition key k = .ok (found, internal) := by
    intro k found hfound
    obtain ⟨grid, hgrid, hfile⟩ :=
      exists_getElem?_of_forall₂ hfiles.flip hfound
    unfold ClipRows.resolve
    rw [hgrid]
    exact hresolve grid (List.mem_of_getElem? hgrid) found hfile
  obtain ⟨hlisted, hflatten⟩ := listedByClip_sequenceMediaPlaylist hplaylist
  have htracks : ∀ clip ∈ clips, ∃ track,
      clip.presentation.track internal = .ok track := fun clip hclip =>
    exists_track_of_sequenceMediaPlaylist hplaylist _
      (List.mem_map_of_mem hclip)
  have hone : ∀ clip ∈ clips, clip.presentation.OneVideo := by
    intro clip hclip
    have hmem := List.mem_map_of_mem (f := MediaClip.presentation) hclip
    rw [hpresentations] at hmem
    obtain ⟨found, -, hpresentation⟩ := List.mem_map.mp hmem
    rw [← hpresentation]
    exact found.asset.oneVideo
  have hlists : listedByClip lines =
      listings (clips.map MediaClip.firstSegment)
        (clips.map fun clip => clip.presentation.listedCount internal) := by
    rw [hlisted, List.map_map, List.map_map]
    rfl
  have hcounts : (clips.map fun clip =>
      clip.presentation.listedCount internal) =
      (files.map fun found => (found.asset, internal)).map
        fun own => own.1.listedCount own.2 := by
    have hboth := congrArg (List.map fun presentation : MediaPresentation =>
      presentation.listedCount internal) hpresentations
    rw [List.map_map, List.map_map] at hboth
    rw [List.map_map]
    exact hboth
  refine oneToOne_of_clips (files.map fun found => (found.asset, internal)) sizes
    ?_ htotal ?_ ?_ hflatten ?_ ?_ ?_
  · rintro rfl
    exact sequence.nonempty (List.length_eq_zero_iff.mp hsizes.symm)
  · rw [List.forall₂_map_left_iff]
    exact hle files hfiles
  · rw [hlists, hnumbers, hcounts]
  · intro mpd hmpd
    rw [hlists]
    exact hmanifest hone htracks mpd hmpd
  · intro k own hown
    rw [List.getElem?_map] at hown
    obtain ⟨found, hfound, rfl⟩ := Option.map_eq_some_iff.mp hown
    unfold owner
    rw [hresolved k found hfound]
    rfl
  · intro number first own hfirst hown
    rw [List.getElem?_map] at hown
    obtain ⟨found, hfound, rfl⟩ := Option.map_eq_some_iff.mp hown
    have hclip : partitionPoint (fun first => decide (first ≤ number))
        (firstNumbers 0 sizes) - 1 = groupOf (firstNumbers 0 sizes) number :=
      rfl
    have hlocate : sequence.locate rendition key number =
        .ok (found, internal, number - first) := by
      unfold ClipRows.locate
      rw [hfirsts, ok_bind]
      dsimp only
      rw [hclip, hresolved _ found hfound, hfirst]
      rfl
    unfold prepareSegment
    rw [hlocate]
    rfl

/-! ## The video renditions -/

theorem firstGrid_mem (sequence : AdaptiveSequence) :
    sequence.firstGrid ∈ sequence.grids :=
  List.head_mem sequence.nonempty

theorem video_eq_ok {video : List SequenceVideo}
    (h : sequence.video = .ok video) :
    List.Forall₂ (fun (listed : RenditionEntry RenditionFile × ℕ) row =>
      ∃ clips, sequence.rowClips (videoFile listed.2) sequence.firstVideo =
          .ok clips ∧ row = ⟨listed.1.id, clips⟩)
      sequence.firstGrid.video.zipIdx video := by
  refine (mapM_forall₂ h).imp fun listed row hrow => ?_
  obtain ⟨clips, hclips, hrow⟩ := bind_eq_ok_iff.mp hrow
  exact ⟨clips, hclips, (Except.ok.inj hrow).symm⟩

theorem dash_eq_ok {mpd : Dash.Mpd} (h : sequence.dash = .ok mpd) :
    ∃ video audio, sequence.video = .ok video ∧ sequence.audio = .ok audio ∧
      Dash.adaptiveSequenceManifest video audio sequence.total
        sequence.version = .ok mpd := by
  obtain ⟨video, hvideo, h⟩ := bind_eq_ok_iff.mp h
  obtain ⟨audio, haudio, h⟩ := bind_eq_ok_iff.mp h
  exact ⟨video, audio, hvideo, haudio, h⟩

/-- The row a video rendition's playlist is written from. -/
theorem mediaPlaylist_video (hkind : key.kind = .video)
    (h : sequence.mediaPlaylist rendition key = .ok lines) :
    ∃ (entry : RenditionEntry RenditionFile) (index : ℕ)
        (clips : List MediaClip) (video : List SequenceVideo),
      rendition = some entry.id ∧
      sequence.firstGrid.video[index]? = some entry ∧
      sequence.rowClips (videoFile index) sequence.firstVideo = .ok clips ∧
      rowPlaylist clips .video = .ok lines ∧
      sequence.video = .ok video ∧ ⟨entry.id, clips⟩ ∈ video := by
  obtain ⟨playlists, hplaylists, h⟩ := bind_eq_ok_iff.mp h
  obtain ⟨members, -, h⟩ := bind_eq_ok_iff.mp h
  unfold renderedFor at h
  rw [hkind] at h
  obtain ⟨id, hid, h⟩ := bind_eq_ok_iff.mp h
  obtain ⟨video, hvideo, hplaylists⟩ := bind_eq_ok_iff.mp hplaylists
  obtain ⟨⟨entry, found⟩, hfind, rfl⟩ :=
    Option.map_eq_some_iff.mp (okOr_eq_ok_iff.mp h)
  obtain rfl : entry.id = id := by simpa using List.find?_some hfind
  obtain ⟨index, hindex⟩ :=
    List.mem_iff_getElem?.mp (List.mem_of_find?_eq_some hfind)
  obtain ⟨hentry, hfound⟩ := List.getElem?_zip_eq_some.mp hindex
  obtain ⟨row, hrow, clips, hclips, rfl⟩ := exists_getElem?_of_forall₂
    (video_eq_ok hvideo) (show sequence.firstGrid.video.zipIdx[index]? =
      some (entry, index) by
      rw [List.getElem?_zipIdx, hentry, Nat.zero_add]
      rfl)
  obtain ⟨rendered, hrendered, hlines⟩ :=
    exists_getElem?_of_forall₂ (mapM_forall₂ hplaylists) hrow
  obtain rfl := Option.some.inj (hrendered.symm.trans hfound)
  exact ⟨entry, index, clips, video, okOr_eq_ok_iff.mp hid, hentry, hclips,
    hlines, hvideo, List.mem_of_getElem? hrow⟩

/-- Each video rendition is numbered one-to-one. -/
theorem video_oneToOne (hlaid : LaidOut sequence.grids)
    (hstarts : sequence.starts.length = sequence.grids.length)
    (hkind : key.kind = .video)
    (h : sequence.mediaPlaylist rendition key = .ok lines) :
    OneToOne lines sequence.dash (representationName rendition key)
      (sequence.owner rendition key)
      (sequence.prepareSegment rendition key) := by
  obtain ⟨entry, index, clips, video, rfl, hentry, hclips, hplaylist, hvideo,
    hmem⟩ := mediaPlaylist_video hkind h
  have hname : representationName (some entry.id) key = videoName entry.id := by
    unfold representationName
    rw [hkind]
    rfl
  obtain ⟨firstFiles, hfirstFiles, hnumbers, htotal⟩ :=
    cumulative_plans sequence.video_numbered
  rw [hname]
  refine row_oneToOne (videoFile index)
    (firstFiles.map fun found => found.asset.segmentCount) hstarts
    (by rw [List.length_map, hfirstFiles.length_eq]) htotal
    (hnumbers ▸ hclips) hplaylist ?_ ?_ ?_ ?_
  · intro files hfiles
    have hgrids := (List.forall₂_and_left _ _).mpr ⟨hlaid.aligned, hfirstFiles⟩
    rw [List.forall₂_map_right_iff]
    refine forall₂_comp hfiles.flip hgrids fun found grid first hfound hfirst => ?_
    obtain ⟨haligned, hfirst⟩ := hfirst
    obtain ⟨own, hown, rfl⟩ :=
      Option.map_eq_some_iff.mp (okOr_eq_ok_iff.mp hfound)
    obtain ⟨other, hother, rfl⟩ :=
      Option.map_eq_some_iff.mp (okOr_eq_ok_iff.mp hfirst)
    exact listedCount_le_first haligned hother (List.mem_of_getElem? hown)
  · intro hone htracks mpd hmpd
    obtain ⟨video', audio, hvideo', -, hmanifest⟩ := dash_eq_ok hmpd
    obtain rfl := Except.ok.inj (hvideo.symm.trans hvideo')
    obtain ⟨ordered, hperm, hlengths, -, hperiods⟩ :=
      Dash.adaptiveSequenceManifest_eq_ok hmanifest
    have hids : video.map SequenceVideo.id =
        sequence.firstGrid.video.map RenditionEntry.id := by
      rw [← map_eq_of_forall₂ (video_eq_ok hvideo) (f := fun listed => listed.1.id)
        fun listed _ row ⟨clips, _, hrow⟩ => by rw [hrow]]
      conv_rhs => rw [← List.zipIdx_map_fst 0 sequence.firstGrid.video,
        List.map_map]
      rfl
    have hnodup : (ordered.map SequenceVideo.id).Nodup := by
      rw [(hperm.map SequenceVideo.id).nodup_iff, hids]
      exact hlaid.distinct _ sequence.firstGrid_mem
    refine Dash.listedByClip_of_rows (hlengths _ hmem) ?_
    intro position period hperiod
    obtain ⟨first, hgrid⟩ := hperiods position period hperiod
    exact Dash.numbers_gridPeriod_video hgrid hnodup
      (hperm.mem_iff.mpr hmem) hone htracks
  · intro grid hgrid found hfound
    obtain ⟨own, hown, rfl⟩ :=
      Option.map_eq_some_iff.mp (okOr_eq_ok_iff.mp hfound)
    have hid : own.id = entry.id := by
      have hsame := congrArg (·[index]?)
        (hlaid.ids grid hgrid _ sequence.firstGrid_mem)
      rw [List.getElem?_map, List.getElem?_map, hown, hentry] at hsame
      exact Option.some.inj hsame
    have hfind := find?_of_nodup (hlaid.distinct grid hgrid)
      (List.mem_of_getElem? hown)
    rw [hid] at hfind
    unfold ClipGrid.resolve
    rw [hkind]
    change (do
      let entry ← okOr (grid.video.find? fun own : RenditionEntry RenditionFile =>
        own.id == entry.id) noTrack
      .ok (entry.asset, TrackKey.video)) = _
    rw [hfind]
    rfl
  · unfold ClipRows.firsts
    rw [hkind, ← hnumbers]

end AdaptiveSequence

namespace AdaptiveSequence

variable {sequence : AdaptiveSequence} {rendition : Option Text}
  {key : TrackKey} {lines : List PlaylistLine}

/-! ## The audio group -/

/-- The row of a member of the audio group. -/
structure MemberRow (sequence : AdaptiveSequence) (member : ℕ)
    (internalKey : TrackKey) (row : SequenceAudio) : Prop where
  key : row.key = .audio (member + 1)
  internalKey : row.internalKey = internalKey
  clips : sequence.rowClips (audioFile member)
    ((sequence.firstAudio[member]?).getD []) = .ok row.clips

theorem audio_eq_ok {audio : List SequenceAudio}
    (h : sequence.audio = .ok audio) :
    List.Forall₂ (fun listed row =>
      MemberRow sequence listed.2 (AudioEntry.internalKey listed.1) row)
      sequence.firstGrid.audio.zipIdx audio := by
  refine (mapM_forall₂ h).imp fun listed row hrow => ?_
  obtain ⟨clips, hclips, hrow⟩ := bind_eq_ok_iff.mp hrow
  obtain ⟨key, hkey, hrow⟩ := bind_eq_ok_iff.mp hrow
  obtain rfl := Except.ok.inj hrow
  unfold memberKey at hkey
  split at hkey
  · exact ⟨(Except.ok.inj hkey).symm, rfl, hclips⟩
  · cases hkey

theorem memberRow_of_getElem? {audio : List SequenceAudio} {member : ℕ}
    {row : SequenceAudio} (h : sequence.audio = .ok audio)
    (hrow : audio[member]? = some row) :
    ∃ entry, sequence.firstGrid.audio[member]? = some entry ∧
      MemberRow sequence member entry.internalKey row := by
  obtain ⟨listed, hlisted, hof⟩ :=
    exists_getElem?_of_forall₂ (audio_eq_ok h).flip hrow
  rw [List.getElem?_zipIdx, Nat.zero_add] at hlisted
  obtain ⟨entry, hentry, rfl⟩ := Option.map_eq_some_iff.mp hlisted
  exact ⟨entry, hentry, hof⟩

theorem nodup_audioKeys {audio : List SequenceAudio}
    (h : sequence.audio = .ok audio) :
    (audio.map fun member => member.key.text.toList).Nodup := by
  have hnames := map_eq_of_forall₂ (audio_eq_ok h)
    (f := fun listed => (TrackKey.audio (listed.2 + 1)).text.toList)
    (g := fun member : SequenceAudio => member.key.text.toList)
    (fun listed _ row hrow => by rw [hrow.key])
  have hindices := List.zipIdx_map_snd 0 sequence.firstGrid.audio
  have hnodup : ((sequence.firstGrid.audio.zipIdx.map Prod.snd).map fun index =>
      (TrackKey.audio (index + 1)).text.toList).Nodup := by
    rw [hindices]
    exact List.Nodup.map (fun a b hab =>
      Nat.succ.inj (audioText_injective hab)) List.nodup_range'
  rw [← hnames]
  rwa [List.map_map] at hnodup

theorem firstAudio_eq {member : ℕ}
    (hmember : member < sequence.firstGrid.audio.length) :
    ∃ firsts, sequence.firstAudio[member]? = some firsts ∧
      cumulative 0 (sequence.grids.map fun grid =>
        plannedSegments (audioFile member grid)) = .ok firsts := by
  have hhead : sequence.grids.head?.elim 0 (fun grid => grid.audio.length) =
      sequence.firstGrid.audio.length := by
    rw [List.head?_eq_some_head sequence.nonempty]
    rfl
  have hnumbered := sequence.audio_numbered
  unfold Segmentor.firstAudio at hnumbered
  rw [hhead] at hnumbered
  exact exists_getElem?_of_forall₂ (mapM_forall₂ hnumbered)
    (List.getElem?_range hmember)

/-- The row a member's playlist is written from. -/
theorem mediaPlaylist_audio (hkind : key.kind = .audio)
    (h : sequence.mediaPlaylist rendition key = .ok lines) :
    rendition = none ∧ ∃ (member : ℕ) (row : SequenceAudio)
        (audio : List SequenceAudio),
      key = .audio (member + 1) ∧ sequence.audio = .ok audio ∧
      audio[member]? = some row ∧
      rowPlaylist row.clips row.internalKey = .ok lines := by
  obtain ⟨kind, ordinal⟩ := key
  dsimp only at hkind
  subst hkind
  obtain ⟨rendered, -, h⟩ := bind_eq_ok_iff.mp h
  obtain ⟨playlists, hplaylists, h⟩ := bind_eq_ok_iff.mp h
  obtain ⟨audio, haudio, hplaylists⟩ := bind_eq_ok_iff.mp hplaylists
  unfold renderedFor at h
  dsimp only at h
  split at h
  · cases h
  rename_i hnone
  obtain ⟨member, hmember, hfound⟩ :=
    Option.bind_eq_some_iff.mp (okOr_eq_ok_iff.mp h)
  obtain ⟨hpos, hmember⟩ := checkedSub_eq_some_iff.mp hmember
  obtain ⟨row, hrow, hlines⟩ :=
    exists_getElem?_of_forall₂ (mapM_forall₂ hplaylists).flip hfound
  refine ⟨by simpa using hnone, member, row, audio, ?_, haudio, hrow, hlines⟩
  change 1 ≤ ordinal at hpos
  change ordinal - 1 = member at hmember
  unfold TrackKey.audio
  congr 1
  omega

/-- Each member of the audio group is numbered one-to-one. -/
theorem audio_oneToOne (hlaid : LaidOut sequence.grids)
    (hstarts : sequence.starts.length = sequence.grids.length)
    (hkind : key.kind = .audio)
    (h : sequence.mediaPlaylist rendition key = .ok lines) :
    OneToOne lines sequence.dash (representationName rendition key)
      (sequence.owner rendition key)
      (sequence.prepareSegment rendition key) := by
  obtain ⟨rfl, member, row, audio, rfl, haudio, hrow, hplaylist⟩ :=
    mediaPlaylist_audio hkind h
  obtain ⟨entry, hentry, hof⟩ := memberRow_of_getElem? haudio hrow
  obtain ⟨firsts, hfirsts, hnumbered⟩ :=
    firstAudio_eq (List.getElem?_eq_some_iff.mp hentry).1
  obtain ⟨counted, hcounted, rfl, htotal⟩ := cumulative_plans hnumbered
  have hclips := hof.clips
  rw [hfirsts, Option.getD_some] at hclips
  have hname : representationName none (.audio (member + 1)) =
      row.key.text.toList := by
    rw [hof.key]
    rfl
  rw [hname]
  refine row_oneToOne (audioFile member)
    (counted.map fun found => found.asset.segmentCount) hstarts
    (by rw [List.length_map, hcounted.length_eq]) htotal hclips hplaylist
    ?_ ?_ ?_ ?_
  · intro files hfiles
    rw [List.forall₂_map_right_iff]
    refine forall₂_comp hfiles.flip hcounted fun found grid own hfound hown => ?_
    obtain rfl := Except.ok.inj (hfound.symm.trans hown)
    exact found.asset.listedCount_le _
  · intro hone htracks mpd hmpd
    obtain ⟨video, audio', hvideo, haudio', hmanifest⟩ := dash_eq_ok hmpd
    obtain rfl := Except.ok.inj (haudio.symm.trans haudio')
    obtain ⟨ordered, -, -, hlengths, hperiods⟩ :=
      Dash.adaptiveSequenceManifest_eq_ok hmanifest
    have hmem := List.mem_of_getElem? hrow
    refine Dash.listedByClip_of_rows (hlengths row hmem) ?_
    intro position period hperiod
    obtain ⟨first, hgrid⟩ := hperiods position period hperiod
    exact Dash.numbers_gridPeriod_audio hgrid (nodup_audioKeys haudio) hmem
      hof.key
  · intro grid hgrid found hfound
    obtain ⟨own, hown, rfl⟩ :=
      Option.map_eq_some_iff.mp (okOr_eq_ok_iff.mp hfound)
    have hinternal : own.internalKey = entry.internalKey := by
      have hsame := congrArg (·[member]?)
        (hlaid.keys grid hgrid _ sequence.firstGrid_mem)
      rw [List.getElem?_map, List.getElem?_map, hown, hentry] at hsame
      exact Option.some.inj hsame
    have hmember : grid.audioMember (.audio (member + 1)) = some own := hown
    unfold ClipGrid.resolve
    change (do
      let entry ← okOr (grid.audioMember (.audio (member + 1))) noTrack
      .ok (grid.ownerAsset entry.owner, entry.internalKey)) = _
    rw [hmember, okOr_some, ok_bind, hinternal, hof.internalKey]
  · change okOr (sequence.firstAudio[member]?) noTrack = _
    rw [hfirsts]
    rfl

end AdaptiveSequence

/-! ## Sequences that assemble -/

section

open MetadataParser

/-- The parser numbers audio tracks in file order. -/
theorem MediaIndex.keysInOrder_of_parsed {blake3 : List UInt8 → List UInt8}
    {metadata : Metadata} {limits : ParserLimits} {media : ParsedMedia}
    {index : MediaIndex}
    (h : (parseMetadata blake3 metadata limits).run = some (.ok media))
    (hindexed : List.Forall₂ IndexedAs media.tracks index.tracks) :
    index.KeysInOrder := by
  obtain ⟨moov, source, edited, -, -, -, htracks⟩ := parseMetadata_spec h
  have hkeys : (index.tracks.map Track.key).filter
      (fun key => key.kind == .audio) = audioKeys media.tracks := by
    have hsound := List.rel_filter (p := fun track : MediaTrack =>
        track.kind == .audio) (q := fun track : Track => track.key.kind == .audio)
      (fun track indexed (hof : IndexedAs track indexed) => by
        dsimp only
        rw [indexed.key_kind, hof.kind]) hindexed
    rw [List.filter_map]
    exact (map_eq_of_forall₂ hsound fun track _ indexed hof =>
      hof.key.symm).symm
  have hnumbered := audioKeys_assignKeysFrom 0 edited
  unfold KeysInOrder
  rw [hkeys, htracks]
  unfold assignKeys
  change (audioKeys (assignKeysFrom 0 edited)).Pairwise _
  rw [show (0 : ℕ) = min 0 (2 ^ 16 - 1) from rfl, hnumbered, List.pairwise_map]
  exact List.Pairwise.imp (fun hlt => min_le_min_right _ (Nat.le_of_lt hlt))
    List.pairwise_lt_range'

end

/-- The numbers that are listed of a track of a sequence, in its playlist and
in the manifest, are answered one-to-one with the segments it has in each
clip, and no others are: for every track of a sequence of clips, and for every
rendition and every shared audio of an adaptive sequence.  Renditions have ids
of their own, and audio tracks are in the order the parser numbers them in. -/
theorem listed_numbers_one_to_one :
    (∀ (title : SequenceTitle) (hnumbered : title.Numbered) (key : TrackKey)
      (lines : List PlaylistLine),
      (title.asset hnumbered).mediaPlaylist key = .ok lines →
      OneToOne lines
        (Dash.sequenceManifest title.views title.total title.version)
        key.text.toList ((title.asset hnumbered).owner key)
        ((title.asset hnumbered).prepareSegment key)) ∧
    ∀ (files : List Clip.TimedIndex) (count : ℕ) (cutter : Clip.Cutter files)
      (renditions : List (Clip.RenditionPlan files count))
      (built : Clip.Grids) (version : String) (sequence : AdaptiveSequence),
      (renditions.map Clip.RenditionPlan.id).Nodup →
      (∀ file ∈ files, file.toMediaIndex.KeysInOrder) →
      cutter.build renditions = .ok built →
      AdaptiveSequence.assemble built version = .ok sequence →
      ∀ (rendition : Option Text) (key : TrackKey)
        (lines : List PlaylistLine),
        sequence.mediaPlaylist rendition key = .ok lines →
        OneToOne lines sequence.dash (representationName rendition key)
          (sequence.owner rendition key)
          (sequence.prepareSegment rendition key) := by
  refine ⟨fun title hnumbered key lines hlines =>
    SequenceTitle.oneToOne hnumbered hlines, ?_⟩
  intro files count cutter renditions built version sequence hids hfiles hbuild
    hassemble rendition key lines hlines
  obtain ⟨rows, hrows⟩ := Clip.Cutter.build_spec hids hfiles hbuild
  obtain ⟨hgrids, hstarts⟩ := AdaptiveSequence.assemble_eq_ok hassemble
  have hlaid : LaidOut sequence.grids := hgrids ▸ hrows.laidOut
  have hlength : sequence.starts.length = sequence.grids.length := by
    rw [hgrids, hstarts, hrows.starts]
  cases hkind : key.kind with
  | video => exact sequence.video_oneToOne hlaid hlength hkind hlines
  | audio => exact sequence.audio_oneToOne hlaid hlength hkind hlines

/-- The clips of the file whose audio is short, as they are rendered. -/
def shortAudioFile (shift : Fin 2) : RenditionFile where
  asset := shortAudioAsset shift
  details id :=
    { language := "en".toList
      label := none
      duration := 2000
      codec := if id = 1 then .avc 640 360 100 0 31 else .ac3 48000 2 }
  audioDefault := false

theorem two_seconds_fit : 2000000000 < 2 ^ 64 := by decide

theorem four_seconds_fit : 4000000000 < 2 ^ 64 := by decide

def shortAudioTitle : SequenceTitle where
  clips := [(shortAudioFile unshifted, 0, .zero),
    (shortAudioFile (Fin.last 1), 2, ⟨2000000000, two_seconds_fit⟩)]
  total := ⟨4000000000, four_seconds_fit⟩
  version := "0123456789abcdef"

theorem shortAudioTitle_numbered : shortAudioTitle.Numbered := by
  unfold SequenceTitle.Numbered
  decide +kernel

/-- The file of the picture. -/
def pictureFile : Fin [Clip.offsetVideo, Clip.plainAudio].length :=
  (Fin.last 1).rev

/-- The file of the sound. -/
def soundFile : Fin [Clip.offsetVideo, Clip.plainAudio].length :=
  Fin.last 1

/-- Half a second of each rendition, and half a second more. -/
def halvedRenditions :
    List (Clip.RenditionPlan [Clip.offsetVideo, Clip.plainAudio] 2) :=
  [⟨"v", [⟨pictureFile, ⟨0, some 500⟩, none⟩,
     ⟨pictureFile, ⟨500, some 1000⟩, none⟩], none, rfl⟩,
   ⟨"a", [⟨soundFile, ⟨0, some 500⟩, none⟩,
     ⟨soundFile, ⟨500, some 1000⟩, none⟩], none, rfl⟩]

def halvedSequence : Result AdaptiveSequence := do
  let built ← Clip.offsetCutter.build halvedRenditions
  AdaptiveSequence.assemble built "0123456789abcdef"

theorem listed_numbers_one_to_one_short_audio :
    (∃ lines, (shortAudioTitle.asset shortAudioTitle_numbered).mediaPlaylist
        (.audio 1) = .ok lines ∧ listedNumbers lines = [0, 2] ∧
      OneToOne lines (Title.sequence shortAudioTitle).manifest
        "audio-1".toList
        ((shortAudioTitle.asset shortAudioTitle_numbered).owner (.audio 1))
        ((shortAudioTitle.asset shortAudioTitle_numbered).prepareSegment
          (.audio 1))) ∧
    ∃ sequence lines, halvedSequence = .ok sequence ∧
      sequence.mediaPlaylist none (.audio 1) = .ok lines ∧
      OneToOne lines sequence.dash "audio-1".toList
        (sequence.owner none (.audio 1))
        (sequence.prepareSegment none (.audio 1)) := by
  constructor
  · obtain ⟨lines, hlines⟩ := exists_ok_of_isOk
      (x := (shortAudioTitle.asset shortAudioTitle_numbered).mediaPlaylist
        (.audio 1)) (by decide +kernel)
    have hlisted : ((shortAudioTitle.asset
        shortAudioTitle_numbered).mediaPlaylist (.audio 1)).map listedNumbers =
        .ok [0, 2] := by decide +kernel
    rw [hlines] at hlisted
    exact ⟨lines, hlines, Except.ok.inj hlisted,
      listed_numbers_one_to_one.1 _ shortAudioTitle_numbered _ _ hlines⟩
  · obtain ⟨⟨sequence, lines⟩, hrun⟩ := exists_ok_of_isOk
      (x := do
        let sequence ← halvedSequence
        let lines ← sequence.mediaPlaylist none (.audio 1)
        .ok (sequence, lines)) (by decide +kernel)
    obtain ⟨found, hfound, hrun⟩ := bind_eq_ok_iff.mp hrun
    obtain ⟨listed, hlines, hrun⟩ := bind_eq_ok_iff.mp hrun
    obtain ⟨built, hbuilt, hassembled⟩ := bind_eq_ok_iff.mp hfound
    have hkeys : ∀ file ∈ [Clip.offsetVideo, Clip.plainAudio],
        file.toMediaIndex.KeysInOrder := by
      unfold MediaIndex.KeysInOrder
      decide
    exact ⟨found, listed, hfound, hlines, listed_numbers_one_to_one.2 _ _ _ _
      built _ found (by decide) hkeys hbuilt hassembled _ _ _ hlines⟩

end Segmentor
