import Segmentor.InitSegments
import Segmentor.PackagedStreams
import Segmentor.ParsedFiles

/-!
# Files whose tracks are announced

The `moov` of an init segment lists no samples and no edits.  A file of it and
the fragments behind it is parsed by taking each track's samples from the
fragments and moving all tracks back to where the earliest starts.
-/

namespace Segmentor

open General EditLists MoovReader

namespace MetadataParser

theorem run_bind_of_run {α β : Type} {x : Outcome α} {f : α → Outcome β}
    {a : α} (h : x.run = some (.ok a)) : (x >>= f).run = (f a).run := by
  rw [ExceptT.run_bind, h]
  rfl

theorem run_mk_eq_ok {α : Type} {x : Option (Result α)} {a : α}
    (h : x = some (.ok a)) : (ExceptT.mk x : Outcome α).run = some (.ok a) := h

/-! ## Tracks that are announced -/

/-- What the `moov` of an init segment says of a track that is not
protected. -/
structure Announced (raw : RawTrack) (written : TrackDescription) : Prop where
  described : describeTrack raw = .ok written
  unprotected : written.sinf = none
  count_eq : sampleCount written.sampleTable = .ok 0
  edit : ∀ movieTimescale trackTimescale,
    trackEdit raw movieTimescale trackTimescale = .ok .none

/-- A track that was parsed as it is announced, with the samples found. -/
structure ParsedAs (raw : RawTrack) (written : TrackDescription)
    (found : List Sample) (track : MediaTrack) : Prop where
  id : track.id = raw.id
  kind : track.kind = kindOf raw.handler
  timescale : track.timescale = written.header.timescale
  language : track.language = written.header.language
  codec : track.codec = written.codec
  clear : track.sourceProtection = none
  samples : track.samples = .fromSamples found

section

variable {limits : LimitsConfig} {sourceLen movieTimescale : ℕ}
  {raw : RawTrack} {written : TrackDescription} {fragments : List Fragment}
  {defaults : List (ℕ × TrackDefaults)} {found : List Sample}

theorem parseTrack_announced (h : Announced raw written)
    (hsamples : trackSamples fragments
      (TrackSource.query raw sourceLen limits defaults) = .ok found)
    (hcount : found.length ≤ 2 ^ 32) (hne : found ≠ []) :
    ∃ track, (parseTrack raw movieTimescale sourceLen limits
        (.fragmented fragments defaults)).run = some (.ok (track, .none)) ∧
      ParsedAs raw written found track := by
  obtain ⟨index, hindex, hfound⟩ : ∃ index : {x : SampleIndex // x.Readable},
      (TrackSource.samples (.fragmented fragments defaults) raw
        written.sampleTable sourceLen limits).run = some (.ok index) ∧
        index.1 = .fromSamples found := by
    unfold TrackSource.samples
    refine ⟨⟨.fromSamples found, ?_⟩, run_bind_eq_ok_iff.mpr ⟨0,
      run_lift_eq_ok_iff.mpr h.count_eq, run_bind_eq_ok_iff.mpr ⟨(),
        run_lift_eq_ok_iff.mpr rfl, ?_⟩⟩, rfl⟩
    · obtain ⟨time, horder⟩ := trackSamples_inOrder hsamples
      exact SampleIndex.fromSamples_readable hcount
        (horder.sorted.imp fun hle => (Nat.le_add_right _ _).trans hle)
    · unfold fragmentedSamples
      split
      · next error herror =>
          rw [hsamples] at herror
          cases herror
      · next samples hread =>
          obtain rfl := Except.ok.inj (hsamples.symm.trans hread)
          rw [dif_pos hcount]
          rfl
  have hpos : index.1.isEmpty = false := by
    rw [Bool.eq_false_iff, ne_eq, SampleIndex.isEmpty_iff index.2, hfound]
    obtain ⟨time, horder⟩ := trackSamples_inOrder hsamples
    have hholds := SampleIndex.fromSamples_holds hcount
      (horder.sorted.imp fun hle => (Nat.le_add_right _ _).trans hle)
    rw [hholds.len_eq]
    exact fun hzero => hne (List.length_eq_zero_iff.mp hzero)
  unfold parseTrack
  split
  · next error herror =>
      rw [h.described] at herror
      cases herror
  · next description hdescription =>
      obtain rfl := Except.ok.inj (h.described.symm.trans hdescription)
      have hclear : (TrackSource.protection (.fragmented fragments defaults)
          raw written.sinf written.sampleTable index.1.len).run =
            some (.ok none) := by
        rw [h.unprotected]
        rfl
      rw [run_bind_of_run hindex, hpos, if_neg Bool.false_ne_true,
        run_bind_of_run hclear,
        run_bind_of_run (run_lift_eq_ok_iff.mpr (h.edit _ _))]
      exact ⟨_, rfl, rfl, rfl, rfl, rfl, rfl, rfl, hfound⟩

theorem parseTracks_of_forall₂ {kept : List RawTrack}
    {source : TrackSource} {parsed : List (MediaTrack × TrackEdit)}
    (h : List.Forall₂ (fun raw entry => (parseTrack raw movieTimescale
      sourceLen limits source).run = some (.ok entry)) kept parsed) :
    (parseTracks kept movieTimescale sourceLen limits source).run =
      some (.ok parsed) := by
  have hresults : (kept.mapM fun raw => (parseTrack raw movieTimescale
      sourceLen limits source).run) = some (parsed.map .ok) := by
    rw [mapM_eq_some_iff, List.forall₂_map_right_iff]
    exact h
  have hall : (parsed.map (Except.ok (ε := Error))).mapM id = .ok parsed := by
    rw [List.mapM_map]
    exact (mapM_eq_ok fun _ _ => rfl).trans (by rw [List.map_id'])
  unfold parseTracks
  change Option.bind (kept.mapM _) _ = _
  rw [hresults, Option.bind_some, hall]

end

/-! ## Tracks without edits -/

section

variable {entries : List (TrackEdit × ℕ)} {movie : ℕ}

/-- No track asks for an edit, and every timescale is a word. -/
structure Unedited (movie : ℕ) (entries : List (TrackEdit × ℕ)) : Prop where
  movie_lt : movie < 2 ^ 32
  entries : ∀ entry ∈ entries, entry.1 = .none ∧ entry.2 < 2 ^ 32

theorem int128_of_nat {value : ℕ} (h : value < 2 ^ 127) :
    int128 value = some (value : ℤ) := by
  have hlow : (-2 ^ 127 : ℤ) ≤ 0 := by norm_num
  exact int128_eq_some_iff.mpr
    ⟨⟨hlow.trans (Int.natCast_nonneg value), by exact_mod_cast h⟩, rfl⟩

theorem largerOffset_none {timescale : ℕ} (hmovie : movie < 2 ^ 32)
    (htimescale : timescale < 2 ^ 32) :
    largerOffset movie (0, 1) (.none, timescale) = some (0, 1) := by
  have hproduct : timescale * movie < 2 ^ 127 :=
    (Nat.mul_lt_mul'' htimescale hmovie).trans (by norm_num)
  have hdenominator := int128_of_nat hproduct
  have hzero : int128 0 = some 0 := rfl
  push_cast at hdenominator
  unfold largerOffset offsetFraction TrackEdit.none
  simp only [Nat.cast_zero, zero_mul, sub_zero, mul_one, hzero, hdenominator,
    Option.bind_eq_bind, Option.bind_some, lt_self_iff_false, if_false]

theorem timelineShift_none {timescale : ℕ} (hmovie : movie < 2 ^ 32) :
    timelineShift movie (0, 1) (.none, timescale) = some (.ok 0) := by
  have hzero : ∀ value : ℤ, value = 0 → int128 value = some 0 := by
    rintro _ rfl
    rfl
  have hmovies := int128_of_nat (hmovie.trans (by norm_num))
  have hdivisor := @int128_of_nat (2 * movie)
    ((Nat.mul_lt_mul_of_pos_left hmovie two_pos).trans (by norm_num))
  have hhalf : (movie : ℤ) / (2 * movie) = 0 := by
    rcases Nat.eq_zero_or_pos movie with rfl | hpos
    · rfl
    · exact Int.ediv_eq_zero_of_lt (by omega) (by omega)
  push_cast at hdivisor
  unfold timelineShift
  -- One step for each of the checked operations.
  refine Option.bind_eq_some_iff.mpr ⟨0, hzero _ (by rfl),
    Option.bind_eq_some_iff.mpr ⟨0, hzero _ (by simp),
    Option.bind_eq_some_iff.mpr ⟨0, hzero _ (by simp),
    Option.bind_eq_some_iff.mpr ⟨0, hzero _ (by simp),
    Option.bind_eq_some_iff.mpr
      ⟨movie, (congrArg int128 (mul_one _)).trans hmovies,
    Option.bind_eq_some_iff.mpr ⟨0, hzero _ (by simp),
    Option.bind_eq_some_iff.mpr
      ⟨movie, (congrArg int128 (zero_add _)).trans hmovies,
    Option.bind_eq_some_iff.mpr ⟨2 * movie, hdivisor,
    Option.bind_eq_some_iff.mpr ⟨0, hzero _ ?_, rfl⟩⟩⟩⟩⟩⟩⟩⟩⟩
  rw [hhalf]
  rfl

theorem Unedited.sharedOffset_eq (h : Unedited movie entries) :
    sharedOffset entries movie = some (0, 1) := by
  obtain ⟨hmovie, hentries⟩ := h
  unfold sharedOffset
  induction entries with
  | nil => rfl
  | cons entry entries ih =>
      obtain ⟨⟨hnone, htimescale⟩, hrest⟩ := List.forall_mem_cons.mp hentries
      obtain ⟨edit, timescale⟩ := entry
      dsimp only at hnone htimescale
      subst hnone
      rw [List.foldlM_cons, largerOffset_none hmovie htimescale]
      exact ih hrest

theorem Unedited.timelineShifts_eq (h : Unedited movie entries) :
    timelineShifts entries movie =
      some (.ok (entries.map fun _ => 0)) := by
  have hshifts : shiftsFrom movie (0, 1) entries =
      some (.ok (entries.map fun _ => 0)) := by
    obtain ⟨hmovie, hentries⟩ := h
    induction entries with
    | nil => rfl
    | cons entry entries ih =>
        obtain ⟨⟨hnone, -⟩, hrest⟩ := List.forall_mem_cons.mp hentries
        obtain ⟨edit, timescale⟩ := entry
        dsimp only at hnone
        subst hnone
        unfold shiftsFrom
        rw [timelineShift_none hmovie]
        change (shiftsFrom movie (0, 1) entries).bind _ = _
        rw [ih hrest]
        rfl
  unfold timelineShifts
  rw [h.sharedOffset_eq]
  exact hshifts

theorem Unedited.sharedOffsetMillis_eq (h : Unedited movie entries) :
    sharedOffsetMillis entries movie = some 0 := by
  unfold sharedOffsetMillis
  rw [h.sharedOffset_eq]
  rfl

theorem applyEdits_unedited {parsed : List (MediaTrack × TrackEdit)}
    (h : ∀ entry ∈ parsed, entry.2 = .none) :
    applyEdits (parsed.zip (parsed.map fun _ => 0)) =
      .ok (parsed.map Prod.fst) := by
  have heach : applyEdits (parsed.zip (parsed.map fun _ => 0)) =
      .ok ((parsed.zip (parsed.map fun _ => 0)).map fun entry =>
        entry.1.1) := by
    unfold applyEdits
    refine mapM_eq_ok fun entry hentry => ?_
    obtain ⟨hleft, hright⟩ := List.of_mem_zip hentry
    obtain ⟨-, -, hzero⟩ := List.mem_map.mp hright
    unfold MediaTrack.apply EditLists.apply
    rw [if_pos ⟨h entry.1 hleft, hzero.symm⟩]
    rfl
  have hfirst := @List.map_fst_zip _ _ parsed (parsed.map fun _ => 0)
    (by rw [List.length_map])
  rw [heach]
  conv_rhs => rw [← hfirst, List.map_map]
  rfl

end

/-! ## The start of the timeline -/

theorem exists_shifted {track : ParsedTrack} {delta : ℤ}
    (hfits : FitsMoved delta track.samples.all) (message : String) :
    ∃ moved, track.shifted delta message = .ok moved := by
  have hmoves := track.holds.shifted_eq delta message
  rw [if_pos hfits] at hmoves
  unfold ParsedTrack.shifted
  split
  · next error herror =>
      rw [hmoves] at herror
      cases herror
  · exact ⟨_, rfl⟩

theorem exists_normaliseTrack {earliest : ℕ × ℕ} {track : ParsedTrack}
    (hvalid : track.samples.Valid) (hpos : 0 < track.samples.len)
    (horigin : timelineOrigin earliest track ≤ track.samples.decodeTime 0) :
    ∃ moved, normaliseTrack earliest track = .ok moved := by
  have hlast := Nat.sub_lt hpos one_pos
  have hword := hvalid.sample_end_lt hlast
  have hfirst := hvalid.decodeTime_mono (Nat.zero_le _) hlast
  have hfits : FitsMoved (-(timelineOrigin earliest track : ℤ))
      track.samples.all := by
    rw [track.holds.fitsMoved_iff hpos]
    omega
  obtain ⟨later, hlater⟩ := exists_shifted hfits "timeline origin overflow"
  obtain ⟨-, hholds, -⟩ := ParsedTrack.shifted_spec hlater
  have hlen := hholds.len_eq
  rw [List.length_map, SampleIndex.length_all] at hlen
  have hget := hholds.get_eq (i := track.samples.len - 1)
    (by rw [List.getElem?_map, SampleIndex.getElem?_all hlast]; rfl)
  have hend : later.samples.last = some
      ((track.samples.get (track.samples.len - 1)).moved
        (-(timelineOrigin earliest track : ℤ))) := by
    unfold SampleIndex.last
    rw [hlen, checkedSub_eq_some_iff.mpr ⟨hpos, rfl⟩, Option.map_some, hget]
  have htime : ((track.samples.get (track.samples.len - 1)).moved
      (-(timelineOrigin earliest track : ℤ))).decodeTime +
        ((track.samples.get (track.samples.len - 1)).moved
          (-(timelineOrigin earliest track : ℤ))).duration < 2 ^ 64 := by
    unfold Sample.moved
    dsimp only
    rw [SampleIndex.get_decodeTime]
    omega
  unfold normaliseTrack
  rw [if_neg (by omega), hlater, ok_bind, hend, okOr_some, ok_bind,
    checkedAdd_eq_some_iff.mpr ⟨htime, rfl⟩, okOr_some, ok_bind]
  exact ⟨_, rfl⟩

/-- Where the timeline of a file starts: at the earliest first sample. -/
structure Origin (tracks : List MediaTrack) (origin : ℕ × ℕ) : Prop where
  first : ∃ track ∈ tracks,
    origin = (track.samples.decodeTime 0, track.timescale)
  le : ∀ track ∈ tracks,
    origin.1 * track.timescale ≤ track.samples.decodeTime 0 * origin.2

/-- The tracks of a fragmented file are moved back to where its timeline
starts. -/
theorem exists_normaliseFragmented {tracks : List MediaTrack}
    (hne : tracks ≠ [])
    (hvalid : ∀ track ∈ tracks, track.samples.Valid)
    (hpos : ∀ track ∈ tracks, 0 < track.samples.len) :
    ∃ origin moved, Origin tracks origin ∧
      normaliseFragmented tracks = .ok moved ∧
      List.Forall₂ (fun track moved => Keeps track moved ∧
        MovedBack (timelineOrigin origin track.toParsedTrack)
          track.toParsedTrack moved.toParsedTrack) tracks moved := by
  have hparsed : ∀ parsed ∈ tracks.map MediaTrack.toParsedTrack,
      parsed.samples.Valid ∧ 0 < parsed.samples.len := by
    intro parsed hmem
    obtain ⟨track, htrack, rfl⟩ := List.mem_map.mp hmem
    exact ⟨hvalid track htrack, hpos track htrack⟩
  cases hearliest : earliestStart (tracks.map MediaTrack.toParsedTrack) with
  | none =>
      obtain ⟨track, htrack⟩ := List.exists_mem_of_ne_nil _ hne
      have hzero := earliestStart_eq_none hearliest track.toParsedTrack
        (List.mem_map_of_mem htrack)
      exact absurd hzero (hpos track htrack).ne'
  | some origin =>
      obtain ⟨⟨first, hfirst, hstart⟩, hle⟩ := earliestStart_spec hearliest
      obtain ⟨-, rfl⟩ := startFraction_eq_some_iff.mp hstart
      obtain ⟨leading, hleading, rfl⟩ := List.mem_map.mp hfirst
      set origin := (leading.samples.decodeTime 0, leading.timescale)
      have hcross : ∀ track ∈ tracks, origin.1 * track.timescale ≤
          track.samples.decodeTime 0 * origin.2 := by
        intro track htrack
        have hinstant := hle _ (List.mem_map_of_mem htrack)
          (hpos track htrack)
        unfold ParsedTrack.startSeconds instant at hinstant
        rw [ratio_le_ratio_iff
          (Int.natCast_pos.mpr leading.timescale_pos)
          (Int.natCast_pos.mpr track.timescale_pos)] at hinstant
        dsimp only at hinstant
        exact_mod_cast hinstant
      have horigin : ∀ track ∈ tracks,
          timelineOrigin origin track.toParsedTrack ≤
            track.samples.decodeTime 0 := by
        intro track htrack
        have hscaled := hcross track htrack
        unfold timelineOrigin rescaled
        exact Nat.div_le_of_le_mul ((hscaled).trans_eq (Nat.mul_comm _ _))
      obtain ⟨parsed, hnormalised⟩ : ∃ parsed, List.Forall₂
          (fun track moved => normaliseTrack origin track = .ok moved)
          (tracks.map MediaTrack.toParsedTrack) parsed := by
        refine exists_forall₂_iff.mpr fun track htrack => ?_
        obtain ⟨hvalidTrack, hposTrack⟩ := hparsed track htrack
        obtain ⟨own, hown, rfl⟩ := List.mem_map.mp htrack
        exact exists_normaliseTrack hvalidTrack hposTrack (horigin own hown)
      have hmoved : normaliseFragmented tracks = .ok (List.zipWith
          (fun track moved => { track with toParsedTrack := moved }) tracks
            parsed) := by
        unfold normaliseFragmented normaliseFragmentedTimeline
        rw [hearliest]
        dsimp only
        rw [mapM_of_forall₂ hnormalised]
        rfl
      refine ⟨origin, _, ⟨⟨leading, hleading, rfl⟩, hcross⟩, hmoved, ?_⟩
      rw [List.forall₂_map_left_iff] at hnormalised
      refine forall₂_zipWith_right hnormalised fun track moved hmoves => ?_
      obtain ⟨-, hback⟩ := normaliseTrack_spec hmoves
      exact ⟨⟨hback.id, hback.kind, hback.timescale, rfl, rfl, rfl,
        normaliseTrack_movesTo hmoves, fun hlen =>
          hlen.trans_eq hback.len_eq.symm⟩, hback⟩

/-! ## The whole file -/

/-- `moved` is `track`, moved back to where its file's timeline starts. -/
structure Rebased (origin : ℕ × ℕ) (track moved : MediaTrack) : Prop where
  keeps : Keeps track moved
  back : MovedBack (timelineOrigin origin track.toParsedTrack)
    track.toParsedTrack moved.toParsedTrack

theorem assignKeysFrom_same (audio : ℕ) (tracks : List MediaTrack) :
    List.Forall₂ (fun track named : MediaTrack =>
      ∃ key, named = { track with key := key }) tracks
      (assignKeysFrom audio tracks) := by
  induction tracks generalizing audio with
  | nil => exact .nil
  | cons track rest ih =>
      unfold assignKeysFrom
      split
      · exact .cons ⟨_, rfl⟩ (ih _)
      · exact .cons ⟨_, rfl⟩ (ih _)

/-- Every track of a fragmented file is announced, and its fragments list
samples for it. -/
structure Readable (metadata : Metadata) (limits : ParserLimits)
    (moov : RawMoov) (raw : RawTrack) (found : List Sample) : Prop where
  kept : RawTrack.kept raw = true
  announced : ∃ written, Announced raw written
  samples : trackSamples metadata.fragments (TrackSource.query raw
    metadata.len limits.toLimitsConfig moov.defaults) = .ok found
  nonempty : found ≠ []

section

variable {metadata : Metadata} {limits : ParserLimits} {moov : RawMoov}
  {blake3 : List UInt8 → List UInt8}

/-- A fragmented file whose tracks have no edits is parsed by putting its
tracks on one timeline and naming them. -/
theorem parseMetadata_unedited (hmoov : validateRawMoov metadata.moovBytes =
      .ok moov) (hfragmented : moov.fragmented = true)
    (hmovie : moov.movieTimescale < 2 ^ 32)
    (hcount : moov.tracks.length ≤ limits.maxTracks)
    (hfragments : metadata.fragments ≠ []) {parsed moved : List MediaTrack}
    (hparsed : (parseTracks (moov.tracks.filter RawTrack.kept)
      moov.movieTimescale metadata.len limits.toLimitsConfig
        (.fragmented metadata.fragments moov.defaults)).run =
          some (.ok (parsed.map fun track => (track, TrackEdit.none))))
    (htimescales : ∀ track ∈ parsed, track.timescale < 2 ^ 32)
    (hmoved : normaliseFragmented parsed = .ok moved) :
    ∃ media, (parseMetadata blake3 metadata limits).run = some (.ok media) ∧
      media.tracks = assignKeys moved := by
  have hsource : trackSource moov metadata =
      .ok (.fragmented metadata.fragments moov.defaults) := by
    unfold trackSource
    rw [if_pos hfragmented, if_neg (by simpa using hfragments)]
  have hunedited : Unedited moov.movieTimescale
      ((parsed.map fun track => (track, TrackEdit.none)).map
        fun entry => (entry.2, entry.1.timescale)) := by
    refine ⟨hmovie, fun entry hentry => ?_⟩
    rw [List.map_map] at hentry
    obtain ⟨track, htrack, rfl⟩ := List.mem_map.mp hentry
    exact ⟨rfl, htimescales track htrack⟩
  have hedits := @applyEdits_unedited
    (parsed.map fun track => (track, TrackEdit.none)) (by
      intro entry hentry
      obtain ⟨track, -, rfl⟩ := List.mem_map.mp hentry
      rfl)
  have hfirst : (parsed.map fun track => (track, TrackEdit.none)).map
      Prod.fst = parsed := by
    rw [List.map_map]
    exact List.map_id' parsed
  rw [hfirst] at hedits
  have hzeros : (((parsed.map fun track => (track, TrackEdit.none)).map
      fun entry => (entry.2, entry.1.timescale)).map fun _ => 0) =
        (parsed.map fun track => (track, TrackEdit.none)).map fun _ => 0 := by
    rw [List.map_map]
    rfl
  have hshifts := hunedited.timelineShifts_eq
  rw [hzeros] at hshifts
  have hshiftsRun := run_mk_eq_ok hshifts
  have hoffset := run_mk_eq_ok
    (congrArg (Option.map Except.ok) hunedited.sharedOffsetMillis_eq)
  unfold parseMetadata
  rw [run_bind_of_run (run_lift_eq_ok_iff.mpr hmoov), if_neg (by omega),
    run_bind_of_run (run_lift_eq_ok_iff.mpr hsource),
    run_bind_of_run hparsed]
  dsimp only
  rw [run_bind_of_run hshiftsRun, run_bind_of_run hoffset,
    run_bind_of_run (run_lift_eq_ok_iff.mpr hedits), if_pos hfragmented,
    run_bind_of_run (run_lift_eq_ok_iff.mpr hmoved)]
  exact ⟨_, rfl, rfl⟩

theorem parseMetadata_readable (hmoov : validateRawMoov metadata.moovBytes =
      .ok moov) (hfragmented : moov.fragmented = true)
    (hmovie : moov.movieTimescale < 2 ^ 32)
    (hlimit : limits.maxSamplesPerTrack < 2 ^ 32)
    (hcount : moov.tracks.length ≤ limits.maxTracks)
    (hne : moov.tracks ≠ []) (hfragments : metadata.fragments ≠ [])
    {listed : List (List Sample)}
    (hlisted : List.Forall₂ (Readable metadata limits moov) moov.tracks
      listed) :
    ∃ parsed origin media,
      List.Forall₂ (fun raw (track : MediaTrack) => ∃ written found,
        Announced raw written ∧ Readable metadata limits moov raw found ∧
          ParsedAs raw written found track) moov.tracks parsed ∧
      Origin parsed origin ∧
      (parseMetadata blake3 metadata limits).run = some (.ok media) ∧
      List.Forall₂ (Rebased origin) parsed media.tracks := by
  have hkept : moov.tracks.filter RawTrack.kept = moov.tracks := by
    rw [List.filter_eq_self]
    intro raw hraw
    obtain ⟨found, -, hreadable⟩ := exists_mem_of_forall₂ hlisted hraw
    exact hreadable.kept
  have hfits := (validateRawMoov_checked hmoov).defaults
  -- Each track by itself.
  obtain ⟨parsed, hparsed⟩ : ∃ parsed, List.Forall₂
      (fun raw (track : MediaTrack) =>
        (parseTrack raw moov.movieTimescale metadata.len limits.toLimitsConfig
          (.fragmented metadata.fragments moov.defaults)).run =
            some (.ok (track, .none)) ∧
          ∃ written found, Announced raw written ∧
            Readable metadata limits moov raw found ∧
              ParsedAs raw written found track) moov.tracks parsed := by
    refine exists_forall₂_iff.mpr fun raw hraw => ?_
    obtain ⟨found, -, hreadable⟩ := exists_mem_of_forall₂ hlisted hraw
    obtain ⟨written, hannounced⟩ := hreadable.announced
    obtain ⟨time, horder⟩ := trackSamples_inOrder hreadable.samples
    obtain ⟨track, hrun, hspec⟩ := @parseTrack_announced _ _
      moov.movieTimescale _ _ _ _ _ hannounced hreadable.samples
      (horder.count.trans hlimit.le) hreadable.nonempty
    exact ⟨track, hrun, written, found, hannounced, hreadable, hspec⟩
  have hspecs := hparsed.imp fun _ _ h => h.2
  have htracks : ∀ track ∈ parsed, track.samples.Valid ∧
      0 < track.samples.len ∧ track.timescale < 2 ^ 32 := by
    intro track htrack
    obtain ⟨raw, -, written, found, hannounced, hreadable, hspec⟩ :=
      exists_mem_of_forall₂ hspecs.flip htrack
    obtain ⟨time, horder⟩ := trackSamples_inOrder hreadable.samples
    have hholds := SampleIndex.fromSamples_holds
      (horder.count.trans hlimit.le)
      (horder.sorted.imp fun hle => (Nat.le_add_right _ _).trans hle)
    have hindexes : TrackSource.Indexes limits.toLimitsConfig metadata.len raw
        written.sampleTable (.fragmented metadata.fragments moov.defaults)
        (SampleIndex.fromSamples found) :=
      .fragmented hannounced.count_eq hreadable.samples
    have hvalid := hindexes.valid hfits hlimit
    rw [hspec.samples, hspec.timescale, hholds.len_eq]
    exact ⟨hvalid, List.length_pos_iff.mpr hreadable.nonempty,
      (describeTrack_timescale hannounced.described).2⟩
  have hrun : (parseTracks moov.tracks moov.movieTimescale metadata.len
      limits.toLimitsConfig
      (.fragmented metadata.fragments moov.defaults)).run =
        some (.ok (parsed.map fun track => (track, TrackEdit.none))) :=
    parseTracks_of_forall₂
      ((List.forall₂_map_right_iff).mpr (hparsed.imp fun _ _ h => h.1))
  -- All of them together.
  have hnone : parsed ≠ [] := by
    rintro rfl
    exact hne (List.forall₂_nil_right_iff.mp hspecs)
  obtain ⟨origin, moved, horigin, hnormalised, hmoved⟩ :=
    exists_normaliseFragmented hnone (fun track htrack =>
      (htracks track htrack).1) fun track htrack => (htracks track htrack).2.1
  obtain ⟨media, hmedia, hnamed⟩ := @parseMetadata_unedited _ _ _ blake3
    hmoov hfragmented hmovie hcount hfragments _ _ (by rw [hkept]; exact hrun)
    (fun track htrack => (htracks track htrack).2.2) hnormalised
  refine ⟨parsed, origin, media, hspecs, horigin, hmedia, ?_⟩
  rw [hnamed]
  refine forall₂_comp hmoved (assignKeysFrom_same 0 moved) ?_
  rintro track moved _ ⟨hkeeps, hback⟩ ⟨key, rfl⟩
  exact ⟨⟨hkeeps.id, hkeeps.kind, hkeeps.timescale, hkeeps.language,
    hkeeps.codec, hkeeps.sourceProtection, hkeeps.samples, hkeeps.nonempty⟩,
    ⟨hback.id, hback.kind, hback.timescale, hback.len_eq, hback.origin_le,
      hback.get_eq⟩⟩

end

end MetadataParser

end Segmentor
