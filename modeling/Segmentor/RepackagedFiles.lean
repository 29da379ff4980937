import Segmentor.AnnouncedFiles

/-!
# A packaged stream is read as its tracks

The file of an init segment and the fragments behind it is parsed like any
other source.  Its `moov` announces the tracks of the stream, its fragments
hold their samples, and nothing but the start of the timeline changes on the
way.
-/

namespace Segmentor

open General EditLists MoovReader

namespace MetadataParser

/-! ## The file that is packaged -/

theorem sampleIndex_len_le {tables : SampleTables} {sourceLen : ℕ}
    {limits : LimitsConfig} {base : SampleIndex}
    (h : sampleIndex tables sourceLen limits = .ok base) :
    base.len ≤ limits.maxSamplesPerTrack := by
  unfold sampleIndex at h
  dsimp only at h
  split at h
  · cases h
  next hcount =>
    obtain ⟨chunks, -, h⟩ := bind_eq_ok_iff.mp h
    obtain ⟨times, -, h⟩ := bind_eq_ok_iff.mp h
    obtain ⟨composition, -, h⟩ := bind_eq_ok_iff.mp h
    split at h
    · cases h
    · obtain rfl := Except.ok.inj h
      unfold SampleIndex.new SampleIndex.len Tables.len
      dsimp only
      rw [SampleSizes.length_expand]
      omega

section

variable {limits : LimitsConfig} {sourceLen : ℕ} {source : TrackSource}
  {raw : RawTrack} {track : MediaTrack}

theorem TrackSource.Indexes.len_le {sampleTable : List UInt8}
    {base : SampleIndex}
    (h : source.Indexes limits sourceLen raw sampleTable base)
    (hlimit : limits.maxSamplesPerTrack < 2 ^ 32) :
    base.len ≤ limits.maxSamplesPerTrack := by
  cases h with
  | tables htables hbase => exact sampleIndex_len_le hbase
  | fragmented hmoov hsamples =>
      obtain ⟨time, horder⟩ := trackSamples_inOrder hsamples
      have hholds := SampleIndex.fromSamples_holds
        (horder.count.trans hlimit.le)
        (horder.sorted.imp fun hle => (Nat.le_add_right _ _).trans hle)
      rw [hholds.len_eq]
      exact horder.count

/-- A cut index has no more samples. -/
theorem len_le_of_movesTo {x y : SampleIndex} (h : x.MovesTo y) :
    y.len ≤ x.len := by
  obtain ⟨moves, hmoves⟩ := h
  refine foldlM_invariant (I := fun _ (z : SampleIndex) => z.len ≤ x.len) ?_
    (Nat.le_refl _) hmoves
  intro move rest z next hz hmove
  cases move with
  | window first stop =>
      unfold SampleIndex.move at hmove
      dsimp only at hmove
      split at hmove
      · next hinside =>
          obtain rfl := Except.ok.inj hmove
          have hlen : (z.window first stop).len = stop - first := by
            unfold SampleIndex.window SampleIndex.len
            dsimp only
            omega
          omega
      · cases hmove
  | shifted delta message =>
      unfold SampleIndex.move SampleIndex.shifted at hmove
      dsimp only at hmove
      split at hmove
      · split at hmove
        · cases hmove
        · obtain rfl := Except.ok.inj hmove
          exact hz
      · obtain rfl := Except.ok.inj hmove
        exact hz

theorem TrackOf.loaded {file : List UInt8} {indexed : Track}
    (h : TrackOf limits sourceLen source raw track)
    (hindexed : IndexedAs track indexed) (hfits : source.Fits)
    (hlimit : limits.maxSamplesPerTrack < 2 ^ 32)
    (hlength : sourceLen = file.length) : Loaded file limits indexed := by
  constructor
  · rw [hindexed.samples, ← hlength]
    exact h.inside hfits hlimit
  · obtain ⟨description, base, -, -, -, -, hindexes, -, hmoves⟩ := h.described
    rw [hindexed.samples]
    exact (len_le_of_movesTo hmoves).trans (hindexes.len_le hlimit)

end

/-! ## Repackaging -/

/-- An asset of a file: its tracks are those that are parsed from it. -/
structure Packages (blake3 : List UInt8 → List UInt8) (source : List UInt8)
    (limits : ParserLimits) (metadata : Metadata) (media : ParsedMedia)
    (asset : PackagedAsset) : Prop where
  fetched : ∃ useSidx,
    fetchWith source limits.toLimitsConfig useSidx = .ok metadata
  parsed : (parseMetadata blake3 metadata limits).run = some (.ok media)
  indexed : List.Forall₂ IndexedAs media.tracks asset.index.tracks
  limit : limits.maxSamplesPerTrack < 2 ^ 32

/-- What a player downloads of a stream, small enough to be a source. -/
structure Downloaded (source : List UInt8) (limits : ParserLimits)
    (metadata : Metadata) (asset : PackagedAsset) (stream : StreamName)
    (tracks : List Track) (init : List UInt8)
    (served : List PreparedSegment) : Prop where
  tracks_eq : asset.streamTracks stream = .ok tracks
  unique : (tracks.map Track.id).Nodup
  init_eq : InitSegment.writeMuxedInitSegment metadata.moovBytes
    (tracks.map Track.id) = .ok init
  serves : asset.Serves stream tracks served
  held : ∀ track ∈ tracks, ∃ part ∈ asset.plan.trackSegments track.id,
    part.firstSample < part.endSample
  beside : ∀ track ∈ tracks, ∀ other ∈ tracks, other.id ≠ track.id →
    track.endTime + other.endTime < 2 ^ 64
  count : served.length ≤ limits.maxFragments
  bytes : init.length + (served.map fun prepared =>
    prepared.header.length).sum ≤ limits.maxMetadataBytes
  word : (init ++ served.flatMap fun prepared =>
    prepared.served source).length < 2 ^ 64

section

variable {blake3 : List UInt8 → List UInt8} {source init : List UInt8}
  {limits : ParserLimits} {metadata : Metadata} {media : ParsedMedia}
  {asset : PackagedAsset} {stream : StreamName} {tracks : List Track}
  {served : List PreparedSegment} {raw : RawMoov}

theorem Packages.length_eq
    (h : Packages blake3 source limits metadata media asset) :
    metadata.len = source.length := by
  obtain ⟨useSidx, hfetched⟩ := h.fetched
  obtain ⟨walk, -, -, -, hlength, -⟩ := fetchWith_eq_ok_iff.mp hfetched
  exact hlength

theorem Packages.exists_original
    (h : Packages blake3 source limits metadata media asset)
    (hmoov : validateRawMoov metadata.moovBytes = .ok raw) {track : Track}
    (htrack : track ∈ asset.index.tracks) :
    ∃ original ∈ media.tracks, IndexedAs original track ∧
      Loaded source limits.toLimitsConfig track ∧
      ∃ listed ∈ raw.tracks, listed.id = track.id ∧
        listed.disposition = .package ∧ original.kind = kindOf listed.handler ∧
        ∃ description, describeTrack listed = .ok description ∧
          original.timescale = description.header.timescale ∧
          original.language = description.header.language ∧
          original.codec = description.codec := by
  obtain ⟨moov, found, edited, hfoundMoov, hsource, hedited, htracks⟩ :=
    parseMetadata_spec h.parsed
  obtain rfl := Except.ok.inj (hmoov.symm.trans hfoundMoov)
  have hfits := trackSource_fits (validateRawMoov_checked hmoov) hsource
  have hall : List.Forall₂ (TrackOf limits.toLimitsConfig metadata.len found)
      (raw.tracks.filter RawTrack.kept) media.tracks := by
    rw [htracks]
    exact forall₂_comp hedited (assignKeysFrom_keeps 0 edited)
      fun listed original named hof hkeeps => hof.keep hkeeps.1
  obtain ⟨original, horiginal, hindexed⟩ :=
    exists_mem_of_forall₂ h.indexed.flip htrack
  obtain ⟨listed, hlisted, hof⟩ := exists_mem_of_forall₂ hall.flip horiginal
  obtain ⟨description, base, hdescription, htimescale, hlanguage, hcodec, -⟩ :=
    hof.described
  exact ⟨original, horiginal, hindexed,
    hof.loaded hindexed hfits h.limit h.length_eq, listed,
    List.mem_of_mem_filter hlisted, hof.id.symm.trans hindexed.id.symm,
    eq_of_beq (List.mem_filter.mp hlisted).2, hof.kind, description,
    hdescription, htimescale, hlanguage, hcodec⟩

/-- The tracks of the asset are packaged. -/
theorem Packages.packaged
    (h : Packages blake3 source limits metadata media asset)
    (hmoov : validateRawMoov metadata.moovBytes = .ok raw) {track : Track}
    (htrack : track ∈ asset.index.tracks) {listed : RawTrack}
    (hlisted : listed ∈ raw.tracks) (hid : listed.id = track.id)
    (hfits : InitSegment.EntryFits listed) :
    ∃ entry description, InitSegment.Packaged listed entry description := by
  obtain ⟨-, -, -, -, kept, hkept, hkeptId, hpackage, -, description,
    hdescription, -⟩ := h.exists_original hmoov htrack
  obtain rfl : kept = listed :=
    List.inj_on_of_nodup_map (validateRawMoov_checked hmoov).distinct.nodup
      hkept hlisted (hkeptId.trans hid.symm)
  obtain ⟨entry, hentry⟩ := InitSegment.packaged_of_described
    hpackage hdescription hfits
  exact ⟨entry, description, hentry⟩

theorem Downloaded.streamed
    (hload : Downloaded source limits metadata asset stream tracks init
      served) : Streamed asset.index asset.plan tracks := by
  obtain ⟨targetDurationMs, hplan⟩ := asset.planned
  refine ⟨hload.unique, ?_, targetDurationMs, asset.limits, hplan⟩
  have htracks := hload.tracks_eq
  have hmem : ∀ key track, asset.track key = .ok track →
      track ∈ asset.index.tracks :=
    fun key track hkey => (Presentation.track_eq_ok hkey).1
  unfold PackagedAsset.streamTracks at htracks
  cases stream with
  | single key =>
      dsimp only at htracks
      cases hkey : asset.track key with
      | error error =>
          rw [hkey] at htracks
          cases htracks
      | ok track =>
          rw [hkey] at htracks
          obtain rfl := Except.ok.inj htracks
          exact List.forall_mem_singleton.mpr (hmem key track hkey)
  | muxed =>
      dsimp only at htracks
      obtain ⟨muxed, -, htracks⟩ := bind_eq_ok_iff.mp htracks
      intro track htrack
      obtain ⟨key, -, hkey⟩ := exists_of_mem_mapM htracks htrack
      exact hmem key track hkey

end

/-- `found` is what is read of a track of a stream: it is described as the
original is, has the samples that the plan serves, and they decode when its
fragments say, from where the timeline starts. -/
structure Repackaged (source file : List UInt8) (plan : SegmentPlan)
    (origin : ℕ × ℕ) (original : MediaTrack) (track : Track)
    (found : MediaTrack) : Prop where
  id : found.id = original.id
  kind : found.kind = original.kind
  timescale : found.timescale = original.timescale
  language : found.language = original.language
  codec : found.codec = original.codec
  clear : found.sourceProtection = none
  samples : ∃ first, Tiles first (plan.spans track.id) track.samples.len ∧
    List.Forall₂ (SameSample source file track.kind)
      (track.samples.all.drop first) found.samples.all
  times : (found.samples.all.map fun sample =>
    sample.decodeTime + timelineOrigin origin found.toParsedTrack) =
      Streamed.times plan track

/-- Where the timeline of a stream starts: where a track does that none starts
before. -/
structure StreamOrigin (plan : SegmentPlan) (tracks : List Track)
    (origin : ℕ × ℕ) : Prop where
  first : ∃ track ∈ tracks,
    (Streamed.times plan track).head? = some origin.1 ∧
      origin.2 = track.timescale
  le : ∀ track ∈ tracks, ∀ time ∈ (Streamed.times plan track).head?,
    origin.1 * track.timescale ≤ time * origin.2

theorem all_of_movedBack {origin : ℕ} {track moved : ParsedTrack}
    (h : MovedBack origin track moved) :
    moved.samples.all = track.samples.all.map fun sample =>
      { sample with decodeTime := sample.decodeTime - origin } := by
  unfold SampleIndex.all
  rw [h.len_eq, List.map_map]
  refine List.map_congr_left fun i hi => ?_
  exact h.get_eq i (List.mem_range.mp hi)

section

variable {source file : List UInt8} {plan : SegmentPlan} {origin : ℕ × ℕ}
  {original parsed found : MediaTrack} {track : Track} {samples : List Sample}

/-- What is read of a track is moved back with its file. -/
theorem samples_rebased {listed : List Sample}
    (hholds : parsed.samples.Holds samples) (h : Rebased origin parsed found)
    (hsame : List.Forall₂ (SameSample source file track.kind) listed samples)
    (htimes : samples.map Sample.decodeTime = Streamed.times plan track) :
    List.Forall₂ (SameSample source file track.kind) listed
        found.samples.all ∧
      (found.samples.all.map fun sample =>
        sample.decodeTime + timelineOrigin origin found.toParsedTrack) =
          Streamed.times plan track := by
  have hall := all_of_movedBack h.back
  have horigin : timelineOrigin origin found.toParsedTrack =
      timelineOrigin origin parsed.toParsedTrack := by
    unfold timelineOrigin
    rw [h.keeps.timescale]
  have hle : ∀ sample ∈ samples,
      timelineOrigin origin parsed.toParsedTrack ≤ sample.decodeTime := by
    intro sample hsample
    rw [← hholds.all_eq] at hsample
    obtain ⟨i, hi, rfl⟩ := List.mem_map.mp hsample
    rw [SampleIndex.get_decodeTime]
    exact h.back.origin_le i (List.mem_range.mp hi)
  rw [hall, hholds.all_eq, horigin]
  constructor
  · rw [List.forall₂_map_right_iff]
    exact hsame.imp fun _ _ hsample => ⟨hsample.size_eq, hsample.duration_eq,
      hsample.compositionOffset_eq, hsample.isSync_eq, hsample.bytes_eq⟩
  · rw [List.map_map, ← htimes]
    refine List.map_congr_left fun sample hsample => ?_
    have := hle sample hsample
    simp only [Function.comp_apply]
    omega

end

section

variable {blake3 : List UInt8 → List UInt8} {source init : List UInt8}
  {limits : ParserLimits} {metadata : Metadata} {media : ParsedMedia}
  {asset : PackagedAsset} {stream : StreamName} {tracks : List Track}
  {served : List PreparedSegment} {raw : RawMoov}

theorem sum_moofPayload_le {fragments : List StreamFragment} :
    (fragments.map fun fragment =>
        fragment.prepared.moofPayload.length + 8).sum ≤
      (fragments.map fun fragment => fragment.prepared.header.length).sum := by
  refine List.sum_le_sum fun fragment _ => ?_
  have hheader := congrArg List.length fragment.framed.header_eq
  rw [List.length_append, length_boxBytes_code] at hheader
  omega

theorem exists_initBytes {moov : List UInt8} {trackIds : List ℕ}
    (h : InitSegment.writeMuxedInitSegment moov trackIds = .ok init) :
    ∃ content,
      init = InitSegment.FTYP ++ boxBytes (code 'm' 'o' 'o' 'v') content ∧
        InitBytes init (InitSegment.FTYP.drop 8) content := by
  obtain ⟨root, children, header, untimed, traks, -, -, -, -, -, -, hsize,
    hinit⟩ := @InitSegment.writeInit_eq_ok _ _ _ none [] rfl
      (List.forall_mem_nil _) h
  refine ⟨_, hinit, ?_, ?_⟩
  · have hftyp : InitSegment.FTYP = boxBytes (code 'f' 't' 'y' 'p')
        (InitSegment.FTYP.drop 8) := by decide
    unfold initBoxes
    rw [boxesBytes_cons, boxesBytes_cons, boxesBytes_nil, List.append_nil,
      ← hftyp]
    exact hinit
  · exact List.forall_mem_cons.mpr ⟨⟨rfl, by decide⟩,
      List.forall_mem_singleton.mpr ⟨rfl, hsize⟩⟩

/-- What is downloaded is a file of an init segment and fragments that hold
the stream's parts. -/
theorem Downloaded.exists_fragments
    (h : Downloaded source limits metadata asset stream tracks init served) :
    ∃ fragments : List StreamFragment,
      packagedFile source init fragments =
        init ++ served.flatMap (fun prepared => prepared.served source) ∧
      fragments.flatMap StreamFragment.parts =
        ((asset.plan.streamParts tracks).filter hasSamples).map expand ∧
      fragments.length ≤ limits.maxFragments ∧
      init.length + (fragments.map fun fragment =>
        fragment.prepared.header.length).sum ≤ limits.maxMetadataBytes := by
  obtain ⟨fragments, rfl, hparts⟩ := h.serves.fragments h.tracks_eq
  have hcount := h.count
  have hbytes := h.bytes
  rw [List.length_map] at hcount
  rw [List.map_map] at hbytes
  refine ⟨fragments, ?_, hparts, hcount, hbytes⟩
  unfold packagedFile
  rw [List.flatMap_map]

theorem Downloaded.first_lt
    (h : Downloaded source limits metadata asset stream tracks init served)
    {track : Track} (htrack : track ∈ tracks) {first : ℕ}
    (htiles : Tiles first (asset.plan.spans track.id) track.samples.len) :
    first < track.samples.len := by
  obtain ⟨part, hpart, hlt⟩ := h.held track htrack
  have hspan : (part.firstSample, part.endSample) ∈ asset.plan.spans track.id :=
    List.mem_map_of_mem hpart
  have hbounds := htiles.mem_bounds hspan
  dsimp only at hbounds
  omega

theorem Downloaded.exists_found
    (h : Downloaded source limits metadata asset stream tracks init served)
    (hloaded : ∀ track ∈ tracks, Loaded source limits.toLimitsConfig track)
    {fragments : List StreamFragment} {again : Metadata}
    (hfile : packagedFile source init fragments =
      init ++ served.flatMap (fun prepared => prepared.served source))
    (hparts : fragments.flatMap StreamFragment.parts =
      ((asset.plan.streamParts tracks).filter hasSamples).map expand)
    (hlength : again.len = (packagedFile source init fragments).length)
    (hfound : again.fragments = (placedFragments init.length fragments).map
      fun item => item.2.moofAt item.1)
    {track : Track} (htrack : track ∈ tracks) {announced : RawTrack}
    (hid : announced.id = track.id) (defaults : List (ℕ × TrackDefaults)) :
    ∃ found first, Tiles first (asset.plan.spans track.id)
        track.samples.len ∧ found ≠ [] ∧
      trackSamples again.fragments (TrackSource.query announced again.len
        limits.toLimitsConfig defaults) = .ok found ∧
      List.Forall₂ (SameSample source (packagedFile source init fragments)
        track.kind) (track.samples.all.drop first) found ∧
      found.map Sample.decodeTime = Streamed.times asset.plan track := by
  have hstreamed := h.streamed
  obtain ⟨first, htiles⟩ := hstreamed.tiles htrack
  have hword := h.word
  rw [← hfile, ← hlength] at hword
  obtain ⟨found, hread, hsame, htimes⟩ := @Streamed.trackSamples_eq_ok _ _ _
    _ _ _ _ (TrackSource.query announced again.len limits.toLimitsConfig
      defaults) hstreamed htrack hid hloaded
    (fun other hother => h.beside track htrack other hother) hparts hlength
    hword first htiles
  rw [← hfound] at hread
  refine ⟨found, first, htiles, ?_, hread, hsame, htimes⟩
  rintro rfl
  have hnone := hsame.length_eq
  have hfirst := h.first_lt htrack htiles
  rw [List.length_drop, SampleIndex.length_all, List.length_nil] at hnone
  omega

theorem tracks_length_le
    (h : (parseMetadata blake3 metadata limits).run = some (.ok media))
    (hmoov : validateRawMoov metadata.moovBytes = .ok raw) :
    raw.tracks.length ≤ limits.maxTracks := by
  unfold parseMetadata at h
  obtain ⟨moov, hread, h⟩ := run_bind_eq_ok_iff.mp h
  obtain rfl := Except.ok.inj (hmoov.symm.trans (run_lift_eq_ok_iff.mp hread))
  split at h
  · exact absurd h run_throw_ne_ok
  · omega

theorem movieTimescale_lt {bytes : List UInt8}
    (h : validateRawMoov bytes = .ok raw) : raw.movieTimescale < 2 ^ 32 := by
  obtain ⟨-, -, -, header, -, -, -, -, -, hmovie, -⟩ :=
    InitSegment.validateRawMoov_eq_ok_iff.mp h
  obtain ⟨rest, hrun⟩ := Reader.run'_eq_ok_iff.mp hmovie
  unfold readMovieHeader at hrun
  obtain ⟨version, _, -, hrun⟩ := Reader.run_bind_eq_ok hrun
  exact readTimescaleAndDuration_lt hrun

theorem Downloaded.tracks_ne_nil
    (h : Downloaded source limits metadata asset stream tracks init served) :
    tracks ≠ [] := by
  have htracks := h.tracks_eq
  rintro rfl
  unfold PackagedAsset.streamTracks at htracks
  cases stream with
  | single key =>
      dsimp only at htracks
      cases hkey : asset.track key with
      | error error =>
          rw [hkey] at htracks
          cases htracks
      | ok track =>
          rw [hkey] at htracks
          cases htracks
  | muxed =>
      dsimp only at htracks
      obtain ⟨muxed, -, htracks⟩ := bind_eq_ok_iff.mp htracks
      have hlength := (mapM_forall₂ htracks).length_eq
      cases hlength

/-- A track of a stream as it is parsed, before it is moved back. -/
structure ReadTrack (source file : List UInt8) (plan : SegmentPlan)
    (media : ParsedMedia) (track : Track) (parsed : MediaTrack) : Prop where
  original : ∃ original ∈ media.tracks, IndexedAs original track ∧
    parsed.id = original.id ∧ parsed.kind = original.kind ∧
    parsed.timescale = original.timescale ∧
    parsed.language = original.language ∧ parsed.codec = original.codec
  clear : parsed.sourceProtection = none
  samples : ∃ found first,
    Tiles first (plan.spans track.id) track.samples.len ∧ found ≠ [] ∧
    parsed.samples.Holds found ∧
    List.Forall₂ (SameSample source file track.kind)
      (track.samples.all.drop first) found ∧
    found.map Sample.decodeTime = Streamed.times plan track

section

variable {file : List UInt8} {plan : SegmentPlan} {origin : ℕ × ℕ}
  {parsed : List MediaTrack}

/-- The file's timeline starts where the stream's does. -/
theorem streamOrigin_of_read
    (h : List.Forall₂ (ReadTrack source file plan media) tracks parsed)
    (horigin : Origin parsed origin) : StreamOrigin plan tracks origin := by
  have hhead : ∀ track again, ReadTrack source file plan media track again →
      (Streamed.times plan track).head? = some (again.samples.decodeTime 0) ∧
        again.timescale = track.timescale := by
    intro track again hread
    obtain ⟨original, -, hindexed, -, -, htimescale, -⟩ := hread.original
    obtain ⟨found, first, -, hne, hholds, -, htimes⟩ := hread.samples
    refine ⟨?_, htimescale.trans hindexed.timescale.symm⟩
    cases found with
    | nil => exact absurd rfl hne
    | cons sample rest =>
        rw [← htimes, @SampleIndex.Holds.decodeTime_eq _ _ sample hholds 0 rfl]
        rfl
  obtain ⟨leading, hleading, rfl⟩ := horigin.first
  obtain ⟨track, htrack, hread⟩ := exists_mem_of_forall₂ h.flip hleading
  refine ⟨⟨track, htrack, (hhead _ _ hread).1, (hhead _ _ hread).2⟩,
    fun other hother time htime => ?_⟩
  obtain ⟨again, hagain, hotherRead⟩ := exists_mem_of_forall₂ h hother
  obtain ⟨hfirst, htimescale⟩ := hhead _ _ hotherRead
  obtain rfl := Option.some.inj (hfirst.symm.trans htime)
  rw [← htimescale]
  exact horigin.le again hagain

end

/-- A track that is parsed as the init segment announces it is the one that
was asked for. -/
theorem readTrack_of_announced {file : List UInt8} {trackIds : List ℕ}
    {written : RawMoov} {track : Track} {announced : RawTrack}
    {own : TrackDescription} {found : List Sample} {parsed : MediaTrack}
    {fragments : List Fragment} {query : TrackQuery} {first : ℕ}
    (hpackages : Packages blake3 source limits metadata media asset)
    (hmoov : validateRawMoov metadata.moovBytes = .ok raw)
    (hdescribes : InitSegment.InitDescribes none raw trackIds written)
    (htrack : track ∈ asset.index.tracks)
    (hannounced : announced ∈ written.tracks) (hid : announced.id = track.id)
    (hown : Announced announced own)
    (hparsed : ParsedAs announced own found parsed)
    (hsamples : trackSamples fragments query = .ok found)
    (hcount : found.length < 2 ^ 32) (hne : found ≠ [])
    (htiles : Tiles first (asset.plan.spans track.id) track.samples.len)
    (hsame : List.Forall₂ (SameSample source file track.kind)
      (track.samples.all.drop first) found)
    (htimes : found.map Sample.decodeTime =
      Streamed.times asset.plan track) :
    ReadTrack source file asset.plan media track parsed := by
  obtain ⟨original, horiginal, hindexed, -, listed, hlisted, hlistedId, -,
    hkind, description, hdescription, htimescale, hlanguage, hcodec⟩ :=
      hpackages.exists_original hmoov htrack
  obtain ⟨asked, hasked, entry, described, hpackaged, hannounces⟩ :=
    hdescribes.tracks announced hannounced
  obtain rfl : asked = listed :=
    List.inj_on_of_nodup_map (validateRawMoov_checked hmoov).distinct.nodup
      hasked hlisted (hannounces.id.symm.trans (hid.trans hlistedId.symm))
  obtain rfl := Except.ok.inj (hdescription.symm.trans hpackaged.described)
  obtain ⟨found', hfound', hheader, hownCodec, -, -⟩ := hannounces.described
  obtain rfl := Except.ok.inj (hown.described.symm.trans hfound')
  obtain ⟨time, horder⟩ := trackSamples_inOrder hsamples
  have hholds := SampleIndex.fromSamples_holds hcount.le
    (horder.sorted.imp fun hle => (Nat.le_add_right _ _).trans hle)
  rw [← hparsed.samples] at hholds
  refine ⟨⟨original, horiginal, hindexed, ?_, ?_, ?_, ?_, ?_⟩, hparsed.clear,
    found, first, htiles, hne, hholds, hsame, htimes⟩
  · exact (hparsed.id.trans hid).trans hindexed.id
  · rw [hparsed.kind, hannounces.handler, hkind]
  · rw [hparsed.timescale, hheader, htimescale]
  · rw [hparsed.language, hheader, hlanguage]
  · rw [hparsed.codec, hownCodec, hcodec]

/-- What a player downloads of a stream is a source that can be read: its
tracks are those of the stream, in order, each described as the original is,
with the samples that its plan serves and their bytes, at the times that the
fragments list. -/
theorem packaged_streams_read_back (useSidx : Bool)
    (hpackages : Packages blake3 source limits metadata media asset)
    (hmoov : validateRawMoov metadata.moovBytes = .ok raw)
    (hfits : ∀ track ∈ raw.tracks, track.id ∈ tracks.map Track.id →
      InitSegment.EntryFits track)
    (h : Downloaded source limits metadata asset stream tracks init served) :
    ∃ file again found origin,
      file = init ++ served.flatMap (fun prepared =>
        prepared.served source) ∧
      fetchWith file limits.toLimitsConfig useSidx = .ok again ∧
      (parseMetadata blake3 again limits).run = some (.ok found) ∧
      StreamOrigin asset.plan tracks origin ∧
      List.Forall₂ (fun track again => ∃ original ∈ media.tracks,
        IndexedAs original track ∧
          Repackaged source file asset.plan origin original track again)
        tracks found.tracks := by
  have hstreamed := h.streamed
  have horiginals := fun (track : Track) (htrack : track ∈ tracks) =>
    hpackages.exists_original hmoov (hstreamed.mem track htrack)
  have hloaded : ∀ track ∈ tracks,
      Loaded source limits.toLimitsConfig track := by
    intro track htrack
    obtain ⟨original, -, -, hloaded, -⟩ := horiginals track htrack
    exact hloaded
  -- The init segment, as what it says and as boxes.
  obtain ⟨movie, written, -, -, hinit, -, -, -, -, hwritten, hdescribes⟩ :=
    @InitSegment.writeInit_describes _ _ _ _ none [] hmoov h.unique
      (fun listed hin hasked => by
        obtain ⟨track, htrack, hid⟩ := List.mem_map.mp hasked
        obtain ⟨entry, description, hentry⟩ := hpackages.packaged hmoov
          (hstreamed.mem track htrack) hin hid.symm (hfits listed hin hasked)
        exact ⟨entry, description, hentry, fun _ hnone => by cases hnone⟩)
      rfl (List.forall_mem_nil _) h.init_eq
  obtain ⟨content, hcontent, hinitBytes⟩ := exists_initBytes h.init_eq
  obtain rfl := List.append_cancel_left (hinit.symm.trans hcontent)
  -- The file, and what its walk finds.
  obtain ⟨fragments, hfile, hparts, hcount, hbytes⟩ := h.exists_fragments
  have hinside := hstreamed.partsInside hloaded
  rw [← hparts] at hinside
  obtain ⟨again, hfetched, hlength, hbox, hfound⟩ :=
    @fetchWith_packagedFile _ _ _ _ _ limits.toLimitsConfig useSidx hinitBytes
      hinside hcount (by
        have hheaders := @sum_moofPayload_le fragments
        have hlen := hinitBytes.length_eq
        unfold metadataLength
        omega)
  rw [← hbox] at hwritten
  have hread := fun (track : Track) (htrack : track ∈ tracks)
      (announced : RawTrack) (hid : announced.id = track.id) =>
    h.exists_found hloaded hfile hparts hlength hfound htrack hid
      written.defaults
  have hids : List.Forall₂ (fun (track : Track) (announced : RawTrack) =>
      announced.id = track.id) tracks written.tracks := by
    have hsame := hdescribes.ids
    rw [← List.forall₂_eq_eq_eq, List.forall₂_map_left_iff,
      List.forall₂_map_right_iff] at hsame
    exact hsame.flip
  obtain ⟨listed, hlisted⟩ : ∃ listed, List.Forall₂
      (Readable again limits written) written.tracks listed := by
    refine exists_forall₂_iff.mpr fun announced hin => ?_
    obtain ⟨track, htrack, hid⟩ := exists_mem_of_forall₂ hids.flip hin
    obtain ⟨found, first, -, hne, hsamples, -⟩ :=
      hread track htrack announced hid
    obtain ⟨listed, -, entry, description, -, hannounces⟩ :=
      hdescribes.tracks announced hin
    obtain ⟨own, hown, -, -, hsinf, hzero⟩ := hannounces.described
    refine ⟨found, ?_, ⟨own, hown, hsinf, hzero, hannounces.edit⟩, hsamples,
      hne⟩
    unfold RawTrack.kept
    rw [hannounces.disposition]
    rfl
  obtain ⟨track, htrack⟩ := List.exists_mem_of_ne_nil _ h.tracks_ne_nil
  obtain ⟨announced, hin, hid⟩ := exists_mem_of_forall₂ hids htrack
  have hcountTracks : written.tracks.length ≤ limits.maxTracks := by
    have hsubset : tracks.map Track.id ⊆ raw.tracks.map RawTrack.id := by
      intro trackId hmem
      obtain ⟨track, htrack, rfl⟩ := List.mem_map.mp hmem
      obtain ⟨-, -, -, -, listed, hlisted, hsame, -⟩ := horiginals track htrack
      exact List.mem_map.mpr ⟨listed, hlisted, hsame⟩
    have hle := (List.subperm_of_subset h.unique hsubset).length_le
    rw [List.length_map, List.length_map, hids.length_eq] at hle
    exact hle.trans (tracks_length_le hpackages.parsed hmoov)
  have hfragments : again.fragments ≠ [] := by
    intro hnone
    obtain ⟨found, -, -, hne, hsamples, -⟩ := hread track htrack announced hid
    rw [hnone] at hsamples
    exact hne (Except.ok.inj hsamples).symm
  obtain ⟨parsed, origin, found, hspecs, horigin, hrun, hrebased⟩ :=
    @parseMetadata_readable _ _ _ blake3 hwritten hdescribes.fragmented
      (movieTimescale_lt hwritten) hpackages.limit hcountTracks
      (List.ne_nil_of_mem hin) hfragments _ hlisted
  -- What each track says, before it is moved back.
  have hall : List.Forall₂ (ReadTrack source
      (packagedFile source init fragments) asset.plan media) tracks parsed := by
    refine forall₂_comp ((List.forall₂_and_left _ _).mpr
      ⟨fun track htrack => htrack, hids⟩) ((List.forall₂_and_left _ _).mpr
        ⟨fun announced hin => hin, hspecs⟩) ?_
    rintro track announced again ⟨htrack, hid⟩
      ⟨hin, own, samples, hown, hreadable, hparsed⟩
    obtain ⟨listed, first, htiles, hne, hlisted, hsame, htimes⟩ :=
      hread track htrack announced hid
    obtain rfl := Except.ok.inj (hreadable.samples.symm.trans hlisted)
    obtain ⟨time, horder⟩ := trackSamples_inOrder hlisted
    exact readTrack_of_announced hpackages hmoov hdescribes
      (hstreamed.mem track htrack) hin hid hown hparsed hlisted
      (horder.count.trans_lt hpackages.limit) hne htiles hsame htimes
  refine ⟨_, again, found, origin, rfl, ?_, hrun, ?_, ?_⟩
  · rw [← hfile]
    exact hfetched
  · exact streamOrigin_of_read hall horigin
  · rw [← hfile]
    refine forall₂_comp hall hrebased fun track read moved hof hmoved => ?_
    obtain ⟨original, horiginal, hindexed, hid, hkind, htimescale, hlanguage,
      hcodec⟩ := hof.original
    obtain ⟨listed, first, htiles, -, hholds, hsame, htimes⟩ := hof.samples
    obtain ⟨hsamples, hdecode⟩ := samples_rebased hholds hmoved hsame htimes
    exact ⟨original, horiginal, hindexed, hmoved.keeps.id.trans hid,
      hmoved.keeps.kind.trans hkind, hmoved.keeps.timescale.trans htimescale,
      hmoved.keeps.language.trans hlanguage, hmoved.keeps.codec.trans hcodec,
      hmoved.keeps.sourceProtection.trans hof.clear,
      ⟨first, htiles, hsamples⟩, hdecode⟩

end

/-! ## A file of two tones -/

/-- A sound track of two samples of 10 bytes each, from byte 8 on. -/
def tonesTrak : List UInt8 :=
  boxesBytes [
    (code 't' 'k' 'h' 'd', List.replicate 12 0 ++ (encode 4 1 ++
      (List.replicate 4 0 ++ encode 4 43))),
    (code 'm' 'd' 'i' 'a', boxesBytes [
      (code 'm' 'd' 'h' 'd', List.replicate 12 0 ++ (encode 4 48000 ++
        (encode 4 2048 ++ (encode 2 0x15c7 ++ encode 2 0)))),
      (code 'h' 'd' 'l' 'r', List.replicate 8 0 ++ code 's' 'o' 'u' 'n'),
      (code 'm' 'i' 'n' 'f', boxesBytes [
        (code 'd' 'i' 'n' 'f', boxesBytes [
          (code 'd' 'r' 'e' 'f', List.replicate 4 0 ++ (encode 4 1 ++
            boxBytes (code 'u' 'r' 'l' ' ') [0, 0, 0, 1]))]),
        (code 's' 't' 'b' 'l', boxesBytes [
          (code 's' 't' 's' 'd', List.replicate 4 0 ++ (encode 4 1 ++
            boxBytes (code 'a' 'c' '-' '3')
              InitSegment.soundTrak.soundEntryPayload)),
          (code 's' 't' 't' 's', List.replicate 4 0 ++ (encode 4 1 ++
            (encode 4 2 ++ encode 4 1024))),
          (code 's' 't' 's' 'c', List.replicate 4 0 ++ (encode 4 1 ++
            (encode 4 1 ++ (encode 4 2 ++ encode 4 1)))),
          (code 's' 't' 's' 'z', List.replicate 4 0 ++ (encode 4 10 ++
            encode 4 2)),
          (code 's' 't' 'c' 'o', List.replicate 4 0 ++ (encode 4 1 ++
            encode 4 8))])])])]

def tonesMoov : List UInt8 :=
  boxBytes (code 'm' 'o' 'o' 'v') (boxesBytes [
    (code 'm' 'v' 'h' 'd', List.replicate 12 0 ++ (encode 4 1000 ++
      encode 4 43)),
    (code 't' 'r' 'a' 'k', tonesTrak)])

def tonesFile : List UInt8 :=
  boxBytes (code 'm' 'd' 'a' 't') (List.replicate 20 7) ++ tonesMoov

def tonesMetadata : Metadata where
  len := tonesFile.length
  moov := ⟨28, tonesMoov.length⟩
  moovBytes := tonesMoov
  fragments := []
  discovery := .sequential
  dropped := none

def tonesRaw : RawMoov where
  movieTimescale := 1000
  movieDuration := 43
  fragmented := false
  defaults := []
  tracks := [⟨1, SOUND_HANDLER, .package, tonesTrak⟩]

def tonesIndex : MediaIndex where
  tracks := [.checked 1 (.audio 1) 48000
    (.new ⟨[10, 10], [⟨0, 8⟩], [⟨0, 0, 1024⟩], [], none⟩) (by decide)]
  ids_unique := by decide

/-- One sample in each segment. -/
def tonesPlan : SegmentPlan where
  segments :=
    [⟨0, [⟨1, 0, 1, 0, 1024⟩]⟩, ⟨1, [⟨1, 1, 2, 1024, 1024⟩]⟩]

theorem plan_tonesIndex : plan tonesIndex 20 {} = .ok tonesPlan := by
  decide

def tonesAsset : PackagedAsset where
  index := tonesIndex
  plan := tonesPlan
  limits := {}
  version := "0123456789abcdef"
  protection := none
  aes128 := none
  decryption := []
  muxed := none
  planned := ⟨20, plan_tonesIndex⟩
  protection_built := by simp

theorem tones_packages :
    ∃ media, Packages id tonesFile {} tonesMetadata media tonesAsset := by
  obtain ⟨media, hmedia, htracks⟩ := @exists_ok_of_any ParsedMedia
    (parseMetadata id tonesMetadata {}) (fun media =>
      media.tracks.map (fun track =>
        (track.id, track.key, track.kind, track.timescale, track.samples)) ==
          tonesIndex.tracks.map fun track =>
            (track.id, track.key, track.kind, track.timescale, track.samples))
    (by decide +kernel)
  have hfetched : fetchWith tonesFile {} true = .ok tonesMetadata := by
    decide +kernel
  refine ⟨media, ⟨true, hfetched⟩, hmedia, ?_, by decide⟩
  have hsame := beq_iff_eq.mp htracks
  rw [← List.forall₂_eq_eq_eq, List.forall₂_map_left_iff,
    List.forall₂_map_right_iff] at hsame
  refine hsame.imp fun track indexed h => ?_
  simp only [Prod.mk.injEq] at h
  obtain ⟨hid, hkey, hkind, htimescale, hsamples⟩ := h
  exact ⟨hid.symm, hkey.symm, hkind.symm, htimescale.symm, hsamples.symm⟩

theorem tonesRaw_fits : ∀ track ∈ tonesRaw.tracks,
    InitSegment.EntryFits track := by
  refine List.forall_mem_singleton.mpr fun entry hentry hin => ?_
  have hread : InitSegment.trackEntry
      ⟨1, SOUND_HANDLER, .package, tonesTrak⟩ =
        .ok (BoxSpec.raw (code 'a' 'c' '-' '3',
          InitSegment.soundTrak.soundEntryPayload)) := by decide +kernel
  obtain rfl := Except.ok.inj (hread.symm.trans hentry)
  exact absurd hin (by decide)

/-- Both segments are served clear, in a few bytes. -/
theorem tones_served : ∀ segmentIndex < 2, ∃ prepared,
    tonesAsset.streamSegment (.single (.audio 1)) segmentIndex =
        .ok ⟨prepared, none⟩ ∧
      prepared.header.length ≤ 200 ∧
      (prepared.served tonesFile).length ≤ 200 := by
  have hall : ∀ segmentIndex < 2,
      ((tonesAsset.streamSegment (.single (.audio 1))
        segmentIndex).toOption.any fun pending =>
          pending.encryption.isNone && decide
            (pending.prepared.header.length ≤ 200 ∧
              (pending.prepared.served tonesFile).length ≤ 200)) = true := by
    decide +kernel
  intro segmentIndex hlt
  have hone := hall segmentIndex hlt
  cases hserved : tonesAsset.streamSegment (.single (.audio 1))
      segmentIndex with
  | error error =>
      rw [hserved] at hone
      cases hone
  | ok pending =>
      obtain ⟨prepared, encryption⟩ := pending
      rw [hserved] at hone
      simp only [Except.toOption, Option.any_some, Bool.and_eq_true,
        Option.isNone_iff_eq_none, decide_eq_true_eq] at hone
      obtain ⟨rfl, hheader, hlength⟩ := hone
      exact ⟨prepared, rfl, hheader, hlength⟩

theorem tones_downloaded : ∃ init served,
    Downloaded tonesFile {} tonesMetadata tonesAsset (.single (.audio 1))
      tonesIndex.tracks init served := by
  obtain ⟨first, hfirst, hheader, hlength⟩ := tones_served 0 (by decide)
  obtain ⟨second, hsecond, hheader', hlength'⟩ := tones_served 1 (by decide)
  have hsome : ((InitSegment.writeMuxedInitSegment tonesMetadata.moovBytes
      (tonesIndex.tracks.map Track.id)).toOption.any fun init =>
        decide (init.length ≤ 1000)) = true := by decide +kernel
  obtain ⟨init, hinit, hshort⟩ : ∃ init,
      InitSegment.writeMuxedInitSegment tonesMetadata.moovBytes
        (tonesIndex.tracks.map Track.id) = .ok init ∧
          init.length ≤ 1000 := by
    cases hinit : InitSegment.writeMuxedInitSegment tonesMetadata.moovBytes
        (tonesIndex.tracks.map Track.id) with
    | error error =>
        rw [hinit] at hsome
        cases hsome
    | ok init =>
        rw [hinit] at hsome
        exact ⟨init, rfl, of_decide_eq_true hsome⟩
  have hsegments : tonesAsset.plan.streamSegments tonesIndex.tracks =
      tonesPlan.segments.zipIdx := by decide
  refine ⟨init, [first, second], rfl, by decide, hinit, ?_, ?_, by decide, ?_,
    ?_, ?_⟩
  · unfold PackagedAsset.Serves
    rw [hsegments]
    exact .cons hfirst (.cons hsecond .nil)
  · exact List.forall_mem_singleton.mpr
      ⟨⟨1, 0, 1, 0, 1024⟩, by decide, by decide⟩
  · exact show 2 ≤ LimitsConfig.maxFragments {} by decide
  · have hlimit : 2000 ≤ LimitsConfig.maxMetadataBytes {} := by decide
    rw [List.map_cons, List.map_singleton, List.sum_cons, List.sum_singleton]
    exact le_trans (by omega) hlimit
  · rw [List.flatMap_cons, List.flatMap_cons, List.flatMap_nil,
      List.length_append, List.length_append, List.length_append,
      List.length_nil]
    omega

/-- The track is read back from its two fragments. -/
theorem packaged_streams_read_back_tones :
    ∃ file again found origin,
      fetchWith file {} true = .ok again ∧
      (parseMetadata id again {}).run = some (.ok found) ∧
      List.Forall₂ (fun track again => ∃ original,
        Repackaged tonesFile file tonesPlan origin original track again)
        tonesIndex.tracks found.tracks := by
  obtain ⟨media, hpackages⟩ := tones_packages
  obtain ⟨init, served, hdownloaded⟩ := tones_downloaded
  have hmoov : validateRawMoov tonesMoov = .ok tonesRaw := by decide +kernel
  obtain ⟨file, again, found, origin, -, hfetched, hrun, -, htracks⟩ :=
    packaged_streams_read_back true hpackages hmoov
      (fun track htrack _ => tonesRaw_fits track htrack) hdownloaded
  refine ⟨file, again, found, origin, hfetched, hrun, htracks.imp ?_⟩
  rintro track again ⟨original, -, -, hof⟩
  exact ⟨original, hof⟩

end MetadataParser

end Segmentor
