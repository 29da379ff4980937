import Segmentor.MediaIndex
import Segmentor.MetadataParser

/-!
# What a parsed file is

Everything that reads a parsed file rests on its samples being in order, its
fields fitting their words and its tracks having different names.  Each stage
of the parser keeps what is known of a track: where its index comes from, and
that it was only cut and moved since.
-/

namespace Segmentor

open General EditLists MoovReader

/-! ## Indexes that were cut and moved -/

/-- `y` is `x`, cut and moved. -/
def SampleIndex.MovesTo (x y : SampleIndex) : Prop :=
  ∃ moves : List Move, moves.foldlM SampleIndex.move x = .ok y

namespace SampleIndex.MovesTo

variable {x y z : SampleIndex}

theorem refl (x : SampleIndex) : x.MovesTo x :=
  ⟨[], rfl⟩

theorem trans (h : x.MovesTo y) (hnext : y.MovesTo z) : x.MovesTo z := by
  obtain ⟨moves, hmoves⟩ := h
  obtain ⟨others, hothers⟩ := hnext
  refine ⟨moves ++ others, ?_⟩
  rw [List.foldlM_append, hmoves]
  exact hothers

theorem window {first stop : ℕ} (hfirst : first ≤ stop) (hstop : stop ≤ x.len) :
    x.MovesTo (x.window first stop) := by
  refine ⟨[.window first stop], ?_⟩
  rw [List.foldlM_cons]
  unfold SampleIndex.move
  dsimp only
  rw [if_pos ⟨hfirst, hstop⟩]
  rfl

theorem shifted {delta : ℤ} {message : String}
    (h : x.shifted delta message = .ok y) : x.MovesTo y := by
  refine ⟨[.shifted delta message], ?_⟩
  rw [List.foldlM_cons]
  unfold SampleIndex.move
  dsimp only
  rw [h]
  rfl

theorem valid (h : x.MovesTo y) (hvalid : x.Valid) : y.Valid := by
  obtain ⟨moves, hmoves⟩ := h
  refine foldlM_invariant (I := fun _ (z : SampleIndex) => z.Valid) ?_ hvalid
    hmoves
  intro move rest z next hz hmove
  cases move with
  | window first stop =>
      unfold SampleIndex.move at hmove
      dsimp only at hmove
      split at hmove
      · next hinside =>
          obtain rfl := Except.ok.inj hmove
          exact hz.window hinside.1 hinside.2
      · cases hmove
  | shifted delta message => exact hz.shifted hmove

theorem exists_untimed (h : x.MovesTo y) (hreadable : x.Readable) :
    ∀ sample ∈ y.all, ∃ source ∈ x.all, sample.untimed = source.untimed := by
  obtain ⟨moves, hmoves⟩ := h
  obtain ⟨hlast, hkept⟩ : y.Holds y.all ∧ ∀ sample ∈ y.all,
      ∃ source ∈ x.all, sample.untimed = source.untimed := by
    refine foldlM_invariant (I := fun _ (z : SampleIndex) => z.Holds z.all ∧
      ∀ sample ∈ z.all, ∃ source ∈ x.all, sample.untimed = source.untimed)
      ?_ ⟨⟨hreadable, rfl⟩, fun sample hsample => ⟨sample, hsample, rfl⟩⟩ hmoves
    intro move rest z next ⟨hz, hkept⟩ hmove
    obtain ⟨slice, hslice, hholds⟩ := hz.move hmove
    refine ⟨⟨hholds.readable, rfl⟩, ?_⟩
    rw [hholds.all_eq]
    intro sample hsample
    unfold moveSamples at hslice
    cases move with
    | window first stop =>
        dsimp only at hslice
        split at hslice
        · obtain rfl := Option.some.inj hslice
          exact hkept sample
            (List.mem_of_mem_take (List.mem_of_mem_drop hsample))
        · cases hslice
    | shifted delta message =>
        dsimp only at hslice
        split at hslice
        · obtain rfl := Option.some.inj hslice
          obtain ⟨before, hbefore, rfl⟩ := List.mem_map.mp hsample
          exact hkept before hbefore
        · cases hslice
  exact hkept

end SampleIndex.MovesTo

namespace MetadataParser

/-! ## Where an index comes from -/

/-- The index of the samples that the source lists for a track. -/
inductive TrackSource.Indexes (limits : LimitsConfig) (sourceLen : ℕ)
    (raw : RawTrack) (sampleTable : List UInt8) :
    TrackSource → SampleIndex → Prop
  | tables {tables : SampleTables} {base : SampleIndex}
      (htables : TableReader.parseSampleTables sampleTable = .ok tables)
      (hbase : sampleIndex tables sourceLen limits = .ok base) :
      Indexes limits sourceLen raw sampleTable .tables base
  | fragmented {fragments : List Fragment}
      {defaults : List (ℕ × TrackDefaults)} {samples : List Sample}
      (hmoov : sampleCount sampleTable = .ok 0)
      (hsamples : trackSamples fragments
        (TrackSource.query raw sourceLen limits defaults) = .ok samples) :
      Indexes limits sourceLen raw sampleTable
        (.fragmented fragments defaults) (.fromSamples samples)

/-- The defaults of a fragmented source were read from words. -/
def TrackSource.Fits : TrackSource → Prop
  | .tables => True
  | .fragmented _ defaults => ∀ entry ∈ defaults, entry.2.Fits

section

variable {limits : LimitsConfig} {sourceLen : ℕ} {raw : RawTrack}
  {sampleTable : List UInt8} {source : TrackSource} {base : SampleIndex}

theorem TrackSource.samples_spec {found : {x : SampleIndex // x.Readable}}
    (h : (source.samples raw sampleTable sourceLen limits).run =
      some (.ok found)) :
    source.Indexes limits sourceLen raw sampleTable found.1 := by
  unfold TrackSource.samples at h
  cases source with
  | tables =>
      obtain ⟨tables, htables, h⟩ := run_bind_eq_ok_iff.mp h
      unfold tabledSamples at h
      split at h
      · exact absurd h run_throw_ne_ok
      · next base hbase =>
          obtain rfl := run_pure_eq_ok_iff.mp h
          exact .tables (run_lift_eq_ok_iff.mp htables) hbase
  | fragmented fragments defaults =>
      obtain ⟨count, hcount, h⟩ := run_bind_eq_ok_iff.mp h
      obtain ⟨_, hmixed, h⟩ := run_bind_eq_ok_iff.mp h
      have hzero := run_lift_eq_ok_iff.mp hmixed
      unfold rejectMixed at hzero
      split at hzero
      · next hcountZero =>
          subst hcountZero
          unfold fragmentedSamples at h
          split at h
          · exact absurd h run_throw_ne_ok
          · next samples hsamples =>
              split at h
              · obtain rfl := run_pure_eq_ok_iff.mp h
                exact .fragmented (run_lift_eq_ok_iff.mp hcount) hsamples
              · cases h
      · cases hzero

theorem TrackSource.Indexes.valid
    (h : source.Indexes limits sourceLen raw sampleTable base)
    (hfits : source.Fits) (hlimit : limits.maxSamplesPerTrack < 2 ^ 32) :
    base.Valid := by
  cases h with
  | tables htables hbase => exact (exists_expanded hbase).1
  | fragmented hmoov hsamples =>
      obtain ⟨time, horder⟩ := trackSamples_inOrder hsamples
      exact SampleIndex.fromSamples_valid horder
        (horder.count.trans_lt hlimit)
        (trackSamples_fits (defaultsOf_fits hfits raw.id) hsamples)

theorem TrackSource.Indexes.inside
    (h : source.Indexes limits sourceLen raw sampleTable base)
    (hlimit : limits.maxSamplesPerTrack < 2 ^ 32) :
    ∀ sample ∈ base.all, sample.offset + sample.size ≤ sourceLen := by
  cases h with
  | tables htables hbase =>
      exact inside_of_expandSamples (exists_expanded hbase).2
  | fragmented hmoov hsamples =>
      obtain ⟨time, horder⟩ := trackSamples_inOrder hsamples
      have hholds := SampleIndex.fromSamples_holds
        (horder.count.trans hlimit.le)
        (horder.sorted.imp fun hle => (Nat.le_add_right _ _).trans hle)
      rw [hholds.all_eq]
      exact horder.inside

/-! ## What is known of a track -/

/-- `track` is the track that `raw` describes: its samples are those that the
source lists for it, cut and moved. -/
structure TrackOf (limits : LimitsConfig) (sourceLen : ℕ)
    (source : TrackSource) (raw : RawTrack) (track : MediaTrack) : Prop where
  id : track.id = raw.id
  kind : track.kind = kindOf raw.handler
  nonempty : 0 < track.samples.len
  described : ∃ description base, describeTrack raw = .ok description ∧
    track.timescale = description.header.timescale ∧
    track.language = description.header.language ∧
    track.codec = description.codec ∧
    source.Indexes limits sourceLen raw description.sampleTable base ∧
    (source.protection raw description.sinf description.sampleTable
      base.len).run = some (.ok track.sourceProtection) ∧
    base.MovesTo track.samples

/-- What a stage does to a track that it keeps. -/
structure Keeps (track moved : MediaTrack) : Prop where
  id : moved.id = track.id
  kind : moved.kind = track.kind
  timescale : moved.timescale = track.timescale
  language : moved.language = track.language
  codec : moved.codec = track.codec
  sourceProtection : moved.sourceProtection = track.sourceProtection
  samples : track.samples.MovesTo moved.samples
  nonempty : 0 < track.samples.len → 0 < moved.samples.len

variable {track moved : MediaTrack}

theorem TrackOf.keep (h : TrackOf limits sourceLen source raw track)
    (hkeeps : Keeps track moved) :
    TrackOf limits sourceLen source raw moved := by
  obtain ⟨description, base, hdescription, htimescale, hlanguage, hcodec,
    hindexes, hprotection, hmoves⟩ := h.described
  exact ⟨hkeeps.id.trans h.id, hkeeps.kind.trans h.kind,
    hkeeps.nonempty h.nonempty, description, base, hdescription,
    hkeeps.timescale.trans htimescale, hkeeps.language.trans hlanguage,
    hkeeps.codec.trans hcodec, hindexes, hkeeps.sourceProtection ▸ hprotection,
    hmoves.trans hkeeps.samples⟩

theorem TrackOf.timescale_lt
    (h : TrackOf limits sourceLen source raw track) :
    track.timescale < 2 ^ 32 := by
  obtain ⟨description, base, hdescription, htimescale, -⟩ := h.described
  rw [htimescale]
  exact (describeTrack_timescale hdescription).2

theorem TrackOf.valid (h : TrackOf limits sourceLen source raw track)
    (hfits : source.Fits) (hlimit : limits.maxSamplesPerTrack < 2 ^ 32) :
    track.samples.Valid := by
  obtain ⟨description, base, -, -, -, -, hindexes, -, hmoves⟩ := h.described
  exact hmoves.valid (hindexes.valid hfits hlimit)

theorem TrackOf.inside (h : TrackOf limits sourceLen source raw track)
    (hfits : source.Fits) (hlimit : limits.maxSamplesPerTrack < 2 ^ 32) :
    ∀ sample ∈ track.samples.all,
      sample.offset + sample.size ≤ sourceLen := by
  obtain ⟨description, base, -, -, -, -, hindexes, -, hmoves⟩ := h.described
  intro sample hsample
  obtain ⟨listed, hlisted, hsame⟩ := hmoves.exists_untimed
    (hindexes.valid hfits hlimit).readable sample hsample
  have hoffset := congrArg Sample.offset hsame
  have hsize := congrArg Sample.size hsame
  change sample.offset = listed.offset at hoffset
  change sample.size = listed.size at hsize
  rw [hoffset, hsize]
  exact hindexes.inside hlimit listed hlisted

/-! ## Parsing a track -/

theorem parseTrack_spec {movieTimescale : ℕ} {entry : MediaTrack × TrackEdit}
    (h : (parseTrack raw movieTimescale sourceLen limits source).run =
      some (.ok entry)) :
    TrackOf limits sourceLen source raw entry.1 := by
  unfold parseTrack at h
  split at h
  · exact absurd h run_throw_ne_ok
  next description hdescription =>
    obtain ⟨samples, hsamples, h⟩ := run_bind_eq_ok_iff.mp h
    split at h
    · exact absurd h run_throw_ne_ok
    next hempty =>
      obtain ⟨protection, hprotection, h⟩ := run_bind_eq_ok_iff.mp h
      obtain ⟨edit, -, h⟩ := run_bind_eq_ok_iff.mp h
      obtain rfl := run_pure_eq_ok_iff.mp h
      refine ⟨rfl, rfl, ?_, description, samples.1, hdescription, rfl, rfl,
        rfl, TrackSource.samples_spec hsamples, hprotection, .refl _⟩
      rw [SampleIndex.isEmpty_iff samples.2] at hempty
      exact Nat.pos_of_ne_zero hempty

theorem parseTracks_spec {kept : List RawTrack} {movieTimescale : ℕ}
    {parsed : List (MediaTrack × TrackEdit)}
    (h : (parseTracks kept movieTimescale sourceLen limits source).run =
      some (.ok parsed)) :
    List.Forall₂ (fun raw (entry : MediaTrack × TrackEdit) =>
      TrackOf limits sourceLen source raw entry.1) kept parsed := by
  obtain ⟨results, hresults, h⟩ := Option.bind_eq_some_iff.mp h
  have heach := mapM_eq_some_iff.mp hresults
  have hall := mapM_forall₂ (Option.some.inj h)
  refine forall₂_comp heach hall fun raw result entry hresult hentry => ?_
  apply @parseTrack_spec _ _ _ _ movieTimescale
  rw [hresult]
  exact congrArg some hentry

end

/-! ## Edits -/

theorem trimTail_movesTo {track moved : ParsedTrack} {stop : ℕ}
    (h : trimTail track stop = .ok moved) :
    track.samples.MovesTo moved.samples := by
  unfold trimTail at h
  split at h
  · obtain rfl := Except.ok.inj h
    exact .refl _
  next cut hcut =>
    split_ifs at h
    obtain rfl := Except.ok.inj h
    exact .window (Nat.zero_le cut)
      (firstCut_lt track.samples_readable hcut).le

theorem trimHead_movesTo (track : ParsedTrack) (mediaTime : ℕ) :
    track.samples.MovesTo (trimHead track mediaTime).samples := by
  unfold trimHead
  split
  · exact .refl _
  · exact .window (paddingSamples_le track.samples_readable mediaTime)
      (Nat.le_refl _)

theorem shifted_movesTo {track moved : ParsedTrack} {delta : ℤ}
    {message : String} (h : track.shifted delta message = .ok moved) :
    track.samples.MovesTo moved.samples := by
  unfold ParsedTrack.shifted at h
  split at h
  · cases h
  · next samples hmoved =>
      obtain rfl := Except.ok.inj h
      exact .shifted hmoved

theorem apply_movesTo {track moved : ParsedTrack} {edit : TrackEdit}
    {shift : ℕ} (h : EditLists.apply track edit shift = .ok moved) :
    track.samples.MovesTo moved.samples := by
  unfold EditLists.apply at h
  split at h
  · obtain rfl := Except.ok.inj h
    exact .refl _
  obtain ⟨cut, htail, h⟩ := bind_eq_ok_iff.mp h
  obtain ⟨last, -, h⟩ := bind_eq_ok_iff.mp h
  obtain ⟨later, hshifted, h⟩ := bind_eq_ok_iff.mp h
  obtain ⟨duration, -, h⟩ := bind_eq_ok_iff.mp h
  obtain rfl := Except.ok.inj h
  have hcut : track.samples.MovesTo cut.samples := by
    cases hend : edit.mediaEnd with
    | none =>
        rw [hend] at htail
        obtain rfl := Except.ok.inj htail
        exact .refl _
    | some stop =>
        rw [hend] at htail
        exact trimTail_movesTo htail
  have hlater := shifted_movesTo hshifted
  exact (hcut.trans (trimHead_movesTo cut edit.mediaTime)).trans hlater

theorem MediaTrack.apply_keeps {track moved : MediaTrack} {edit : TrackEdit}
    {shift : ℕ} (h : track.apply edit shift = .ok moved) :
    Keeps track moved := by
  unfold MediaTrack.apply at h
  cases happly : EditLists.apply track.toParsedTrack edit shift with
  | error error =>
      rw [happly] at h
      cases h
  | ok applied =>
      rw [happly] at h
      obtain rfl := Except.ok.inj h
      by_cases hedit : edit = .none ∧ shift = 0
      · obtain ⟨rfl, rfl⟩ := hedit
        unfold EditLists.apply at happly
        rw [if_pos ⟨rfl, rfl⟩] at happly
        obtain rfl := Except.ok.inj happly
        exact ⟨rfl, rfl, rfl, rfl, rfl, rfl, .refl _, id⟩
      · obtain ⟨first, stop, happlied⟩ := apply_spec hedit happly
        refine ⟨happlied.id, happlied.kind, happlied.timescale, rfl, rfl, rfl,
          apply_movesTo happly, fun _ => ?_⟩
        have hlen := happlied.len_eq
        have hfirst := happlied.first_lt
        dsimp only
        omega

theorem length_shiftsFrom {movie : ℤ} {offset : ℤ × ℤ}
    {edits : List (TrackEdit × ℕ)} {shifts : List ℕ}
    (h : shiftsFrom movie offset edits = some (.ok shifts)) :
    shifts.length = edits.length := by
  induction edits generalizing shifts with
  | nil =>
      obtain rfl := Except.ok.inj (Option.some.inj h)
      rfl
  | cons entry rest ih =>
      unfold shiftsFrom at h
      obtain ⟨own, hown, h⟩ := Option.bind_eq_some_iff.mp h
      cases own with
      | error error => cases Option.some.inj h
      | ok shift =>
          obtain ⟨others, hothers, h⟩ := Option.bind_eq_some_iff.mp h
          cases others with
          | error error => cases Option.some.inj h
          | ok others =>
              obtain rfl := Except.ok.inj (Option.some.inj h)
              rw [List.length_cons, List.length_cons, ih hothers]

theorem length_timelineShifts {edits : List (TrackEdit × ℕ)} {movie : ℕ}
    {shifts : List ℕ} (h : timelineShifts edits movie = some (.ok shifts)) :
    shifts.length = edits.length := by
  obtain ⟨offset, -, h⟩ := Option.bind_eq_some_iff.mp h
  exact length_shiftsFrom h

/-! ## The timeline of a fragmented file -/

theorem normaliseTrack_movesTo {earliest : ℕ × ℕ} {track moved : ParsedTrack}
    (h : normaliseTrack earliest track = .ok moved) :
    track.samples.MovesTo moved.samples := by
  unfold normaliseTrack at h
  split_ifs at h
  obtain ⟨later, hshifted, h⟩ := bind_eq_ok_iff.mp h
  obtain ⟨last, -, h⟩ := bind_eq_ok_iff.mp h
  obtain ⟨duration, -, h⟩ := bind_eq_ok_iff.mp h
  obtain rfl := Except.ok.inj h
  have hlater := shifted_movesTo hshifted
  exact hlater

theorem normaliseFragmented_keeps {tracks moved : List MediaTrack}
    (h : normaliseFragmented tracks = .ok moved) :
    List.Forall₂ Keeps tracks moved := by
  unfold normaliseFragmented at h
  cases hnormalised : normaliseFragmentedTimeline
      (tracks.map MediaTrack.toParsedTrack) with
  | error error =>
      rw [hnormalised] at h
      cases h
  | ok parsed =>
      rw [hnormalised] at h
      obtain rfl := Except.ok.inj h
      unfold normaliseFragmentedTimeline at hnormalised
      split at hnormalised
      · obtain rfl := Except.ok.inj hnormalised
        refine @forall₂_zipWith_right _ _ _ (fun track parsed =>
          track.toParsedTrack = parsed) _ _ _ _ ?_ ?_
        · rw [List.forall₂_map_right_iff]
          exact List.forall₂_same.mpr fun track _ => rfl
        · rintro track _ rfl
          exact ⟨rfl, rfl, rfl, rfl, rfl, rfl, .refl _, id⟩
      · have heach := mapM_forall₂ hnormalised
        rw [List.forall₂_map_left_iff] at heach
        refine forall₂_zipWith_right heach fun track parsed hparsed => ?_
        obtain ⟨-, hmoved⟩ := normaliseTrack_spec hparsed
        refine ⟨hmoved.id, hmoved.kind, hmoved.timescale, rfl, rfl, rfl,
          normaliseTrack_movesTo hparsed, fun hpos => ?_⟩
        exact hpos.trans_eq hmoved.len_eq.symm

/-! ## Names -/

theorem assignKeysFrom_keeps (audio : ℕ) (tracks : List MediaTrack) :
    List.Forall₂ (fun track named => Keeps track named ∧
      named.key.kind = named.kind) tracks (assignKeysFrom audio tracks) := by
  induction tracks generalizing audio with
  | nil => exact .nil
  | cons track rest ih =>
      unfold assignKeysFrom
      split
      · next hkind =>
          exact .cons ⟨⟨rfl, rfl, rfl, rfl, rfl, rfl, .refl _, id⟩, hkind.symm⟩
            (ih audio)
      · next hkind =>
          exact .cons ⟨⟨rfl, rfl, rfl, rfl, rfl, rfl, .refl _, id⟩, hkind.symm⟩
            (ih _)

/-- The keys of the audio tracks, in file order. -/
def audioKeys (tracks : List MediaTrack) : List TrackKey :=
  (tracks.filter fun track => track.kind == .audio).map MediaTrack.key

/-- The `n`th audio track has the number `n`, as far as numbers go. -/
theorem audioKeys_assignKeysFrom (numbered : ℕ) (tracks : List MediaTrack) :
    audioKeys (assignKeysFrom (min numbered (2 ^ 16 - 1)) tracks) =
      (List.range' (numbered + 1)
        (tracks.countP fun track => track.kind == .audio)).map fun number =>
          .audio (min number (2 ^ 16 - 1)) := by
  induction tracks generalizing numbered with
  | nil => rfl
  | cons track rest ih =>
      unfold assignKeysFrom
      split
      · next hkind =>
          rw [List.countP_cons_of_neg (by simp [hkind]), ← ih numbered]
          unfold audioKeys
          rw [List.filter_cons_of_neg (by simp [hkind])]
      · next hkind =>
          have hnext : saturatingAdd (2 ^ 16) (min numbered (2 ^ 16 - 1)) 1 =
              min (numbered + 1) (2 ^ 16 - 1) := by
            unfold saturatingAdd
            omega
          rw [List.countP_cons_of_pos (by simp [hkind]), List.range'_succ,
            List.map_cons, ← ih (numbered + 1)]
          dsimp only
          rw [hnext]
          unfold audioKeys
          rw [List.filter_cons_of_pos (by simp [hkind]), List.map_cons]

/-! ## Track ids -/

theorem readRawTrack_id_lt {track : RawBox} {raw : RawTrack}
    (h : readRawTrack track = .ok raw) : raw.id < 2 ^ 32 := by
  unfold readRawTrack at h
  obtain ⟨tkhd, -, h⟩ := bind_eq_ok_iff.mp h
  obtain ⟨id, hid, h⟩ := bind_eq_ok_iff.mp h
  obtain ⟨media, -, h⟩ := bind_eq_ok_iff.mp h
  obtain ⟨hdlr, -, h⟩ := bind_eq_ok_iff.mp h
  obtain ⟨handler, -, h⟩ := bind_eq_ok_iff.mp h
  obtain ⟨found, -, h⟩ := bind_eq_ok_iff.mp h
  obtain rfl := Except.ok.inj h
  obtain ⟨rest, hrun⟩ := Reader.run'_eq_ok_iff.mp hid
  unfold readTrackId at hrun
  obtain ⟨_, _, -, hrun⟩ := Reader.run_bind_eq_ok hrun
  obtain ⟨_, _, -, hrun⟩ := Reader.run_bind_eq_ok hrun
  exact (Reader.u32_eq_ok_iff.mp hrun).1

/-- The tracks of a `moov` have different ids, which fit a word. -/
structure DistinctIds (tracks : List RawTrack) : Prop where
  nodup : (tracks.map RawTrack.id).Nodup
  lt : ∀ track ∈ tracks, track.id < 2 ^ 32

theorem pushRawTrack_distinct {tracks next : List RawTrack} {track : RawBox}
    (hdistinct : DistinctIds tracks)
    (h : pushRawTrack tracks track = .ok next) : DistinctIds next := by
  unfold pushRawTrack at h
  obtain ⟨raw, hraw, h⟩ := bind_eq_ok_iff.mp h
  split at h
  · cases h
  next hfresh =>
    obtain rfl := Except.ok.inj h
    rw [List.any_eq_true] at hfresh
    constructor
    · rw [List.map_append, List.map_singleton, List.nodup_append_comm,
        List.singleton_append, List.nodup_cons]
      refine ⟨fun hmem => hfresh ?_, hdistinct.nodup⟩
      obtain ⟨existing, hexisting, hsame⟩ := List.mem_map.mp hmem
      exact ⟨existing, hexisting, beq_iff_eq.mpr hsame⟩
    · intro existing hexisting
      rcases List.mem_append.mp hexisting with hmem | hmem
      · exact hdistinct.lt existing hmem
      · obtain rfl := List.mem_singleton.mp hmem
        exact readRawTrack_id_lt hraw

/-- What the first pass over `moov` makes sure of. -/
structure RawMoov.Checked (moov : RawMoov) : Prop where
  timescale_pos : 0 < moov.movieTimescale
  distinct : DistinctIds moov.tracks
  defaults : ∀ entry ∈ moov.defaults, entry.2.Fits

theorem validateRawMoov_checked {bytes : List UInt8} {moov : RawMoov}
    (h : validateRawMoov bytes = .ok moov) : RawMoov.Checked moov := by
  unfold validateRawMoov at h
  obtain ⟨root, -, h⟩ := bind_eq_ok_iff.mp h
  split at h
  · cases h
  obtain ⟨children, -, h⟩ := bind_eq_ok_iff.mp h
  obtain ⟨defaults, hdefaults, h⟩ := bind_eq_ok_iff.mp h
  obtain ⟨header, -, h⟩ := bind_eq_ok_iff.mp h
  obtain ⟨⟨timescale, duration⟩, -, h⟩ := bind_eq_ok_iff.mp h
  dsimp only at h
  split at h
  · cases h
  next hpos =>
    obtain ⟨tracks, htracks, h⟩ := bind_eq_ok_iff.mp h
    obtain rfl := Except.ok.inj h
    refine ⟨Nat.pos_of_ne_zero hpos, ?_, ?_⟩
    · refine foldlM_invariant (I := fun _ tracks => DistinctIds tracks)
        (fun _ _ _ _ hdistinct hpush => pushRawTrack_distinct hdistinct hpush)
        (s := []) ⟨List.nodup_nil, ?_⟩ htracks
      intro track htrack
      cases htrack
    · dsimp only
      cases hmvex : children.find? fun child =>
          child.name == code 'm' 'v' 'e' 'x' with
      | none =>
          rw [hmvex] at hdefaults
          obtain rfl := Except.ok.inj hdefaults
          intro entry hentry
          cases hentry
      | some mvex =>
          rw [hmvex, Option.elim_some] at hdefaults
          cases hread : parseDefaults mvex.payload with
          | error error =>
              rw [hread] at hdefaults
              cases hdefaults
          | ok found =>
              rw [hread] at hdefaults
              obtain rfl := Except.ok.inj hdefaults
              exact parseDefaults_fits hread

theorem trackSource_fits {moov : RawMoov} {metadata : Metadata}
    {source : TrackSource} (hchecked : RawMoov.Checked moov)
    (h : trackSource moov metadata = .ok source) : source.Fits := by
  unfold trackSource at h
  split_ifs at h
  · obtain rfl := Except.ok.inj h
    exact hchecked.defaults
  · obtain rfl := Except.ok.inj h
    trivial

/-! ## The whole file -/

/-- What a parsed file is made of: the first pass over its `moov`, where its
samples are, and the tracks as they were parsed and as they ended up. -/
theorem parseMetadata_spec {blake3 : List UInt8 → List UInt8}
    {metadata : Metadata} {limits : ParserLimits} {media : ParsedMedia}
    (h : (parseMetadata blake3 metadata limits).run = some (.ok media)) :
    ∃ (moov : RawMoov) (source : TrackSource) (edited : List MediaTrack),
      validateRawMoov metadata.moovBytes = .ok moov ∧
      trackSource moov metadata = .ok source ∧
      List.Forall₂ (TrackOf limits.toLimitsConfig metadata.len source)
        (moov.tracks.filter RawTrack.kept) edited ∧
      media.tracks = assignKeys edited := by
  unfold parseMetadata at h
  obtain ⟨moov, hmoov, h⟩ := run_bind_eq_ok_iff.mp h
  split at h
  · exact absurd h run_throw_ne_ok
  obtain ⟨source, hsource, h⟩ := run_bind_eq_ok_iff.mp h
  obtain ⟨parsed, hparsed, h⟩ := run_bind_eq_ok_iff.mp h
  dsimp only at h
  obtain ⟨shifts, hshifts, h⟩ := run_bind_eq_ok_iff.mp h
  obtain ⟨offset, -, h⟩ := run_bind_eq_ok_iff.mp h
  obtain ⟨applied, happlied, h⟩ := run_bind_eq_ok_iff.mp h
  obtain ⟨edited, hedited, h⟩ := run_bind_eq_ok_iff.mp h
  obtain rfl := run_pure_eq_ok_iff.mp h
  refine ⟨moov, source, edited, run_lift_eq_ok_iff.mp hmoov,
    run_lift_eq_ok_iff.mp hsource, ?_, rfl⟩
  have hlength : shifts.length = parsed.length := by
    rw [length_timelineShifts hshifts, List.length_map]
  have hzip := forall₂_zip_left (parseTracks_spec hparsed) hlength
  have hmoved := forall₂_comp hzip (mapM_forall₂ (run_lift_eq_ok_iff.mp happlied))
    fun raw entry moved htrack happly =>
      TrackOf.keep htrack (MediaTrack.apply_keeps happly)
  have hnormal := run_lift_eq_ok_iff.mp hedited
  split at hnormal
  · exact forall₂_comp hmoved (normaliseFragmented_keeps hnormal)
      fun raw track moved htrack hkeeps => htrack.keep hkeeps
  · obtain rfl := Except.ok.inj hnormal
    exact hmoved

/-- `indexed` is `track`, as everything after the parser sees it. -/
structure IndexedAs (track : MediaTrack) (indexed : Track) : Prop where
  id : indexed.id = track.id
  key : indexed.key = track.key
  kind : indexed.kind = track.kind
  timescale : indexed.timescale = track.timescale
  samples : indexed.samples = track.samples

theorem TrackOf.exists_indexed {limits : LimitsConfig} {sourceLen : ℕ}
    {source : TrackSource} {raw : RawTrack} {track : MediaTrack}
    (h : TrackOf limits sourceLen source raw track) (hid : raw.id < 2 ^ 32)
    (hkey : track.key.kind = track.kind) (hfits : source.Fits)
    (hlimit : limits.maxSamplesPerTrack < 2 ^ 32) :
    ∃ indexed, IndexedAs track indexed :=
  ⟨{ id := track.id
     key := track.key
     kind := track.kind
     timescale := track.timescale
     samples := track.samples
     id_lt := h.id ▸ hid
     timescale_pos := track.timescale_pos
     timescale_lt := h.timescale_lt
     samples_valid := h.valid hfits hlimit
     samples_nonempty := h.nonempty
     key_kind := hkey }, rfl, rfl, rfl, rfl, rfl⟩

theorem countP_audio_eq {tracks moved : List MediaTrack}
    (h : List.Forall₂ Keeps tracks moved) :
    (moved.countP fun track => track.kind == .audio) =
      tracks.countP fun track => track.kind == .audio := by
  induction h with
  | nil => rfl
  | cons hhead _ ih => rw [List.countP_cons, List.countP_cons, ih, hhead.kind]

/-- A file that the parser accepts is a well-formed index: its tracks are
those that `moov` describes and that are packaged, each with the samples that
the tables or the fragments list for it, cut and moved; they have different
ids, valid indexes that are not empty, samples that are inside the file, and
audio keys in file order. -/
theorem parsed_files_are_well_formed {blake3 : List UInt8 → List UInt8}
    {metadata : Metadata} {limits : ParserLimits} {media : ParsedMedia}
    (hlimit : limits.maxSamplesPerTrack < 2 ^ 32)
    (h : (parseMetadata blake3 metadata limits).run = some (.ok media)) :
    ∃ (moov : RawMoov) (source : TrackSource) (index : MediaIndex),
      validateRawMoov metadata.moovBytes = .ok moov ∧
      trackSource moov metadata = .ok source ∧
      List.Forall₂ (TrackOf limits.toLimitsConfig metadata.len source)
        (moov.tracks.filter RawTrack.kept) media.tracks ∧
      List.Forall₂ IndexedAs media.tracks index.tracks ∧
      (∀ track ∈ media.tracks, ∀ sample ∈ track.samples.all,
        sample.offset + sample.size ≤ metadata.len) ∧
      audioKeys media.tracks =
        (List.range' 1 (media.tracks.countP fun track =>
          track.kind == .audio)).map fun number =>
            .audio (min number (2 ^ 16 - 1)) := by
  obtain ⟨moov, source, edited, hmoov, hsource, hedited, htracks⟩ :=
    parseMetadata_spec h
  have hchecked := validateRawMoov_checked hmoov
  have hfits := trackSource_fits hchecked hsource
  have hnamed := assignKeysFrom_keeps 0 edited
  have hall : List.Forall₂ (fun raw named =>
      TrackOf limits.toLimitsConfig metadata.len source raw named ∧
        named.key.kind = named.kind)
      (moov.tracks.filter RawTrack.kept) media.tracks := by
    rw [htracks]
    exact forall₂_comp hedited hnamed fun raw track named htrack hkeeps =>
      ⟨htrack.keep hkeeps.1, hkeeps.2⟩
  have heach : ∀ track ∈ media.tracks, ∃ raw ∈ moov.tracks,
      TrackOf limits.toLimitsConfig metadata.len source raw track ∧
        track.key.kind = track.kind := by
    intro track htrack
    obtain ⟨raw, hraw, hof⟩ := exists_mem_of_forall₂ hall.flip htrack
    exact ⟨raw, List.mem_of_mem_filter hraw, hof⟩
  obtain ⟨indexed, hindexed⟩ : ∃ indexed,
      List.Forall₂ IndexedAs media.tracks indexed := by
    refine exists_forall₂_iff.mpr fun track htrack => ?_
    obtain ⟨raw, hraw, hof, hkey⟩ := heach track htrack
    exact hof.exists_indexed (hchecked.distinct.lt raw hraw) hkey hfits hlimit
  have hids : indexed.map Track.id =
      (moov.tracks.filter RawTrack.kept).map RawTrack.id := by
    rw [← List.forall₂_eq_eq_eq, List.forall₂_map_left_iff,
      List.forall₂_map_right_iff]
    exact (forall₂_comp hall hindexed fun raw track found hof hfound =>
      (hfound.id.trans hof.1.id : found.id = raw.id)).flip
  have hunique : (indexed.map Track.id).Nodup := by
    rw [hids]
    exact hchecked.distinct.nodup.sublist
      (List.filter_sublist.map RawTrack.id)
  refine ⟨moov, source, ⟨indexed, hunique⟩, hmoov, hsource,
    hall.imp fun _ _ hof => hof.1, hindexed, ?_, ?_⟩
  · intro track htrack
    obtain ⟨raw, -, hof, -⟩ := heach track htrack
    exact hof.inside hfits hlimit
  · have hkeys := audioKeys_assignKeysFrom 0 edited
    have hkinds := countP_audio_eq (hnamed.imp fun _ _ hkeeps => hkeeps.1)
    rw [htracks]
    unfold assignKeys
    rw [hkinds]
    exact hkeys

/-- A sound track of two samples of 10 bytes each. -/
def playedTrak : List UInt8 :=
  boxesBytes [
    (code 't' 'k' 'h' 'd', List.replicate 12 0 ++ encode 4 1),
    (code 'm' 'd' 'i' 'a', boxesBytes [
      (code 'm' 'd' 'h' 'd', List.replicate 12 0 ++ (encode 4 48000 ++
        (encode 4 2048 ++ encode 2 0x15c7))),
      (code 'h' 'd' 'l' 'r', List.replicate 8 0 ++ code 's' 'o' 'u' 'n'),
      (code 'm' 'i' 'n' 'f', boxesBytes [
        (code 'd' 'i' 'n' 'f', boxesBytes [
          (code 'd' 'r' 'e' 'f', List.replicate 4 0 ++ (encode 4 1 ++
            boxBytes (code 'u' 'r' 'l' ' ') [0, 0, 0, 1]))]),
        (code 's' 't' 'b' 'l', boxesBytes [
          (code 's' 't' 's' 'd', List.replicate 4 0 ++ (encode 4 1 ++
            boxBytes (code 'a' 'c' '-' '3') (List.replicate 16 0 ++
              (encode 2 2 ++ (encode 2 16 ++ (encode 4 0 ++
                (encode 4 (48000 * 2 ^ 16) ++
                  boxBytes (code 'd' 'a' 'c' '3') [1, 2, 3]))))))),
          (code 's' 't' 't' 's', List.replicate 4 0 ++ (encode 4 1 ++
            (encode 4 2 ++ encode 4 1024))),
          (code 's' 't' 's' 'c', List.replicate 4 0 ++ (encode 4 1 ++
            (encode 4 1 ++ (encode 4 2 ++ encode 4 1)))),
          (code 's' 't' 's' 'z', List.replicate 4 0 ++ (encode 4 10 ++
            encode 4 2)),
          (code 's' 't' 'c' 'o', List.replicate 4 0 ++ (encode 4 1 ++
            encode 4 100))])])])]

/-- A file of that one track. -/
def playedMetadata : Metadata where
  len := 1000
  moov := ⟨200, 600⟩
  moovBytes := boxBytes (code 'm' 'o' 'o' 'v') (boxesBytes [
    (code 'm' 'v' 'h' 'd', List.replicate 12 0 ++ (encode 4 1000 ++
      encode 4 43)),
    (code 't' 'r' 'a' 'k', playedTrak)])
  fragments := []
  discovery := .sequential
  dropped := none

/-- Its one track is named `audio-1`. -/
theorem parsed_files_are_well_formed_played :
    ∃ (media : ParsedMedia) (index : MediaIndex),
      List.Forall₂ IndexedAs media.tracks index.tracks ∧
        audioKeys media.tracks = [.audio 1] := by
  obtain ⟨media, hmedia, hkinds⟩ := @exists_ok_of_any ParsedMedia
    (parseMetadata id playedMetadata {}) (fun media =>
      (media.tracks.countP fun track => track.kind == .audio) == 1)
    (by decide +kernel)
  obtain ⟨-, -, index, -, -, -, hindexed, -, hkeys⟩ :=
    parsed_files_are_well_formed (by decide) hmedia
  rw [beq_iff_eq.mp hkinds] at hkeys
  exact ⟨media, index, hindexed, hkeys⟩

end MetadataParser

end Segmentor
