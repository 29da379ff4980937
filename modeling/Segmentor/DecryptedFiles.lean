import Segmentor.ParsedFiles

/-!
# Decrypting protected files

A file with a protected track is accepted with an entry for every sample that
it lists for the track.  However the track is cut and moved from then on, each
sample of each of its segments is decrypted by its own entry.
-/

namespace Segmentor

open General EditLists MoovReader

namespace MetadataParser

/-! ## The entries of a file -/

section

variable (limits : LimitsConfig) (sourceLen : ℕ) (raw : RawTrack)
  (sampleTable : List UInt8) (sinf : Sinf)

/-- The samples that the source lists for a track, and the entries that `senc`
lists: the one beside the sample tables, or that of each `traf` in file
order. -/
inductive TrackSource.Protects :
    TrackSource → List Sample → List SencEntry → Prop
  | tables {tables : SampleTables} {samples : List Sample}
      {entries : List SencEntry}
      (htables : TableReader.parseSampleTables sampleTable = .ok tables)
      (hsamples : expandSamples tables sourceLen limits = .ok samples)
      (hentries : TableLists sinf sampleTable entries) :
      Protects .tables samples entries
  | fragmented {fragments : List Fragment}
      {defaults : List (ℕ × TrackDefaults)} {parts : List TrafPart}
      (hplaces : fileTrafs fragments = .ok (parts.map TrafPart.place))
      (hparts : ∀ part ∈ parts,
        part.Agrees (TrackSource.query raw sourceLen limits defaults) sinf)
      (hsamples : trackSamples fragments
        (TrackSource.query raw sourceLen limits defaults) =
          .ok (parts.flatMap TrafPart.samples)) :
      Protects (.fragmented fragments defaults)
        (parts.flatMap TrafPart.samples) (parts.flatMap TrafPart.entries)

end

/-- What decrypting by position rests on: `base` indexes the samples, all of
them inside the file, and the protection lists an entry for each. -/
structure EntriesMatch (sourceLen : ℕ) (sinf : Sinf) (base : SampleIndex)
    (protection : SourceProtection) (samples : List Sample)
    (entries : List SencEntry) : Prop where
  isProtected : sinf.isProtected = true
  lists : protection.Lists sinf entries
  length_eq : entries.length = samples.length
  inside : ∀ sample ∈ samples, sample.offset + sample.size ≤ sourceLen
  whole : base.Whole samples

section

variable {limits : LimitsConfig} {sourceLen : ℕ} {raw : RawTrack}
  {sampleTable : List UInt8} {source : TrackSource} {base : SampleIndex}
  {sinf : Sinf} {protection : SourceProtection}

/-- The entries are as many as the samples, wherever both are listed. -/
theorem TrackSource.Indexes.entriesMatch
    (h : source.Indexes limits sourceLen raw sampleTable base)
    (hid : raw.id < 2 ^ 32) (hsound : sinf.Sound)
    (hprotection : (source.protection raw (some sinf) sampleTable
      base.len).run = some (.ok (some protection))) :
    ∃ samples entries,
      source.Protects limits sourceLen raw sampleTable sinf samples entries ∧
        EntriesMatch sourceLen sinf base protection samples entries := by
  cases h with
  | @tables tables base htables hbase =>
      obtain ⟨hprotected, entries, hentries, hlength, hlists⟩ :=
        readProtection_lists hsound hprotection
      obtain ⟨-, hsamples⟩ := exists_expanded hbase
      rw [← SampleIndex.length_all] at hlength
      exact ⟨base.all, entries, .tables htables hsamples hentries, hprotected,
        hlists, hlength, inside_of_expandSamples hsamples,
        whole_of_sampleIndex hbase hsamples⟩
  | @fragmented fragments defaults samples hmoov hsamples =>
      have hlen : (SampleIndex.fromSamples samples).len = samples.length := by
        have hwhole := SampleIndex.fromSamples_whole samples
        rw [← hwhole.len_eq]
        rfl
      rw [hlen] at hprotection
      obtain ⟨hprotected, parts, hplaces, hparts, rfl, hlists⟩ :=
        @readFragmentedProtection_lists fragments
          (TrackSource.query raw sourceLen limits defaults) samples sinf
          sampleTable protection hid hsound hsamples hprotection
      obtain ⟨time, horder⟩ := trackSamples_inOrder hsamples
      refine ⟨_, _, .fragmented hplaces hparts hsamples, hprotected, hlists, ?_,
        horder.inside, SampleIndex.fromSamples_whole _⟩
      rw [List.length_flatMap, List.length_flatMap]
      congr 1
      exact List.map_congr_left fun part hpart =>
        (hparts part hpart).length_eq.symm

end

/-! ## Protected tracks -/

/-- What a protected entry says of its encryption holds together. -/
theorem describeTrack_sinf {raw : RawTrack} {description : TrackDescription}
    (h : describeTrack raw = .ok description) :
    ∀ sinf ∈ description.sinf, sinf.Sound := by
  unfold describeTrack at h
  obtain ⟨media, -, h⟩ := bind_eq_ok_iff.mp h
  obtain ⟨mdhd, -, h⟩ := bind_eq_ok_iff.mp h
  obtain ⟨header, -, h⟩ := bind_eq_ok_iff.mp h
  obtain ⟨mediaInfo, -, h⟩ := bind_eq_ok_iff.mp h
  obtain ⟨sampleTable, -, h⟩ := bind_eq_ok_iff.mp h
  obtain ⟨entry, -, h⟩ := bind_eq_ok_iff.mp h
  obtain ⟨found, hfound, h⟩ := bind_eq_ok_iff.mp h
  obtain ⟨codec, -, h⟩ := bind_eq_ok_iff.mp h
  obtain rfl := Except.ok.inj h
  rintro sinf rfl
  unfold entrySinf at hfound
  split at hfound
  · obtain ⟨children, -, hfound⟩ := bind_eq_ok_iff.mp hfound
    obtain ⟨box, -, hfound⟩ := bind_eq_ok_iff.mp hfound
    cases hsinf : parseSinf raw.id box.payload with
    | error error =>
        rw [hsinf] at hfound
        cases hfound
    | ok parsed =>
        rw [hsinf] at hfound
        obtain rfl := Option.some.inj (Except.ok.inj hfound)
        exact parseSinf_sound hsinf
  · cases hfound

/-- The segments of whatever is cut from an index, and moved, decrypt each of
their samples by its own entry. -/
def DecryptsByOwn (sourceLen : ℕ) (sinf : Sinf) (protection : SourceProtection)
    (samples : List Sample) (entries : List SencEntry) (base : SampleIndex) :
    Prop :=
  ∀ {context : FinishContext} {bytes : List UInt8} {moves : List Move}
    {asset : PackagedAsset} {key : TrackKey}
    {segmentIndex sequenceNumber : ℕ} {track : Track}
    {pending : PendingSegment},
    context.decryption.protection = protection →
    sourceLen ≤ bytes.length →
    moves.foldlM SampleIndex.move base = .ok track.samples →
    asset.track key = .ok track → track.id ∈ asset.decryption →
    asset.prepareNumberedSegment key segmentIndex sequenceNumber =
      .ok pending →
    ∃ segment part, asset.plan.segments[segmentIndex]? = some segment ∧
      segment.part track.id = some part ∧
      DecryptsOwn context bytes sinf track part
        (ownEntries samples entries
          (track.samples.start + part.firstSample)
          (part.endSample - part.firstSample)) pending

theorem EntriesMatch.decryptsByOwn {sourceLen : ℕ} {sinf : Sinf}
    {base moved : SampleIndex} {protection : SourceProtection}
    {samples : List Sample} {entries : List SencEntry}
    (h : EntriesMatch sourceLen sinf base protection samples entries)
    (hsound : sinf.Sound) (hmoves : base.MovesTo moved) :
    DecryptsByOwn sourceLen sinf protection samples entries moved := by
  intro context bytes moves asset key segmentIndex sequenceNumber track pending
    hcontext hbytes hcut hkey hid hprepare
  obtain ⟨earlier, hearlier⟩ := hmoves
  have hall : (earlier ++ moves).foldlM SampleIndex.move base =
      .ok track.samples := by
    rw [List.foldlM_append, hearlier]
    exact hcut
  exact prepareNumberedSegment_decryptsOwn hsound h.isProtected
    (hcontext ▸ h.lists) h.length_eq
    (fun sample hsample => (h.inside sample hsample).trans hbytes) h.whole
    hall hkey hid hprepare

/-- Every protected track of an accepted file has an entry for every sample
that is listed for it, and each sample of each segment of whatever the track
is cut to, and however it is moved, is decrypted by the entry of that very
sample. -/
theorem protected_samples_stay_aligned {blake3 : List UInt8 → List UInt8}
    {metadata : Metadata} {limits : ParserLimits} {media : ParsedMedia}
    {track : MediaTrack} {protection : SourceProtection}
    (h : (parseMetadata blake3 metadata limits).run = some (.ok media))
    (htrack : track ∈ media.tracks)
    (hprotected : track.sourceProtection = some protection) :
    ∃ (moov : RawMoov) (source : TrackSource) (raw : RawTrack)
      (description : TrackDescription) (sinf : Sinf) (samples : List Sample)
      (entries : List SencEntry),
      validateRawMoov metadata.moovBytes = .ok moov ∧
      trackSource moov metadata = .ok source ∧
      raw ∈ moov.tracks ∧ raw.id = track.id ∧
      describeTrack raw = .ok description ∧ description.sinf = some sinf ∧
      source.Protects limits.toLimitsConfig metadata.len raw
        description.sampleTable sinf samples entries ∧
      entries.length = samples.length ∧
      DecryptsByOwn metadata.len sinf protection samples entries
        track.samples := by
  obtain ⟨moov, source, edited, hmoov, hsource, hedited, htracks⟩ :=
    parseMetadata_spec h
  have hnamed := assignKeysFrom_keeps 0 edited
  have hall := forall₂_comp hedited hnamed fun raw before named hof hkeeps =>
    (hof.keep hkeeps.1 :
      TrackOf limits.toLimitsConfig metadata.len source raw named)
  rw [htracks] at htrack
  obtain ⟨raw, hraw, hof⟩ := exists_mem_of_forall₂ hall.flip htrack
  have hmem := List.mem_of_mem_filter hraw
  obtain ⟨description, base, hdescription, -, -, -, hindexes, hprotection,
    hmoves⟩ := hof.described
  rw [hprotected] at hprotection
  cases hsinf : description.sinf with
  | none =>
      rw [hsinf] at hprotection
      cases source <;> cases hprotection
  | some sinf =>
      rw [hsinf] at hprotection
      have hsound := describeTrack_sinf hdescription sinf hsinf
      obtain ⟨samples, entries, hlisted, hmatch⟩ := hindexes.entriesMatch
        ((validateRawMoov_checked hmoov).distinct.lt raw hmem) hsound
        hprotection
      exact ⟨moov, source, raw, description, sinf, samples, entries, hmoov,
        hsource, hmem, hof.id.symm, hdescription, hsinf, hlisted,
        hmatch.length_eq, hmatch.decryptsByOwn hsound hmoves⟩

/-- A sound track of two samples, of 3 and 4 bytes: all of the second is
protected, and the last two bytes of the first. -/
def mutedTrak : List UInt8 :=
  boxesBytes [
    (code 't' 'k' 'h' 'd', List.replicate 12 0 ++ encode 4 1),
    (code 'm' 'd' 'i' 'a', boxesBytes [
      (code 'm' 'd' 'h' 'd', List.replicate 12 0 ++ (encode 4 1000 ++
        (encode 4 2000 ++ encode 2 0x15c7))),
      (code 'h' 'd' 'l' 'r', List.replicate 8 0 ++ code 's' 'o' 'u' 'n'),
      (code 'm' 'i' 'n' 'f', boxesBytes [
        (code 'd' 'i' 'n' 'f', boxesBytes [
          (code 'd' 'r' 'e' 'f', List.replicate 4 0 ++ (encode 4 1 ++
            boxBytes (code 'u' 'r' 'l' ' ') [0, 0, 0, 1]))]),
        (code 's' 't' 'b' 'l', boxesBytes [
          (code 's' 't' 's' 'd', List.replicate 4 0 ++ (encode 4 1 ++
            boxBytes (code 'e' 'n' 'c' 'a') (List.replicate 16 0 ++
              (encode 2 2 ++ (encode 2 16 ++ (encode 4 0 ++
                (encode 4 (48000 * 2 ^ 16) ++ boxesBytes [
                  (code 'd' 'a' 'c' '3', [1, 2, 3]),
                  (code 's' 'i' 'n' 'f', boxesBytes [
                    (code 'f' 'r' 'm' 'a', code 'a' 'c' '-' '3'),
                    (code 's' 'c' 'h' 'm', writeFullBoxFields 0 0 ++
                      code 'c' 'e' 'n' 'c' ++ encode 4 0x10000),
                    (code 's' 'c' 'h' 'i', boxesBytes [
                      (code 't' 'e' 'n' 'c', writeFullBoxFields 0 0 ++
                        [0, 0, 1, 8] ++ List.replicate 16 7)])])]))))))),
          (code 's' 't' 't' 's', List.replicate 4 0 ++ (encode 4 1 ++
            (encode 4 2 ++ encode 4 1000))),
          (code 's' 't' 's' 'c', List.replicate 4 0 ++ (encode 4 1 ++
            (encode 4 1 ++ (encode 4 2 ++ encode 4 1)))),
          (code 's' 't' 's' 'z', List.replicate 4 0 ++ (encode 4 0 ++
            (encode 4 2 ++ (encode 4 3 ++ encode 4 4)))),
          (code 's' 't' 'c' 'o', List.replicate 4 0 ++ (encode 4 1 ++
            encode 4 200)),
          (code 's' 'e' 'n' 'c', writeFullBoxFields 0 2 ++ encode 4 2 ++
            encode 8 5 ++ encode 2 1 ++ encode 2 1 ++ encode 4 2 ++
            encode 8 6 ++ encode 2 0)])])])]

/-- A file of that one track. -/
def mutedMetadata : Metadata where
  len := 400
  moov := ⟨204, 196⟩
  moovBytes := boxBytes (code 'm' 'o' 'o' 'v') (boxesBytes [
    (code 'm' 'v' 'h' 'd', List.replicate 12 0 ++ (encode 4 1000 ++
      encode 4 2000)),
    (code 't' 'r' 'a' 'k', mutedTrak)])
  fragments := []
  discovery := .sequential
  dropped := none

/-- Its second sample only, moved to the start. -/
def mutedTrack : Track :=
  .checked 1 (.audio 1) 1000 ⟨(cipheredBase false).tables, 1, 2, -1000⟩
    (by decide)

def mutedAsset : PackagedAsset where
  index := ⟨[mutedTrack], by simp⟩
  plan := cipheredPlan
  limits := {}
  version := "0123456789abcdef"
  protection := none
  aes128 := none
  decryption := [1]
  muxed := none
  planned := ⟨1000, by decide⟩
  protection_built := by simp

def mutedProtection : SourceProtection :=
  { cipheredProtection with originalFormat := code 'a' 'c' '-' '3' }

def mutedContext : FinishContext :=
  { cipheredContext with
    decryption := ⟨⟨chainedCipher, .cenc, 0, 0⟩, mutedProtection⟩ }

set_option maxRecDepth 4000 in
theorem protected_samples_stay_aligned_muted :
    ∃ (sinf : Sinf) (samples : List Sample) (entries : List SencEntry)
      (pending : PendingSegment), entries.length = samples.length ∧
      mutedAsset.prepareNumberedSegment (.audio 1) 0 1 = .ok pending ∧
      DecryptsOwn mutedContext (List.replicate 400 0) sinf mutedTrack
        ⟨1, 0, 1, 0, 1000⟩ (ownEntries samples entries 1 1) pending := by
  obtain ⟨media, hmedia, hany⟩ := @exists_ok_of_any ParsedMedia
    (parseMetadata id mutedMetadata {}) (fun media =>
      media.tracks.any fun (track : MediaTrack) =>
        track.samples == cipheredBase false &&
          track.sourceProtection == some mutedProtection)
    (by decide +kernel)
  obtain ⟨track, htrack, hfound⟩ := List.any_eq_true.mp hany
  rw [Bool.and_eq_true, beq_iff_eq, beq_iff_eq] at hfound
  obtain ⟨hsamples, hprotected⟩ := hfound
  obtain ⟨pending, hpending⟩ := @exists_ok_of_isOk Error PendingSegment
    (mutedAsset.prepareNumberedSegment (.audio 1) 0 1) (by decide)
  have hcut : ([.window 1 2, .shifted (-1000) "overflow"] : List Move).foldlM
      SampleIndex.move track.samples = .ok mutedTrack.samples := by
    rw [hsamples]
    decide
  obtain ⟨moov, source, raw, description, sinf, samples, entries, -, -, -, -,
    -, -, -, hlength, haligned⟩ :=
      protected_samples_stay_aligned hmedia htrack hprotected
  obtain ⟨segment, part, hsegment, hpart, hdecrypts⟩ :=
    @haligned mutedContext (List.replicate 400 0) _ mutedAsset (.audio 1) 0 1
      mutedTrack pending rfl List.length_replicate.ge hcut rfl (by decide)
      hpending
  obtain rfl := Option.some.inj hsegment
  obtain rfl := Option.some.inj hpart
  exact ⟨sinf, samples, entries, pending, hlength, hpending, hdecrypts⟩

end MetadataParser

end Segmentor
