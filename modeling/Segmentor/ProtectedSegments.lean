import Segmentor.EncryptedSegments
import Segmentor.FragmentEntries
import Segmentor.PreparedSegments
import Segmentor.SampleSlices
import Segmentor.SampleTablesEquivalence

/-!
# Segments of a protected source

The samples of a segment are found through every cut and move of its track,
and decrypted by their positions in the file's tables.  Each is decrypted with
the vector and the subsamples that the file lists for that very sample.
-/

namespace Segmentor

open General

/-! ## Decrypting by entries -/

/-- The vector of a sample with this entry, as a block. -/
def SencEntry.vector (sinf : Sinf) (entry : SencEntry) : List UInt8 :=
  ((if sinf.ivSize = 0 then sinf.constantIv else iv16 entry.iv)).getD []

/-- Decrypts a sample as its entry says. -/
def SencEntry.decrypt (sinf : Sinf) (decryptor : SampleDecryptor)
    (entry : SencEntry) (data : List UInt8) : Result (List UInt8) :=
  decryptor.decrypt (entry.vector sinf) data entry.subsamples

/-- The tables of a track's protection list these entries. -/
structure SourceProtection.Lists (protection : SourceProtection) (sinf : Sinf)
    (entries : List SencEntry) : Prop where
  iv_length : ∀ entry ∈ entries, entry.iv.length = sinf.ivSize
  constantIv_eq : protection.constantIv = sinf.constantIv
  iv_eq : ∀ (index : ℕ) entry, entries[index]? = some entry →
    protection.aux.iv index =
      if sinf.ivSize = 0 then none else some entry.iv
  subsamples_eq : ∀ (index : ℕ) entry, entries[index]? = some entry →
    protection.aux.subsamplesOf index = entry.subsamples

theorem TrackDecryption.decryptSample_eq {decryption : TrackDecryption}
    {sinf : Sinf} {entries : List SencEntry} {index : ℕ} {entry : SencEntry}
    (hsound : sinf.Sound) (hprotected : sinf.isProtected = true)
    (h : decryption.protection.Lists sinf entries)
    (hentry : entries[index]? = some entry) (data : List UInt8) :
    decryption.decryptSample index data =
      entry.decrypt sinf decryption.decryptor data := by
  unfold TrackDecryption.decryptSample SencEntry.decrypt SencEntry.vector
  dsimp only
  rw [h.iv_eq index entry hentry, h.subsamples_eq index entry hentry,
    h.constantIv_eq]
  by_cases hconstant : sinf.ivSize = 0
  · obtain ⟨iv, hiv⟩ := Option.isSome_iff_exists.mp
      (hsound.constant_iff.mpr ⟨hprotected, hconstant⟩)
    rw [if_pos hconstant, if_pos hconstant, hiv]
    rfl
  · have hlength := h.iv_length entry (List.mem_of_getElem? hentry)
    have hpadded : iv16 entry.iv =
        some (entry.iv ++ List.replicate (16 - entry.iv.length) 0) := by
      unfold iv16
      rw [if_pos (by have := hsound.size; omega)]
    rw [if_neg hconstant, if_neg hconstant]
    dsimp only
    rw [hpadded]
    rfl

/-! ## Reading entries -/

/-- Finished tables list what was added to them. -/
theorem AuxBuilder.Lists.protection {builder : AuxBuilder} {sinf : Sinf}
    {entries : List SencEntry} {protection : SourceProtection}
    (h : builder.Lists entries) (hsize : builder.ivSize = sinf.ivSize)
    (hfinish : finishProtection sinf (.ok (some builder)) =
      some (.ok (some protection))) :
    protection.Lists sinf entries := by
  obtain ⟨aux, haux, hprotection⟩ := Option.map_eq_some_iff.mp hfinish
  obtain rfl := Option.some.inj (Except.ok.inj hprotection)
  refine ⟨hsize ▸ h.iv_length, rfl, fun index entry hentry => ?_,
    fun index entry hentry => (h.found haux hentry).2⟩
  rw [← hsize]
  exact (h.found haux hentry).1

/-- A protected track of a fragmented file has an entry for every sample, and
its tables list them. -/
theorem readFragmentedProtection_lists {fragments : List Fragment}
    {query : TrackQuery} {samples : List Sample} {sinf : Sinf}
    {stbl : List UInt8} {protection : SourceProtection}
    (htrack : query.trackId < 2 ^ 32) (hsound : sinf.Sound)
    (h : trackSamples fragments query = .ok samples)
    (hread : readFragmentedProtection query.trackId sinf stbl fragments
      samples.length = some (.ok (some protection))) :
    sinf.isProtected = true ∧
      ∃ parts : List TrafPart,
        fileTrafs fragments = .ok (parts.map TrafPart.place) ∧
          (∀ part ∈ parts, part.Agrees query sinf) ∧
          samples = parts.flatMap TrafPart.samples ∧
          protection.Lists sinf (parts.flatMap TrafPart.entries) := by
  unfold readFragmentedProtection at hread
  cases haux : readFragmentedAux query.trackId sinf stbl fragments
      samples.length with
  | error error =>
      rw [haux] at hread
      cases hread
  | ok found =>
      rw [haux] at hread
      cases found with
      | none => cases hread
      | some builder =>
          obtain ⟨hsize, hprotected, parts, hplaces, hagrees, hsamples,
            hlists⟩ := readFragmentedAux_agrees htrack hsound h haux
          exact ⟨hprotected, parts, hplaces, hagrees, hsamples,
            hlists.protection hsize hread⟩

/-- What a sample table lists for the track's samples. -/
inductive TableLists (sinf : Sinf) (stbl : List UInt8) :
    List SencEntry → Prop
  | listed {senc : RawBox} {entries : List SencEntry}
      (hsenc : optionalChild stbl (code 's' 'e' 'n' 'c') = .ok (some senc))
      (h : SencLists sinf.ivSize senc.payload entries) :
      TableLists sinf stbl entries
  | unlisted {count : ℕ}
      (hsenc : optionalChild stbl (code 's' 'e' 'n' 'c') = .ok none)
      (hconstant : sinf.constantIv.isSome = true) :
      TableLists sinf stbl (List.replicate count ⟨[], []⟩)

/-- Tables without samples list samples that are protected whole under a
constant vector. -/
theorem lists_replicate {sinf : Sinf} (hsize : sinf.ivSize = 0)
    (count : ℕ) :
    (protectionOf sinf ⟨0, [], [], []⟩).Lists sinf
      (List.replicate count ⟨[], []⟩) where
  iv_length entry hentry := by
    obtain ⟨-, rfl⟩ := List.mem_replicate.mp hentry
    exact hsize.symm
  constantIv_eq := rfl
  iv_eq index entry hentry := by
    rw [if_pos hsize]
    rfl
  subsamples_eq index entry hentry := by
    obtain ⟨-, rfl⟩ := List.mem_replicate.mp (List.mem_of_getElem? hentry)
    rfl

/-- A protected track of a file with sample tables has an entry for every
sample too. -/
theorem readProtection_lists {trackId sampleCount : ℕ} {sinf : Sinf}
    {stbl : List UInt8} {protection : SourceProtection}
    (hsound : sinf.Sound)
    (hread : readProtection trackId sinf stbl sampleCount =
      some (.ok (some protection))) :
    sinf.isProtected = true ∧
      ∃ entries, TableLists sinf stbl entries ∧
        entries.length = sampleCount ∧ protection.Lists sinf entries := by
  unfold readProtection at hread
  cases haux : readAux trackId sinf stbl sampleCount with
  | error error =>
      rw [haux] at hread
      cases hread
  | ok found =>
      rw [haux] at hread
      unfold readAux at haux
      obtain ⟨boxes, -, haux⟩ := bind_eq_ok_iff.mp haux
      obtain ⟨_, -, haux⟩ := bind_eq_ok_iff.mp haux
      split at haux
      · obtain rfl := Except.ok.inj haux
        cases hread
      rename_i hprotected
      refine ⟨not_not.mp hprotected, ?_⟩
      obtain ⟨senc, hsenc, haux⟩ := bind_eq_ok_iff.mp haux
      obtain ⟨saiz, -, haux⟩ := bind_eq_ok_iff.mp haux
      cases senc with
      | some senc =>
          dsimp only at haux
          obtain ⟨builder, hpush, haux⟩ := bind_eq_ok_iff.mp haux
          obtain rfl := Except.ok.inj haux
          obtain ⟨entries, hlists, hlength, -, -, rfl⟩ :=
            AuxBuilder.pushSenc_eq_ok_iff.mp hpush
          have hadded := (AuxBuilder.lists_new sinf.ivSize sampleCount).addAll
            hlists.iv_length
          exact ⟨entries, .listed hsenc hlists, hlength,
            hadded.protection rfl hread⟩
      | none =>
          dsimp only at haux
          split at haux
          · cases haux
          split at haux
          · rename_i hconstant
            obtain rfl := Except.ok.inj haux
            obtain rfl :=
              Option.some.inj (Except.ok.inj (Option.some.inj hread))
            exact ⟨_, .unlisted hsenc hconstant, List.length_replicate,
              lists_replicate (hsound.constant_iff.mp hconstant).2 _⟩
          · cases haux

/-! ## Segments -/

/-- The samples of a file, each decrypted as its own entry says. -/
def decryptOwn (sinf : Sinf) (decryptor : SampleDecryptor)
    (source : List UInt8) (own : List (Sample × SencEntry)) :
    Result (List UInt8) := do
  let clear ← own.mapM fun pair =>
    pair.2.decrypt sinf decryptor (sampleBytes source pair.1)
  .ok clear.flatten

/-- Samples that follow each other are decrypted one by one, each by its own
entry. -/
theorem decryptSamples_eq {decryption : TrackDecryption} {sinf : Sinf}
    {entries : List SencEntry} {source : List UInt8} (hsound : sinf.Sound)
    (hprotected : sinf.isProtected = true)
    (h : decryption.protection.Lists sinf entries) {index : ℕ}
    {own : List (Sample × SencEntry)}
    (hown : ∀ (j : ℕ) sample entry, own[j]? = some (sample, entry) →
      entries[index + j]? = some entry ∧
        sample.offset + sample.size ≤ source.length) :
    decryptSamples decryption index (own.map fun pair => pair.1.size)
        (own.flatMap fun pair => sampleBytes source pair.1) =
      decryptOwn sinf decryption.decryptor source own := by
  induction own generalizing index with
  | nil => rfl
  | cons pair own ih =>
      obtain ⟨sample, entry⟩ := pair
      obtain ⟨hentry, hinside⟩ := hown 0 sample entry rfl
      have hlength := length_sampleBytes hinside
      have hrest := @ih (index + 1) fun j other found hfound => by
        have hlater := hown (j + 1) other found hfound
        rwa [Nat.add_assoc, Nat.add_comm 1]
      rw [Nat.add_zero] at hentry
      unfold decryptOwn at hrest ⊢
      rw [List.map_cons, List.flatMap_cons, decryptSamples, List.mapM_cons]
      dsimp only
      rw [if_neg (by rw [List.length_append]; omega),
        List.take_left' hlength, List.drop_left' hlength, hrest,
        TrackDecryption.decryptSample_eq hsound hprotected h hentry]
      cases entry.decrypt sinf decryption.decryptor
          (sampleBytes source sample) with
      | error error => rfl
      | ok clear =>
          rw [ok_bind, ok_bind]
          cases own.mapM fun pair =>
              pair.2.decrypt sinf decryption.decryptor
                (sampleBytes source pair.1) with
          | error error => rfl
          | ok others => rfl

/-- A sample but for its decode time, which is all that moving a track
changes. -/
def Sample.untimed (sample : Sample) : Sample :=
  { sample with decodeTime := 0 }

/-- Cutting and moving keep the tables. -/
theorem SampleIndex.tables_moves {moves : List Move} {x y : SampleIndex}
    (h : moves.foldlM SampleIndex.move x = .ok y) : y.tables = x.tables := by
  refine foldlM_invariant (I := fun _ z => z.tables = x.tables) ?_ rfl h
  intro move rest z next hz hmove
  cases move with
  | window first stop =>
      unfold SampleIndex.move at hmove
      dsimp only at hmove
      split at hmove
      · obtain rfl := Except.ok.inj hmove
        exact hz
      · cases hmove
  | shifted delta message =>
      unfold SampleIndex.move shifted at hmove
      dsimp only at hmove
      split at hmove
      · split at hmove
        · cases hmove
        · obtain rfl := Except.ok.inj hmove
          exact hz
      · obtain rfl := Except.ok.inj hmove
        exact hz

/-- A sample of an index is the one at its place in the file's tables, but
for its decode time. -/
theorem SampleIndex.untimed_get {x base : SampleIndex}
    (htables : x.tables = base.tables) (hstart : base.start = 0)
    (index : ℕ) :
    (x.get index).untimed = (base.get (x.start + index)).untimed := by
  unfold SampleIndex.get Sample.untimed
  rw [htables, hstart, Nat.zero_add]

/-- The samples of a track's file from `first` on, each with its entry. -/
def ownEntries (samples : List Sample) (entries : List SencEntry)
    (first count : ℕ) : List (Sample × SencEntry) :=
  ((samples.zip entries).drop first).take count

theorem getElem?_ownEntries {samples : List Sample}
    {entries : List SencEntry} {first count j : ℕ} {sample : Sample}
    {entry : SencEntry} :
    (ownEntries samples entries first count)[j]? = some (sample, entry) ↔
      j < count ∧ samples[first + j]? = some sample ∧
        entries[first + j]? = some entry := by
  unfold ownEntries
  rw [List.getElem?_take]
  split
  · rename_i hlt
    rw [List.getElem?_drop, List.getElem?_zip_eq_some]
    simp [hlt]
  · rename_i hge
    simp [hge]

/-- The index is of these samples, all of them. -/
structure SampleIndex.Whole (base : SampleIndex) (samples : List Sample) :
    Prop where
  start_eq : base.start = 0
  len_eq : base.tables.len = samples.length
  get_eq : ∀ (i : ℕ) sample, samples[i]? = some sample → base.get i = sample

theorem SampleIndex.fromSamples_whole (samples : List Sample) :
    (fromSamples samples).Whole samples where
  start_eq := rfl
  len_eq := by
    simp [fromSamples, new, Tables.len, TableBuilder.finish,
      (TableBuilder.built_foldl samples).sizes_eq]
  get_eq _ _ hsample := fromSamples_get hsample

/-- What a segment of a cut track is read from: the samples of the file, with
their entries. -/
theorem toVec_untimed {samples : List Sample} {entries : List SencEntry}
    {base : SampleIndex} {moves : List Move} {track : Track}
    (hbase : base.Whole samples) (hlength : entries.length = samples.length)
    (hcut : moves.foldlM SampleIndex.move base = .ok track.samples)
    {first stop : ℕ} (hfirst : first ≤ stop)
    (hstop : stop ≤ track.samples.len) :
    (track.samples.toVec first stop).map Sample.untimed =
      (ownEntries samples entries (track.samples.start + first)
        (stop - first)).map fun pair => pair.1.untimed := by
  have htables := SampleIndex.tables_moves hcut
  have hvalid := track.samples_valid
  have hinside := hvalid.stop_le
  have hlen : track.samples.len = track.samples.stop - track.samples.start :=
    rfl
  rw [htables, hbase.len_eq] at hinside
  rw [hvalid.toVec_eq hfirst hstop]
  apply List.ext_getElem?
  intro j
  rw [List.getElem?_map, List.getElem?_map, List.getElem?_drop,
    List.getElem?_take]
  by_cases hj : first + j < stop
  · obtain ⟨sample, hsample⟩ : ∃ sample,
        samples[track.samples.start + first + j]? = some sample :=
      ⟨_, List.getElem?_eq_getElem (by omega)⟩
    obtain ⟨entry, hentry⟩ : ∃ entry,
        entries[track.samples.start + first + j]? = some entry :=
      ⟨_, List.getElem?_eq_getElem (by omega)⟩
    rw [if_pos hj, SampleIndex.getElem?_all (by omega),
      getElem?_ownEntries.mpr ⟨by omega, hsample, hentry⟩, Option.map_some,
      Option.map_some, SampleIndex.untimed_get htables hbase.start_eq,
      ← Nat.add_assoc, hbase.get_eq _ _ hsample]
  · have hnone : (ownEntries samples entries (track.samples.start + first)
        (stop - first))[j]? = none := by
      unfold ownEntries
      rw [List.getElem?_take, if_neg (by omega)]
    rw [if_neg hj, hnone]
    rfl

/-- What is left to do with samples that were decrypted. -/
def PendingEncryption.afterDecrypt (context : FinishContext)
    (header : List UInt8) (followedBy : Option PendingEncryption)
    (clear : List UInt8) : Result (List UInt8) :=
  match followedBy with
  | some pending => pending.finish context clear
  | none => .ok (header ++ clear)

theorem PendingEncryption.finish_decrypt (context : FinishContext)
    (header : List UInt8) (first : ℕ) (sizes : List ℕ)
    (followedBy : Option PendingEncryption) (payload : List UInt8) :
    (PendingEncryption.decrypt header first sizes followedBy).finish context
        payload = (do
      let clear ← decryptSamples context.decryption first sizes payload
      afterDecrypt context header followedBy clear) := by
  rw [PendingEncryption.finish]
  cases followedBy <;> rfl

/-- A segment of a protected track is decrypted from the place of its first
sample in the file's tables on. -/
theorem PackagedAsset.withEncryption_decrypt {asset : PackagedAsset}
    {track : Track} (hid : track.id ∈ asset.decryption) (part : TrackSegment)
    (sequenceNumber : ℕ) (prepared : PreparedSegment) :
    ∃ followedBy,
      (asset.withEncryption track part sequenceNumber prepared).encryption =
        some (.decrypt prepared.header
          (track.samples.start + part.firstSample)
          ((track.samples.toVec part.firstSample part.endSample).map
            Sample.size) followedBy) := by
  unfold withEncryption
  dsimp only
  rw [if_pos hid]
  exact ⟨_, rfl⟩

/-- A prepared segment of a protected track decrypts what its ranges read by
the entries of its own samples. -/
structure DecryptsOwn (context : FinishContext) (source : List UInt8)
    (sinf : Sinf) (track : Track) (part : TrackSegment)
    (own : List (Sample × SencEntry)) (pending : PendingSegment) : Prop where
  samples_eq : (track.samples.toVec part.firstSample part.endSample).map
    Sample.untimed = own.map fun pair => pair.1.untimed
  finish_eq : ∃ encryption followedBy,
    pending.encryption = some encryption ∧
      encryption.finish context
          (pending.prepared.ranges.flatMap (readRange source)) = (do
        let clear ←
          decryptOwn sinf context.decryption.decryptor source own
        PendingEncryption.afterDecrypt context pending.prepared.header
          followedBy clear)

/-- However a track was cut and moved, each sample of each of its segments is
decrypted as the entry of that very sample says. -/
theorem prepareNumberedSegment_decryptsOwn {asset : PackagedAsset}
    {key : TrackKey} {segmentIndex sequenceNumber : ℕ} {track : Track}
    {pending : PendingSegment} {context : FinishContext}
    {samples : List Sample} {entries : List SencEntry} {base : SampleIndex}
    {moves : List Move} {source : List UInt8} {sinf : Sinf}
    (hsound : sinf.Sound) (hprotected : sinf.isProtected = true)
    (hlists : context.decryption.protection.Lists sinf entries)
    (hlength : entries.length = samples.length)
    (hinside : ∀ sample ∈ samples,
      sample.offset + sample.size ≤ source.length)
    (hbase : base.Whole samples)
    (hcut : moves.foldlM SampleIndex.move base = .ok track.samples)
    (hkey : asset.track key = .ok track) (hid : track.id ∈ asset.decryption)
    (hprepare : asset.prepareNumberedSegment key segmentIndex
      sequenceNumber = .ok pending) :
    ∃ segment part, asset.plan.segments[segmentIndex]? = some segment ∧
      segment.part track.id = some part ∧
      DecryptsOwn context source sinf track part
        (ownEntries samples entries
          (track.samples.start + part.firstSample)
          (part.endSample - part.firstSample)) pending := by
  unfold PackagedAsset.prepareNumberedSegment at hprepare
  rw [hkey, ok_bind] at hprepare
  obtain ⟨segment, hsegment, hprepare⟩ := bind_eq_ok_iff.mp hprepare
  obtain ⟨part, hpart, hprepare⟩ := bind_eq_ok_iff.mp hprepare
  obtain ⟨prepared, hprepared, hprepare⟩ := bind_eq_ok_iff.mp hprepare
  obtain rfl := Except.ok.inj hprepare
  obtain ⟨hsome, hend, -, hranges⟩ := prepareMediaSegment_written hprepared
  have hfirst : part.firstSample < part.endSample := by
    simpa [hasSamples] using hsome
  refine ⟨segment, part, okOr_eq_ok_iff.mp hsegment, okOr_eq_ok_iff.mp hpart,
    ?_⟩
  set own := ownEntries samples entries
    (track.samples.start + part.firstSample)
    (part.endSample - part.firstSample) with hown
  have hsame := toVec_untimed hbase hlength hcut hfirst.le hend
  rw [← hown] at hsame
  have hsizes :
      (track.samples.toVec part.firstSample part.endSample).map Sample.size =
        own.map fun pair => pair.1.size := by
    have hmapped := congrArg (List.map Sample.size) hsame
    rw [List.map_map, List.map_map] at hmapped
    exact hmapped
  have hbytes : (track.samples.toVec part.firstSample part.endSample).flatMap
      (sampleBytes source) =
        own.flatMap fun pair => sampleBytes source pair.1 := by
    have hmapped := congrArg (List.flatMap (sampleBytes source)) hsame
    rw [List.flatMap_map, List.flatMap_map] at hmapped
    exact hmapped
  have hdecrypted := @decryptSamples_eq context.decryption sinf entries source
    hsound hprotected hlists (track.samples.start + part.firstSample) own
    fun j sample entry hfound => by
      obtain ⟨-, hsample, hentry⟩ := getElem?_ownEntries.mp hfound
      exact ⟨hentry, hinside sample (List.mem_of_getElem? hsample)⟩
  have hread : prepared.ranges.flatMap (readRange source) =
      own.flatMap fun pair => sampleBytes source pair.1 :=
    (hranges source).trans hbytes
  obtain ⟨followedBy, hencryption⟩ :=
    asset.withEncryption_decrypt hid part sequenceNumber prepared
  refine ⟨hsame, _, followedBy, hencryption, ?_⟩
  change PendingEncryption.finish context _
    (prepared.ranges.flatMap (readRange source)) = _
  rw [PendingEncryption.finish_decrypt, hread, hsizes, hdecrypted]
  rfl

/-- The samples of a protected track of a fragmented file and their entries
are found in two walks over the same `traf` boxes, which list as many of one as
of the other.  Whatever the track was cut to and however it was moved, each
sample of each of its segments is decrypted as the entry of that sample
says. -/
theorem fragmented_segments_use_own_entries {fragments : List Fragment}
    {query : TrackQuery} {samples : List Sample}
    {sinfBytes stbl source : List UInt8} {sinf : Sinf}
    {context : FinishContext} {moves : List Move} {asset : PackagedAsset}
    {key : TrackKey} {segmentIndex sequenceNumber : ℕ} {track : Track}
    {pending : PendingSegment} (htrack : query.trackId < 2 ^ 32)
    (hsource : query.sourceLen ≤ source.length)
    (hsinf : parseSinf query.trackId sinfBytes = .ok sinf)
    (hsamples : trackSamples fragments query = .ok samples)
    (hread : readFragmentedProtection query.trackId sinf stbl fragments
      samples.length = some (.ok (some context.decryption.protection)))
    (hcut : moves.foldlM SampleIndex.move (.fromSamples samples) =
      .ok track.samples)
    (hkey : asset.track key = .ok track) (hid : track.id ∈ asset.decryption)
    (hprepare : asset.prepareNumberedSegment key segmentIndex
      sequenceNumber = .ok pending) :
    ∃ parts : List TrafPart,
      fileTrafs fragments = .ok (parts.map TrafPart.place) ∧
        (∀ part ∈ parts, part.Agrees query sinf) ∧
        samples = parts.flatMap TrafPart.samples ∧
        ∃ segment part, asset.plan.segments[segmentIndex]? = some segment ∧
          segment.part track.id = some part ∧
          DecryptsOwn context source sinf track part
            (ownEntries samples (parts.flatMap TrafPart.entries)
              (track.samples.start + part.firstSample)
              (part.endSample - part.firstSample)) pending := by
  have hsound := parseSinf_sound hsinf
  obtain ⟨hprotected, parts, hplaces, hagrees, hparts, hlists⟩ :=
    readFragmentedProtection_lists htrack hsound hsamples hread
  have hlength : (parts.flatMap TrafPart.entries).length = samples.length := by
    rw [hparts, List.length_flatMap, List.length_flatMap]
    congr 1
    exact List.map_congr_left fun part hpart =>
      (hagrees part hpart).length_eq.symm
  obtain ⟨time, horder⟩ := trackSamples_inOrder hsamples
  exact ⟨parts, hplaces, hagrees, hparts,
    prepareNumberedSegment_decryptsOwn hsound hprotected hlists hlength
      (fun sample hsample => (horder.inside sample hsample).trans hsource)
      (SampleIndex.fromSamples_whole samples) hcut hkey hid hprepare⟩

theorem inside_of_expandSamples {tables : SampleTables} {sourceLen : ℕ}
    {limits : LimitsConfig} {samples : List Sample}
    (h : expandSamples tables sourceLen limits = .ok samples) :
    ∀ sample ∈ samples, sample.offset + sample.size ≤ sourceLen := by
  unfold expandSamples at h
  dsimp only at h
  split at h
  · cases h
  obtain ⟨placed, -, h⟩ := bind_eq_ok_iff.mp h
  obtain ⟨timed, -, h⟩ := bind_eq_ok_iff.mp h
  obtain ⟨composed, -, h⟩ := bind_eq_ok_iff.mp h
  obtain ⟨_, hchecked, h⟩ := bind_eq_ok_iff.mp h
  obtain rfl := Except.ok.inj h
  intro sample hsample
  have hcheck := forM_eq_ok_iff.mp hchecked sample hsample
  unfold checkWithinSource at hcheck
  obtain ⟨stop, hstop, hcheck⟩ := bind_eq_ok_iff.mp hcheck
  obtain ⟨-, rfl⟩ := checkedAdd_eq_some_iff.mp (okOr_eq_ok_iff.mp hstop)
  split at hcheck
  · cases hcheck
  · omega

theorem whole_of_sampleIndex {tables : SampleTables} {sourceLen : ℕ}
    {limits : LimitsConfig} {base : SampleIndex} {samples : List Sample}
    (hindex : sampleIndex tables sourceLen limits = .ok base)
    (hsamples : expandSamples tables sourceLen limits = .ok samples) :
    base.Whole samples := by
  have hagree := sampleIndex_agree tables sourceLen limits
  rw [hindex, hsamples] at hagree
  obtain ⟨hvalid, hall⟩ : base.Valid ∧ base.all = samples := by
    cases hagree with
    | ok h => exact h
  have hholds : base.Holds samples := ⟨hvalid.readable, hall⟩
  have hnew : base.start = 0 ∧ base.stop = base.tables.len := by
    unfold sampleIndex at hindex
    dsimp only at hindex
    split at hindex
    · cases hindex
    obtain ⟨chunks, -, hindex⟩ := bind_eq_ok_iff.mp hindex
    obtain ⟨times, -, hindex⟩ := bind_eq_ok_iff.mp hindex
    obtain ⟨composition, -, hindex⟩ := bind_eq_ok_iff.mp hindex
    split at hindex
    · cases hindex
    · obtain rfl := Except.ok.inj hindex
      exact ⟨rfl, rfl⟩
  refine ⟨hnew.1, ?_, fun i sample => hholds.get_eq⟩
  rw [← hholds.len_eq, ← hnew.2]
  unfold SampleIndex.len
  rw [hnew.1, Nat.sub_zero]

/-- So it is for a file with sample tables, whose samples the tables list and
whose entries a `senc` beside them. -/
theorem tabled_segments_use_own_entries {tables : SampleTables}
    {sourceLen trackId : ℕ} {limits : LimitsConfig} {base : SampleIndex}
    {samples : List Sample} {sinfBytes stbl source : List UInt8} {sinf : Sinf}
    {context : FinishContext} {moves : List Move} {asset : PackagedAsset}
    {key : TrackKey} {segmentIndex sequenceNumber : ℕ} {track : Track}
    {pending : PendingSegment} (hsource : sourceLen ≤ source.length)
    (hsinf : parseSinf trackId sinfBytes = .ok sinf)
    (hindex : sampleIndex tables sourceLen limits = .ok base)
    (hsamples : expandSamples tables sourceLen limits = .ok samples)
    (hread : readProtection trackId sinf stbl base.len =
      some (.ok (some context.decryption.protection)))
    (hcut : moves.foldlM SampleIndex.move base = .ok track.samples)
    (hkey : asset.track key = .ok track) (hid : track.id ∈ asset.decryption)
    (hprepare : asset.prepareNumberedSegment key segmentIndex
      sequenceNumber = .ok pending) :
    ∃ entries, TableLists sinf stbl entries ∧
      entries.length = samples.length ∧
      ∃ segment part, asset.plan.segments[segmentIndex]? = some segment ∧
        segment.part track.id = some part ∧
        DecryptsOwn context source sinf track part
          (ownEntries samples entries
            (track.samples.start + part.firstSample)
            (part.endSample - part.firstSample)) pending := by
  have hsound := parseSinf_sound hsinf
  obtain ⟨hprotected, entries, htable, hlength, hlists⟩ :=
    readProtection_lists hsound hread
  have hagree := sampleIndex_agree tables sourceLen limits
  rw [hindex, hsamples] at hagree
  have hall : base.all = samples := by
    cases hagree with
    | ok h => exact h.2
  rw [← SampleIndex.length_all, hall] at hlength
  exact ⟨entries, htable, hlength,
    prepareNumberedSegment_decryptsOwn hsound hprotected hlists hlength
      (fun sample hsample =>
        (inside_of_expandSamples hsamples sample hsample).trans hsource)
      (whole_of_sampleIndex hindex hsamples) hcut hkey hid hprepare⟩

/-- A fragment of two frames: all of the second is protected, and the last two
bytes of the first. -/
def cipheredFragment : Fragment where
  offset := 0
  bytes := boxesBytes [(code 'm' 'o' 'o' 'f', boxesBytes
    [(code 't' 'r' 'a' 'f', boxesBytes
      [(code 't' 'f' 'h' 'd',
        writeFullBoxFields 0 DEFAULT_BASE_IS_MOOF ++ encode 4 1),
       (code 't' 'r' 'u' 'n',
        writeFullBoxFields 0 0x301 ++ encode 4 2 ++ encode 4 200 ++
          [1000, 3, 1000, 4].flatMap (encode 4)),
       (code 's' 'e' 'n' 'c',
        writeFullBoxFields 0 2 ++ encode 4 2 ++ encode 8 5 ++ encode 2 1 ++
          encode 2 1 ++ encode 4 2 ++ encode 8 6 ++ encode 2 0)])])]

def cipheredSinf : List UInt8 :=
  boxesBytes
    [(code 'f' 'r' 'm' 'a', code 'a' 'v' 'c' '1'),
     (code 's' 'c' 'h' 'm',
      writeFullBoxFields 0 0 ++ code 'c' 'e' 'n' 'c' ++ encode 4 0x10000),
     (code 's' 'c' 'h' 'i', boxesBytes
      [(code 't' 'e' 'n' 'c', writeFullBoxFields 0 0 ++ [0, 0, 1, 8] ++
        List.replicate 16 7)])]

def cipheredSamples : List Sample :=
  [⟨200, 3, 0, 1000, 0, true⟩, ⟨203, 4, 1000, 1000, 0, true⟩]

/-- The same frames in sample tables. -/
def cipheredTables : SampleTables where
  timeToSample := [(2, 1000)]
  composition := none
  sync := none
  sampleToChunk := [(1, 2)]
  sizes := .table [3, 4]
  chunkOffsets := [200]
  count_lt := by decide
  sizes_lt := by decide
  deltas_lt := by decide
  composition_range := by simp

/-- The index of the frames, from fragments or from tables. -/
def cipheredBase : Bool → SampleIndex
  | true => .fromSamples cipheredSamples
  | false => .new ⟨[3, 4], [⟨0, 200⟩], [⟨0, 0, 1000⟩], [], none⟩

/-- The second frame only, moved to the start. -/
def cipheredTrack (fragmented : Bool) : Track :=
  .checked 1 .video 1000 ⟨(cipheredBase fragmented).tables, 1, 2, -1000⟩ (by
    cases fragmented <;> decide)

def cipheredIndex (fragmented : Bool) : MediaIndex where
  tracks := [cipheredTrack fragmented]
  ids_unique := by simp

def cipheredPlan : SegmentPlan where
  segments := [⟨0, [⟨1, 0, 1, 0, 1000⟩]⟩]

theorem plan_cipheredIndex (fragmented : Bool) :
    plan (cipheredIndex fragmented) 1000 {} = .ok cipheredPlan := by
  cases fragmented <;> decide

def cipheredAsset (fragmented : Bool) : PackagedAsset where
  index := cipheredIndex fragmented
  plan := cipheredPlan
  limits := {}
  version := "0123456789abcdef"
  protection := none
  aes128 := none
  decryption := [1]
  muxed := none
  planned := ⟨1000, plan_cipheredIndex fragmented⟩
  protection_built := by simp

def cipheredProtection : SourceProtection where
  scheme := .cenc
  originalFormat := code 'a' 'v' 'c' '1'
  keyId := List.replicate 16 7
  constantIv := none
  cryptBlocks := 0
  skipBlocks := 0
  aux := ⟨8, encode 8 5 ++ encode 8 6, [0, 1, 1], [⟨1, 2⟩]⟩

def cipheredContext : FinishContext where
  aes _ := chainedCipher
  video := none
  decryption := ⟨⟨chainedCipher, .cenc, 0, 0⟩, cipheredProtection⟩

def cipheredKey : Sinf where
  originalFormat := code 'a' 'v' 'c' '1'
  scheme := .cenc
  keyId := List.replicate 16 7
  ivSize := 8
  constantIv := none
  cryptBlocks := 0
  skipBlocks := 0
  isProtected := true

/-- The second frame is decrypted by an entry of its own, the second one that
is listed. -/
def SecondDecrypted (fragmented : Bool) (pending : PendingSegment)
    (entries : List SencEntry) : Prop :=
  DecryptsOwn cipheredContext (List.replicate 400 0) cipheredKey
    (cipheredTrack fragmented) ⟨1, 0, 1, 0, 1000⟩
    (ownEntries cipheredSamples entries 1 1) pending

theorem cipheredAsset_part {fragmented : Bool} {segment : Segment}
    {part : TrackSegment}
    (hsegment : (cipheredAsset fragmented).plan.segments[0]? = some segment)
    (hpart : segment.part (cipheredTrack fragmented).id = some part) :
    part = ⟨1, 0, 1, 0, 1000⟩ := by
  obtain rfl := Option.some.inj hsegment
  exact (Option.some.inj hpart).symm

set_option maxRecDepth 4000 in
theorem fragmented_frame_uses_own_entries :
    ∃ pending, (cipheredAsset true).prepareNumberedSegment .video 0 1 =
        .ok pending ∧
      ∃ parts : List TrafPart,
        fileTrafs [cipheredFragment] = .ok (parts.map TrafPart.place) ∧
          cipheredSamples = parts.flatMap TrafPart.samples ∧
          SecondDecrypted true pending (parts.flatMap TrafPart.entries) := by
  obtain ⟨pending, hpending⟩ := @exists_ok_of_isOk Error PendingSegment
    ((cipheredAsset true).prepareNumberedSegment .video 0 1) (by decide)
  have hsinf : parseSinf 1 cipheredSinf = .ok cipheredKey := by
    decide
  have hsamples : trackSamples [cipheredFragment] ⟨1, {}, 400, {}⟩ =
      .ok cipheredSamples := by
    decide
  have hread : readFragmentedProtection 1 cipheredKey [] [cipheredFragment]
      cipheredSamples.length =
        some (.ok (some cipheredContext.decryption.protection)) := by
    decide
  have hcut : ([.window 1 2, .shifted (-1000) "overflow"] : List Move).foldlM
      SampleIndex.move (.fromSamples cipheredSamples) =
        .ok (cipheredTrack true).samples := by
    decide
  obtain ⟨parts, hplaces, -, hparts, segment, part, hsegment, hpart,
    hdecrypts⟩ := @fragmented_segments_use_own_entries [cipheredFragment]
      ⟨1, {}, 400, {}⟩ cipheredSamples cipheredSinf [] (List.replicate 400 0)
      cipheredKey cipheredContext _ (cipheredAsset true) .video 0 1
      (cipheredTrack true) pending (by decide) List.length_replicate.ge hsinf
      hsamples hread hcut rfl (by decide) hpending
  obtain rfl := cipheredAsset_part hsegment hpart
  exact ⟨pending, hpending, parts, hplaces, hparts, hdecrypts⟩

/-- The entries of the frames beside their sample tables. -/
def cipheredStbl : List UInt8 :=
  boxesBytes
    [(code 's' 'e' 'n' 'c',
      writeFullBoxFields 0 2 ++ encode 4 2 ++ encode 8 5 ++ encode 2 1 ++
        encode 2 1 ++ encode 4 2 ++ encode 8 6 ++ encode 2 0)]

set_option maxRecDepth 4000 in
theorem tabled_frame_uses_own_entries :
    ∃ pending, (cipheredAsset false).prepareNumberedSegment .video 0 1 =
        .ok pending ∧
      ∃ entries, TableLists cipheredKey cipheredStbl entries ∧
        entries.length = cipheredSamples.length ∧
        SecondDecrypted false pending entries := by
  obtain ⟨pending, hpending⟩ := @exists_ok_of_isOk Error PendingSegment
    ((cipheredAsset false).prepareNumberedSegment .video 0 1) (by decide)
  have hsinf : parseSinf 1 cipheredSinf = .ok cipheredKey := by
    decide
  have hindex : sampleIndex cipheredTables 400 {} =
      .ok (cipheredBase false) := by
    decide
  have hsamples : expandSamples cipheredTables 400 {} =
      .ok cipheredSamples := by
    decide
  have hread : readProtection 1 cipheredKey cipheredStbl
      (cipheredBase false).len =
        some (.ok (some cipheredContext.decryption.protection)) := by
    decide
  have hcut : ([.window 1 2, .shifted (-1000) "overflow"] : List Move).foldlM
      SampleIndex.move (cipheredBase false) =
        .ok (cipheredTrack false).samples := by
    decide
  obtain ⟨entries, htable, hlength, segment, part, hsegment, hpart,
    hdecrypts⟩ := @tabled_segments_use_own_entries cipheredTables 400 1 {}
      (cipheredBase false) cipheredSamples cipheredSinf cipheredStbl
      (List.replicate 400 0) cipheredKey cipheredContext _
      (cipheredAsset false) .video 0 1 (cipheredTrack false) pending
      List.length_replicate.ge hsinf hindex hsamples hread hcut rfl
      (by decide) hpending
  obtain rfl := cipheredAsset_part hsegment hpart
  exact ⟨pending, hpending, entries, htable, hlength, hdecrypts⟩

end Segmentor
