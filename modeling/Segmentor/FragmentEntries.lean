import Segmentor.CounterMode
import Segmentor.FragmentSamples
import Segmentor.SencEntries

/-!
# Entries and the samples they are for

The samples of a fragmented file are read in one walk over its `traf` boxes,
and what their `senc` boxes list in another.  The two walks agree: each `traf`
of the track adds as many entries as samples, so that entry by entry they are
of the same samples.
-/

namespace Segmentor

open General

/-! ## The samples a run adds -/

namespace Run

variable {run : Run} {version flags : ℕ} {firstFlags : Option ℕ}
  {unread rest : List UInt8} {state next : RunState}

/-- From `state`, this many samples have been added. -/
def Appends (count : ℕ) (state next : RunState) : Prop :=
  ∃ added, added.length = count ∧ next.samples = state.samples ++ added

theorem Appends.refl (state : RunState) : Appends 0 state state :=
  ⟨[], rfl, (List.append_nil _).symm⟩

theorem Appends.trans {count more : ℕ} {middle : RunState}
    (h : Appends count state middle) (hnext : Appends more middle next) :
    Appends (count + more) state next := by
  obtain ⟨added, rfl, hadded⟩ := h
  obtain ⟨others, rfl, hothers⟩ := hnext
  exact ⟨added ++ others, List.length_append, by
    rw [hothers, hadded, List.append_assoc]⟩

theorem place_appends {duration size sampleFlags : ℕ}
    {compositionOffset : ℤ} (hkeep : run.keep = true)
    (h : run.place state duration size sampleFlags compositionOffset =
      .ok next) : Appends 1 state next := by
  unfold place at h
  obtain ⟨stop, -, h⟩ := bind_eq_ok_iff.mp h
  obtain ⟨samples, hsamples, h⟩ := bind_eq_ok_iff.mp h
  obtain ⟨decodeTime, -, h⟩ := bind_eq_ok_iff.mp h
  obtain rfl := Except.ok.inj h
  rw [if_pos hkeep] at hsamples
  split_ifs at hsamples
  obtain rfl := Except.ok.inj hsamples
  exact ⟨_, List.length_singleton, rfl⟩

theorem readEntry_appends {index : ℕ} (hkeep : run.keep = true)
    (h : (run.readEntry version flags firstFlags index state).run unread =
      .ok (next, rest)) : Appends 1 state next := by
  unfold readEntry at h
  obtain ⟨duration, afterDuration, -, h⟩ := Reader.run_bind_eq_ok h
  obtain ⟨size, afterSize, -, h⟩ := Reader.run_bind_eq_ok h
  obtain ⟨sampleFlags, afterFlags, -, h⟩ := Reader.run_bind_eq_ok h
  obtain ⟨composition, after, -, h⟩ := Reader.run_bind_eq_ok h
  exact place_appends hkeep (Reader.run_lift_eq_ok h).1

theorem readEntries_appends {count index : ℕ} (hkeep : run.keep = true)
    (h : (run.readEntries version flags firstFlags count index state).run
      unread = .ok (next, rest)) : Appends count state next := by
  induction count generalizing index state unread with
  | zero =>
      obtain ⟨rfl, -⟩ := Prod.mk.inj (Except.ok.inj h)
      exact .refl state
  | succ count ih =>
      unfold readEntries at h
      obtain ⟨middle, afterFirst, hfirst, h⟩ := Reader.run_bind_eq_ok h
      rw [Nat.add_comm]
      exact (readEntry_appends hkeep hfirst).trans (ih h)

/-- A run that is kept adds the samples that it says it has. -/
theorem read_appends {payload : List UInt8} {maxSamples : ℕ}
    (hkeep : run.keep = true)
    (h : run.read payload state maxSamples = .ok next) :
    ∃ count, count < 2 ^ 32 ∧ bytesAt payload 4 8 = some (encode 4 count) ∧
      Appends count state next := by
  unfold read at h
  obtain ⟨rest, hread⟩ := Reader.run'_eq_ok_iff.mp h
  obtain ⟨⟨version, flags⟩, afterFlags, hflags, hread⟩ :=
    Reader.run_bind_eq_ok hread
  obtain ⟨count, afterCount, hcount, hread⟩ := Reader.run_bind_eq_ok hread
  obtain ⟨dataOffset, afterOffset, -, hread⟩ := Reader.run_bind_eq_ok hread
  obtain ⟨offset, afterStart, -, hread⟩ := Reader.run_bind_eq_ok hread
  obtain ⟨firstFlags, afterFirst, -, hbody⟩ := Reader.run_bind_eq_ok hread
  obtain ⟨-, -, rfl⟩ := Reader.fullBoxFlags_eq_ok_iff.mp hflags
  obtain ⟨hlt, rfl⟩ := Reader.u32_eq_ok_iff.mp hcount
  refine ⟨count, hlt, bytesAt_fullBox version flags count afterCount, ?_⟩
  unfold readBody at hbody
  obtain ⟨remaining, unread, -, hbody⟩ := Reader.run_bind_eq_ok hbody
  split at hbody
  · cases hbody
  split at hbody
  · cases hbody
  rw [if_neg fun hskipped => hskipped.1 hkeep] at hbody
  have happends : Appends count { state with offset := offset } next :=
    readEntries_appends hkeep hbody
  exact happends

theorem foldlM_read_appends {truns : List RawBox} {final : RunState}
    {maxSamples total sum : ℕ} (hkeep : run.keep = true)
    (h : truns.foldlM
      (fun state (trun : RawBox) => run.read trun.payload state maxSamples)
      state = .ok final)
    (hcount : truns.foldlM countRun total = .ok sum) :
    ∃ count, total + count = sum ∧ Appends count state final := by
  induction truns generalizing state total with
  | nil =>
      obtain rfl := Except.ok.inj h
      obtain rfl := Except.ok.inj hcount
      exact ⟨0, rfl, .refl state⟩
  | cons trun truns ih =>
      rw [List.foldlM_cons] at h hcount
      obtain ⟨middle, hread, hrest⟩ := bind_eq_ok_iff.mp h
      obtain ⟨counted, hfirst, hothers⟩ := bind_eq_ok_iff.mp hcount
      obtain ⟨count, hlt, hbytes, happends⟩ := read_appends hkeep hread
      unfold countRun at hfirst
      rw [hbytes, okOr_some, ok_bind, okOr_eq_ok_iff, checkedAdd_eq_some_iff,
        decode_encode_of_lt (by omega)] at hfirst
      obtain ⟨more, hmore, hadded⟩ := ih hrest hothers
      exact ⟨count + more, by omega, happends.trans hadded⟩

end Run

/-! ## What a `sinf` can say -/

/-- A vector is 8 or 16 bytes long, or one of 16 bytes is the constant one. -/
structure Sinf.Sound (sinf : Sinf) : Prop where
  size : sinf.ivSize = 0 ∨ sinf.ivSize = 8 ∨ sinf.ivSize = 16
  constant_iff : sinf.constantIv.isSome = true ↔
    sinf.isProtected = true ∧ sinf.ivSize = 0
  constant_length : ∀ iv ∈ sinf.constantIv, iv.length = 16

theorem parseConstantIv_eq_ok {trackId : ℕ} {present : Bool}
    {constantIv : Option (List UInt8)} {unread rest : List UInt8}
    (h : (parseConstantIv trackId present).run unread =
      .ok (constantIv, rest)) :
    constantIv.isSome = present ∧ ∀ iv ∈ constantIv, iv.length = 16 := by
  unfold parseConstantIv at h
  cases present with
  | false =>
      obtain ⟨rfl, -⟩ := Reader.optional_false_eq_ok_iff.mp h
      exact ⟨rfl, by simp⟩
  | true =>
      obtain ⟨iv, hiv, rfl⟩ := Reader.optional_true_eq_ok_iff.mp h
      obtain ⟨size, afterSize, -, hiv⟩ := Reader.run_bind_eq_ok hiv
      obtain ⟨bytes, afterBytes, -, hiv⟩ := Reader.run_bind_eq_ok hiv
      have hpadded := okOr_eq_ok_iff.mp (Reader.run_lift_eq_ok hiv).1
      refine ⟨rfl, fun other hother => ?_⟩
      obtain rfl := Option.mem_some_iff.mp hother
      exact length_of_iv16 hpadded

theorem parseTenc_sound {trackId : ℕ} {originalFormat : List UInt8}
    {scheme : SourceScheme} {sinf : Sinf} {unread rest : List UInt8}
    (h : (parseTenc trackId originalFormat scheme).run unread =
      .ok (sinf, rest)) : sinf.Sound := by
  unfold parseTenc at h
  obtain ⟨version, afterVersion, -, h⟩ := Reader.run_bind_eq_ok h
  obtain ⟨_, afterReserved, -, h⟩ := Reader.run_bind_eq_ok h
  obtain ⟨pattern, afterPattern, -, h⟩ := Reader.run_bind_eq_ok h
  obtain ⟨isProtected, afterProtected, -, h⟩ := Reader.run_bind_eq_ok h
  split at h
  · cases h
  obtain ⟨ivSize, afterSize, -, h⟩ := Reader.run_bind_eq_ok h
  obtain ⟨keyId, afterKey, -, h⟩ := Reader.run_bind_eq_ok h
  split at h
  · cases h
  rename_i hsize
  obtain ⟨constantIv, afterConstant, hconstant, h⟩ := Reader.run_bind_eq_ok h
  obtain ⟨rfl, -⟩ := Prod.mk.inj (Except.ok.inj h)
  obtain ⟨hpresent, hlength⟩ := parseConstantIv_eq_ok hconstant
  exact ⟨not_not.mp hsize, by simp [hpresent], hlength⟩

theorem parseSinf_sound {trackId : ℕ} {bytes : List UInt8} {sinf : Sinf}
    (h : parseSinf trackId bytes = .ok sinf) : sinf.Sound := by
  unfold parseSinf at h
  obtain ⟨frma, -, h⟩ := bind_eq_ok_iff.mp h
  obtain ⟨originalFormat, -, h⟩ := bind_eq_ok_iff.mp h
  obtain ⟨schm, -, h⟩ := bind_eq_ok_iff.mp h
  obtain ⟨schemeType, -, h⟩ := bind_eq_ok_iff.mp h
  obtain ⟨scheme, -, h⟩ := bind_eq_ok_iff.mp h
  obtain ⟨schi, -, h⟩ := bind_eq_ok_iff.mp h
  obtain ⟨tenc, -, h⟩ := bind_eq_ok_iff.mp h
  obtain ⟨rest, hread⟩ := Reader.run'_eq_ok_iff.mp h
  exact parseTenc_sound hread

/-! ## One `traf` -/

/-- The track that a `traf` is of. -/
def trafTrack (traf : RawBox) : Result ℕ := do
  let tfhd ← requiredChild traf.payload (code 't' 'f' 'h' 'd')
  let header ← parseTrackFragmentHeader.run' tfhd.payload
  .ok header.trackId

/-- What is listed for the samples of a `traf` with these boxes. -/
inductive TrafLists (sinf : Sinf) (boxes : List RawBox) :
    List SencEntry → Prop
  | listed {senc : RawBox} {entries : List SencEntry}
      (hsenc : boxes.find? (fun box => box.name == code 's' 'e' 'n' 'c') =
        some senc)
      (h : SencLists sinf.ivSize senc.payload entries) :
      TrafLists sinf boxes entries
  | unlisted {count : ℕ}
      (hsenc : boxes.find? (fun box => box.name == code 's' 'e' 'n' 'c') =
        none)
      (hconstant : sinf.constantIv.isSome = true) :
      TrafLists sinf boxes (List.replicate count ⟨[], []⟩)

/-- What the two walks find in one `traf`. -/
structure TrafPart where
  moofOffset : ℕ
  traf : RawBox
  samples : List Sample
  entries : List SencEntry

/-- The samples are those that the `traf` adds to the track, and the entries
are listed for them. -/
structure TrafPart.Agrees (query : TrackQuery) (sinf : Sinf)
    (part : TrafPart) : Prop where
  samples_read : ∃ state next,
    query.readTraf part.moofOffset state part.traf = .ok next ∧
      next.samples = state.samples ++ part.samples
  entries_listed : trafTrack part.traf = .ok query.trackId →
    ∃ boxes, childBoxes part.traf.payload = .ok boxes ∧
      TrafLists sinf boxes part.entries
  others_empty : trafTrack part.traf ≠ .ok query.trackId → part.entries = []
  length_eq : part.samples.length = part.entries.length

theorem bytesAt_tfhd_iff {payload : List UInt8} {header : TrackFragmentHeader}
    {trackId : ℕ} (htrack : trackId < 2 ^ 32)
    (h : parseTrackFragmentHeader.run' payload = .ok header) :
    bytesAt payload 4 8 = some (encode 4 trackId) ↔
      header.trackId = trackId := by
  obtain ⟨rest, hread⟩ := Reader.run'_eq_ok_iff.mp h
  unfold parseTrackFragmentHeader at hread
  obtain ⟨⟨version, flags⟩, afterFlags, hflags, hread⟩ :=
    Reader.run_bind_eq_ok hread
  obtain ⟨found, afterTrack, hfound, hread⟩ := Reader.run_bind_eq_ok hread
  obtain ⟨base, afterBase, -, hread⟩ := Reader.run_bind_eq_ok hread
  obtain ⟨_, afterIndex, -, hread⟩ := Reader.run_bind_eq_ok hread
  obtain ⟨duration, afterDuration, -, hread⟩ := Reader.run_bind_eq_ok hread
  obtain ⟨size, afterSize, -, hread⟩ := Reader.run_bind_eq_ok hread
  obtain ⟨sampleFlags, after, -, hread⟩ := Reader.run_bind_eq_ok hread
  obtain ⟨rfl, -⟩ := Prod.mk.inj (Except.ok.inj hread)
  obtain ⟨-, -, rfl⟩ := Reader.fullBoxFlags_eq_ok_iff.mp hflags
  obtain ⟨hlt, rfl⟩ := Reader.u32_eq_ok_iff.mp hfound
  rw [bytesAt_fullBox, Option.some.injEq]
  constructor
  · intro hequal
    have hdecoded := congrArg decode hequal
    rwa [decode_encode_of_lt (by omega), decode_encode_of_lt (by omega)]
      at hdecoded
  · exact fun hequal => congrArg (encode 4) hequal

theorem SencLists.iv_length {ivSize : ℕ} {payload : List UInt8}
    {entries : List SencEntry} (h : SencLists ivSize payload entries) :
    ∀ entry ∈ entries, entry.iv.length = ivSize := by
  obtain ⟨-, version, flags, rest, -, -, hfits, -⟩ := h
  exact fun entry hentry => (hfits entry hentry).iv_length

theorem TrafLists.iv_length {sinf : Sinf} {boxes : List RawBox}
    {entries : List SencEntry} (hsinf : sinf.Sound)
    (h : TrafLists sinf boxes entries) :
    ∀ entry ∈ entries, entry.iv.length = sinf.ivSize := by
  cases h with
  | listed hsenc h => exact h.iv_length
  | unlisted hsenc hconstant =>
      intro entry hentry
      obtain ⟨-, rfl⟩ := List.mem_replicate.mp hentry
      exact (hsinf.constant_iff.mp hconstant).2.symm

/-- What the second walk adds for a `traf` of the track. -/
theorem readTrafAux_own {trackId : ℕ} {sinf : Sinf}
    {builder built : AuxBuilder} {traf tfhd : RawBox} {boxes : List RawBox}
    (hsinf : sinf.isProtected = true) (hsize : builder.ivSize = sinf.ivSize)
    (htfhd : requiredChild traf.payload (code 't' 'f' 'h' 'd') = .ok tfhd)
    (hown : bytesAt tfhd.payload 4 8 = some (encode 4 trackId))
    (hboxes : childBoxes traf.payload = .ok boxes)
    (h : readTrafAux trackId sinf builder traf = .ok built) :
    ∃ entries, TrafLists sinf boxes entries ∧
      (boxes.filter fun box => box.name == code 't' 'r' 'u' 'n').foldlM
        countRun 0 = .ok entries.length ∧
      built = builder.addAll entries := by
  unfold readTrafAux at h
  rw [htfhd, ok_bind, if_neg (not_not.mpr hown), hboxes, ok_bind] at h
  obtain ⟨_, -, h⟩ := bind_eq_ok_iff.mp h
  rw [if_neg (not_not.mpr hsinf)] at h
  obtain ⟨samples, hsamples, h⟩ := bind_eq_ok_iff.mp h
  rw [hsamples]
  split at h
  · rename_i senc hsenc
    obtain ⟨entries, hlists, rfl, -, -, rfl⟩ :=
      AuxBuilder.pushSenc_eq_ok_iff.mp h
    exact ⟨entries, .listed hsenc (hsize ▸ hlists), rfl, rfl⟩
  · rename_i hsenc
    split at h
    · cases h
    split at h
    · rename_i hconstant
      obtain ⟨-, -, rfl⟩ := AuxBuilder.pushUnlisted_eq_ok_iff.mp h
      exact ⟨_, .unlisted hsenc hconstant,
        congrArg Except.ok List.length_replicate.symm, rfl⟩
    · cases h

/-- The two walks agree on a `traf`. -/
theorem readTraf_agrees {query : TrackQuery} {sinf : Sinf} {moofOffset : ℕ}
    {traf : RawBox} {state next : TrackState} {builder built : AuxBuilder}
    (htrack : query.trackId < 2 ^ 32) (hsinf : sinf.isProtected = true)
    (hsize : builder.ivSize = sinf.ivSize)
    (h : query.readTraf moofOffset state traf = .ok next)
    (haux : readTrafAux query.trackId sinf builder traf = .ok built) :
    ∃ samples entries,
      TrafPart.Agrees query sinf ⟨moofOffset, traf, samples, entries⟩ ∧
        next.samples = state.samples ++ samples ∧
        built = builder.addAll entries := by
  have hread := h
  unfold TrackQuery.readTraf at hread
  obtain ⟨tfhd, htfhd, hread⟩ := bind_eq_ok_iff.mp hread
  obtain ⟨header, hheader, hread⟩ := bind_eq_ok_iff.mp hread
  dsimp only at hread
  obtain ⟨tfdt, -, hread⟩ := bind_eq_ok_iff.mp hread
  obtain ⟨decodeTime, -, hread⟩ := bind_eq_ok_iff.mp hread
  obtain ⟨boxes, hboxes, hread⟩ := bind_eq_ok_iff.mp hread
  obtain ⟨final, hfinal, hread⟩ := bind_eq_ok_iff.mp hread
  obtain rfl := Except.ok.inj hread
  have hof : trafTrack traf = .ok header.trackId := by
    unfold trafTrack
    rw [htfhd, ok_bind, hheader, ok_bind]
  have hwanted := bytesAt_tfhd_iff htrack hheader
  by_cases hown : header.trackId = query.trackId
  · obtain ⟨entries, hlists, hcount, rfl⟩ := readTrafAux_own hsinf hsize htfhd
      (hwanted.mpr hown) hboxes haux
    obtain ⟨count, hsum, samples, hlength, hsamples⟩ :=
      Run.foldlM_read_appends (beq_iff_eq.mpr hown) hfinal hcount
    exact ⟨samples, entries,
      ⟨⟨state, _, h, hsamples⟩, fun _ => ⟨boxes, hboxes, hlists⟩,
        fun hother => absurd (hof.trans (congrArg _ hown)) hother,
        by dsimp only; omega⟩, hsamples, rfl⟩
  · have hunkept := (Run.foldlM_read_advances hfinal).unkept (by
      intro hkeep
      exact hown (beq_iff_eq.mp hkeep))
    have hbuilt : built = builder := by
      unfold readTrafAux at haux
      rw [htfhd, ok_bind, if_pos fun hbytes => hown (hwanted.mp hbytes)]
        at haux
      exact (Except.ok.inj haux).symm
    have hsamples : final.samples = state.samples ++ [] := by
      rw [hunkept, List.append_nil]
    exact ⟨[], [], ⟨⟨state, _, h, hsamples⟩,
      fun hsame => absurd (Except.ok.inj (hof.symm.trans hsame)) hown,
      fun _ => rfl, rfl⟩, hsamples, by rw [AuxBuilder.addAll_nil, hbuilt]⟩

/-! ## The whole file -/

/-- The `traf` boxes of a fragment, with where their `moof` is. -/
def Fragment.trafs (fragment : Fragment) : Result (List (ℕ × RawBox)) := do
  let moof ← boxPayload fragment.bytes 0
  let children ← childBoxes moof.payload
  .ok ((children.filter fun child => child.name == code 't' 'r' 'a' 'f').map
    fun traf => (fragment.offset, traf))

/-- The `traf` boxes of a file, in its order. -/
def fileTrafs : List Fragment → Result (List (ℕ × RawBox))
  | [] => .ok []
  | fragment :: fragments => do
      let trafs ← fragment.trafs
      let others ← fileTrafs fragments
      .ok (trafs ++ others)

namespace TrafPart

def place (part : TrafPart) : ℕ × RawBox :=
  (part.moofOffset, part.traf)

/-- Where two walks have got to once they have found these parts. -/
structure Found (query : TrackQuery) (sinf : Sinf) (parts : List TrafPart)
    (samples added : List Sample) (builder built : AuxBuilder) : Prop where
  agrees : ∀ part ∈ parts, part.Agrees query sinf
  samples_eq : added = samples ++ parts.flatMap TrafPart.samples
  built_eq : built = builder.addAll (parts.flatMap TrafPart.entries)

variable {query : TrackQuery} {sinf : Sinf}

theorem Found.nil (samples : List Sample) (builder : AuxBuilder) :
    Found query sinf [] samples samples builder builder where
  agrees := by simp
  samples_eq := (List.append_nil _).symm
  built_eq := (AuxBuilder.addAll_nil _).symm

theorem Found.append {parts others : List TrafPart}
    {samples added more : List Sample} {builder built final : AuxBuilder}
    (h : Found query sinf parts samples added builder built)
    (hrest : Found query sinf others added more built final) :
    Found query sinf (parts ++ others) samples more builder final where
  agrees := List.forall_mem_append.mpr ⟨h.agrees, hrest.agrees⟩
  samples_eq := by
    rw [hrest.samples_eq, h.samples_eq, List.flatMap_append,
      List.append_assoc]
  built_eq := by
    rw [hrest.built_eq, h.built_eq, AuxBuilder.addAll_addAll,
      List.flatMap_append]

theorem Found.ivSize_eq {parts : List TrafPart} {samples added : List Sample}
    {builder built : AuxBuilder}
    (h : Found query sinf parts samples added builder built) :
    built.ivSize = builder.ivSize := by
  rw [h.built_eq, AuxBuilder.ivSize_addAll]

end TrafPart

section Walks

variable {query : TrackQuery} {sinf : Sinf}

theorem foldlM_readTraf_agrees (htrack : query.trackId < 2 ^ 32)
    (hsinf : sinf.isProtected = true) {moofOffset : ℕ} {trafs : List RawBox}
    {state next : TrackState} {builder built : AuxBuilder}
    (hsize : builder.ivSize = sinf.ivSize)
    (h : trafs.foldlM (query.readTraf moofOffset) state = .ok next)
    (haux : trafs.foldlM (readTrafAux query.trackId sinf) builder =
      .ok built) :
    ∃ parts : List TrafPart,
      parts.map TrafPart.place = trafs.map (fun traf => (moofOffset, traf)) ∧
        TrafPart.Found query sinf parts state.samples next.samples builder
          built := by
  induction trafs generalizing state builder with
  | nil =>
      obtain rfl := Except.ok.inj h
      obtain rfl := Except.ok.inj haux
      exact ⟨[], rfl, .nil _ _⟩
  | cons traf trafs ih =>
      rw [List.foldlM_cons] at h haux
      obtain ⟨middle, hread, hrest⟩ := bind_eq_ok_iff.mp h
      obtain ⟨listed, hlisted, hothers⟩ := bind_eq_ok_iff.mp haux
      obtain ⟨samples, entries, hagrees, hsamples, rfl⟩ :=
        readTraf_agrees htrack hsinf hsize hread hlisted
      have hfirst : TrafPart.Found query sinf
          [⟨moofOffset, traf, samples, entries⟩] state.samples middle.samples
          builder (builder.addAll entries) :=
        ⟨List.forall_mem_singleton.mpr hagrees, by simpa using hsamples,
          by simp⟩
      obtain ⟨parts, hplaces, hfound⟩ :=
        ih (hfirst.ivSize_eq.trans hsize) hrest hothers
      refine ⟨⟨moofOffset, traf, samples, entries⟩ :: parts, ?_,
        hfirst.append hfound⟩
      rw [List.map_cons, List.map_cons, hplaces]
      rfl

theorem foldlM_readFragment_agrees (htrack : query.trackId < 2 ^ 32)
    (hsinf : sinf.isProtected = true) {fragments : List Fragment}
    {state next : TrackState} {builder built : AuxBuilder}
    (hsize : builder.ivSize = sinf.ivSize)
    (h : fragments.foldlM query.readFragment state = .ok next)
    (haux : fragments.foldlM (readFragmentAux query.trackId sinf) builder =
      .ok built) :
    ∃ parts : List TrafPart,
      fileTrafs fragments = .ok (parts.map TrafPart.place) ∧
        TrafPart.Found query sinf parts state.samples next.samples builder
          built := by
  induction fragments generalizing state builder with
  | nil =>
      obtain rfl := Except.ok.inj h
      obtain rfl := Except.ok.inj haux
      exact ⟨[], rfl, .nil _ _⟩
  | cons fragment fragments ih =>
      rw [List.foldlM_cons] at h haux
      obtain ⟨middle, hread, hrest⟩ := bind_eq_ok_iff.mp h
      obtain ⟨listed, hlisted, hothers⟩ := bind_eq_ok_iff.mp haux
      unfold TrackQuery.readFragment at hread
      unfold readFragmentAux at hlisted
      obtain ⟨moof, hmoof, hread⟩ := bind_eq_ok_iff.mp hread
      split at hread
      · cases hread
      obtain ⟨children, hchildren, hread⟩ := bind_eq_ok_iff.mp hread
      rw [hmoof, ok_bind, hchildren, ok_bind] at hlisted
      obtain ⟨parts, hplaces, hfound⟩ :=
        foldlM_readTraf_agrees htrack hsinf hsize hread hlisted
      obtain ⟨others, htrafs, hmore⟩ :=
        ih (hfound.ivSize_eq.trans hsize) hrest hothers
      refine ⟨parts ++ others, ?_, hfound.append hmore⟩
      unfold fileTrafs Fragment.trafs
      rw [hmoof, ok_bind, hchildren, ok_bind, ok_bind, htrafs, ok_bind,
        List.map_append, hplaces]

/-- A protected track of a fragmented file has an entry for every sample, and
each `traf` of the file lists the entries of the samples that it adds. -/
theorem readFragmentedAux_agrees {fragments : List Fragment}
    {stbl : List UInt8} {samples : List Sample} {builder : AuxBuilder}
    (htrack : query.trackId < 2 ^ 32) (hsound : sinf.Sound)
    (h : trackSamples fragments query = .ok samples)
    (haux : readFragmentedAux query.trackId sinf stbl fragments
      samples.length = .ok (some builder)) :
    builder.ivSize = sinf.ivSize ∧ sinf.isProtected = true ∧
      ∃ parts : List TrafPart,
        fileTrafs fragments = .ok (parts.map TrafPart.place) ∧
          (∀ part ∈ parts, part.Agrees query sinf) ∧
          samples = parts.flatMap TrafPart.samples ∧
          builder.Lists (parts.flatMap TrafPart.entries) := by
  unfold trackSamples at h
  obtain ⟨final, hfinal, h⟩ := bind_eq_ok_iff.mp h
  obtain rfl := Except.ok.inj h
  unfold readFragmentedAux at haux
  obtain ⟨boxes, -, haux⟩ := bind_eq_ok_iff.mp haux
  obtain ⟨_, -, haux⟩ := bind_eq_ok_iff.mp haux
  obtain ⟨built, hbuilt, haux⟩ := bind_eq_ok_iff.mp haux
  split at haux
  · cases haux
  rename_i hprotected
  have hsinf := not_not.mp hprotected
  split at haux
  · cases haux
  obtain rfl := Option.some.inj (Except.ok.inj haux)
  obtain ⟨parts, hplaces, hfound⟩ := foldlM_readFragment_agrees htrack hsinf
    (by rfl) hfinal hbuilt
  have hsize : built.ivSize = sinf.ivSize := hfound.ivSize_eq
  have hlengths : ∀ entry ∈ parts.flatMap TrafPart.entries,
      entry.iv.length = sinf.ivSize := by
    intro entry hentry
    obtain ⟨part, hpart, hmem⟩ := List.mem_flatMap.mp hentry
    have hagrees := hfound.agrees part hpart
    by_cases hown : trafTrack part.traf = .ok query.trackId
    · obtain ⟨boxes, -, hlists⟩ := hagrees.entries_listed hown
      exact hlists.iv_length hsound entry hmem
    · rw [hagrees.others_empty hown] at hmem
      cases hmem
  have hlists := AuxBuilder.Lists.addAll
    (AuxBuilder.lists_new sinf.ivSize final.samples.length) hlengths
  rw [← hfound.built_eq, List.nil_append] at hlists
  exact ⟨hsize, hsinf, parts, hplaces, hfound.agrees,
    by simpa using hfound.samples_eq, hlists⟩

end Walks

end Segmentor
