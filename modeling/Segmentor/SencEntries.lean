import Segmentor.SourceProtection

/-!
# The entries of `senc` boxes

What is read from a `senc` is an entry for each sample, and the bytes of the
box are those of its entries.  However many boxes they come from, the entries
of a track are found in its table in the order in which they were listed.
-/

namespace Segmentor

open General

/-! ## Bytes at a place -/

theorem bytesAt_append (head bytes rest : List UInt8) :
    bytesAt (head ++ (bytes ++ rest)) head.length
      (head.length + bytes.length) = some bytes := by
  unfold bytesAt
  rw [if_pos (by simp), stretch_eq_take_drop, List.drop_left,
    Nat.add_sub_cancel_left, List.take_left]

/-- The field behind the version and the flags of a box. -/
theorem bytesAt_fullBox (version flags n : ℕ) (rest : List UInt8) :
    bytesAt (writeFullBoxFields version flags ++ (encode 4 n ++ rest)) 4 8 =
      some (encode 4 n) := by
  have hbytes := bytesAt_append (writeFullBoxFields version flags)
    (encode 4 n) rest
  have hlength : (writeFullBoxFields version flags).length = 4 := by
    simp [writeFullBoxFields]
  rwa [hlength, length_encode] at hbytes

/-! ## Entries -/

namespace Subsample

def bytes (subsample : Subsample) : List UInt8 :=
  encode 2 subsample.clear ++ encode 4 subsample.protectedBytes

structure Fits (subsample : Subsample) : Prop where
  clear_lt : subsample.clear < 2 ^ 16
  protected_lt : subsample.protectedBytes < 2 ^ 32

end Subsample

/-- What a `senc` lists for one sample. -/
structure SencEntry where
  iv : List UInt8
  subsamples : List Subsample
  deriving DecidableEq, Repr

namespace SencEntry

def bytes (withSubsamples : Bool) (entry : SencEntry) : List UInt8 :=
  entry.iv ++
    if withSubsamples then
      encode 2 entry.subsamples.length ++
        entry.subsamples.flatMap Subsample.bytes
    else []

/-- The entry can be listed in such a box. -/
structure Fits (withSubsamples : Bool) (ivSize : ℕ) (entry : SencEntry) :
    Prop where
  iv_length : entry.iv.length = ivSize
  count_lt : entry.subsamples.length < 2 ^ 16
  subsamples_fit : ∀ subsample ∈ entry.subsamples, subsample.Fits
  unlisted : withSubsamples = false → entry.subsamples = []

end SencEntry

theorem readSubsample_eq_ok_iff {subsample : Subsample}
    {unread rest : List UInt8} :
    readSubsample.run unread = .ok (subsample, rest) ↔
      subsample.Fits ∧ unread = subsample.bytes ++ rest := by
  unfold readSubsample Subsample.bytes
  simp only [Reader.run_bind_eq_ok_iff, Reader.u16_eq_ok_iff,
    Reader.u32_eq_ok_iff, Reader.run_pure_eq_ok_iff]
  constructor
  · rintro ⟨clear, _, ⟨hclear, rfl⟩, size, _, ⟨hsize, rfl⟩, rfl, rfl⟩
    exact ⟨⟨hclear, hsize⟩, (List.append_assoc ..).symm⟩
  · rintro ⟨hfits, rfl⟩
    exact ⟨_, _, ⟨hfits.clear_lt, List.append_assoc ..⟩, _, _,
      ⟨hfits.protected_lt, rfl⟩, rfl, rfl⟩

theorem readSubsamples_eq_ok_iff {count : ℕ} {subsamples : List Subsample}
    {unread rest : List UInt8} :
    (readSubsamples count).run unread = .ok (subsamples, rest) ↔
      subsamples.length = count ∧
        (∀ subsample ∈ subsamples, subsample.Fits) ∧
        unread = subsamples.flatMap Subsample.bytes ++ rest := by
  induction count generalizing subsamples unread rest with
  | zero =>
      unfold readSubsamples
      rw [Reader.run_pure_eq_ok_iff]
      constructor
      · rintro ⟨rfl, rfl⟩
        exact ⟨rfl, by simp, rfl⟩
      · rintro ⟨hlength, -, rfl⟩
        obtain rfl := List.eq_nil_of_length_eq_zero hlength
        exact ⟨rfl, rfl⟩
  | succ count ih =>
      unfold readSubsamples
      simp only [Reader.run_bind_eq_ok_iff, readSubsample_eq_ok_iff, ih,
        Reader.run_pure_eq_ok_iff]
      constructor
      · rintro ⟨first, _, ⟨hfirst, rfl⟩, others, _, ⟨hlength, hothers, rfl⟩,
          rfl, rfl⟩
        exact ⟨by rw [List.length_cons, hlength],
          List.forall_mem_cons.mpr ⟨hfirst, hothers⟩,
          by rw [List.flatMap_cons, List.append_assoc]⟩
      · rintro ⟨hlength, hfits, rfl⟩
        cases subsamples with
        | nil => simp at hlength
        | cons first others =>
            obtain ⟨hfirst, hothers⟩ := List.forall_mem_cons.mp hfits
            exact ⟨first, _, ⟨hfirst, by
                rw [List.flatMap_cons, List.append_assoc]⟩, others, _,
              ⟨by simpa using hlength, hothers, rfl⟩, rfl, rfl⟩

namespace AuxBuilder

/-- The tables with the entry at their end. -/
def add (builder : AuxBuilder) (entry : SencEntry) : AuxBuilder :=
  { builder with
    ivs := builder.ivs ++ entry.iv
    subFirst := builder.subFirst ++ [builder.subsamples.length]
    subsamples := builder.subsamples ++ entry.subsamples }

/-- Where each entry's subsamples start fits in 32 bits. -/
def Fits (builder : AuxBuilder) (entries : List SencEntry) : Prop :=
  ∀ start ∈ rowStarts builder.subsamples.length
    (entries.map SencEntry.subsamples), start < 2 ^ 32

theorem subsampleStart_eq_ok_iff {subsamples : List Subsample} {start : ℕ} :
    subsampleStart subsamples = .ok start ↔
      subsamples.length < 2 ^ 32 ∧ start = subsamples.length := by
  unfold subsampleStart
  by_cases hlt : subsamples.length < 2 ^ 32
  · rw [if_pos hlt, Except.ok.injEq, eq_comm]
    exact (and_iff_right hlt).symm
  · rw [if_neg hlt]
    exact ⟨fun h => (by cases h), fun h => absurd h.1 hlt⟩

theorem pushEntry_eq_ok_iff {withSubsamples : Bool}
    {builder pushed : AuxBuilder} {unread rest : List UInt8} :
    (pushEntry withSubsamples builder).run unread = .ok (pushed, rest) ↔
      ∃ entry : SencEntry, entry.Fits withSubsamples builder.ivSize ∧
        builder.subsamples.length < 2 ^ 32 ∧
        pushed = builder.add entry ∧
        unread = entry.bytes withSubsamples ++ rest := by
  unfold pushEntry SencEntry.bytes add
  simp only [Reader.run_bind_eq_ok_iff, Reader.take_eq_ok_iff,
    Reader.run_lift_eq_ok_iff, subsampleStart_eq_ok_iff,
    Reader.run_pure_eq_ok_iff]
  cases withSubsamples with
  | true =>
      simp only [Reader.optional_true_eq_ok_iff, Reader.run_bind_eq_ok_iff,
        Reader.u16_eq_ok_iff, readSubsamples_eq_ok_iff]
      constructor
      · rintro ⟨iv, _, ⟨hiv, rfl⟩, _, _, ⟨⟨hstart, rfl⟩, rfl⟩, _, _,
          ⟨subsamples, ⟨_, _, ⟨hcount, rfl⟩, rfl, hfits, rfl⟩, rfl⟩, rfl, rfl⟩
        exact ⟨⟨iv, subsamples⟩, ⟨hiv, hcount, hfits, by simp⟩, hstart, rfl,
          by simp⟩
      · rintro ⟨entry, hfits, hstart, rfl, rfl⟩
        exact ⟨entry.iv, _, ⟨hfits.iv_length, List.append_assoc ..⟩, _, _,
          ⟨⟨hstart, rfl⟩, rfl⟩, _, _,
          ⟨entry.subsamples, ⟨_, _, ⟨hfits.count_lt, by simp⟩, rfl,
            hfits.subsamples_fit, rfl⟩, rfl⟩, rfl, rfl⟩
  | false =>
      simp only [Reader.optional_false_eq_ok_iff]
      constructor
      · rintro ⟨iv, _, ⟨hiv, rfl⟩, _, _, ⟨⟨hstart, rfl⟩, rfl⟩, _, _,
          ⟨rfl, rfl⟩, rfl, rfl⟩
        exact ⟨⟨iv, []⟩, ⟨hiv, by simp, by simp, fun _ => rfl⟩, hstart, rfl,
          by simp⟩
      · rintro ⟨entry, hfits, hstart, rfl, rfl⟩
        refine ⟨entry.iv, _, ⟨hfits.iv_length, List.append_assoc ..⟩, _, _,
          ⟨⟨hstart, rfl⟩, rfl⟩, _, _, ⟨rfl, rfl⟩, ?_, rfl⟩
        rw [hfits.unlisted rfl]
        rfl

theorem pushEntries_eq_ok_iff {withSubsamples : Bool} {count : ℕ}
    {builder pushed : AuxBuilder} {unread rest : List UInt8} :
    (pushEntries withSubsamples count builder).run unread =
        .ok (pushed, rest) ↔
      ∃ entries : List SencEntry, entries.length = count ∧
        (∀ entry ∈ entries, entry.Fits withSubsamples builder.ivSize) ∧
        builder.Fits entries ∧ pushed = entries.foldl add builder ∧
        unread = entries.flatMap (SencEntry.bytes withSubsamples) ++ rest := by
  induction count generalizing builder unread with
  | zero =>
      unfold pushEntries
      rw [Reader.run_pure_eq_ok_iff]
      constructor
      · rintro ⟨rfl, rfl⟩
        exact ⟨[], rfl, by simp, by simp [Fits, rowStarts], rfl, rfl⟩
      · rintro ⟨entries, hlength, -, -, rfl, rfl⟩
        obtain rfl := List.eq_nil_of_length_eq_zero hlength
        exact ⟨rfl, rfl⟩
  | succ count ih =>
      unfold pushEntries
      simp only [Reader.run_bind_eq_ok_iff, pushEntry_eq_ok_iff, ih]
      constructor
      · rintro ⟨_, _, ⟨first, hfirst, hstart, rfl, rfl⟩, entries, hlength,
          hentries, hstarts, rfl, rfl⟩
        refine ⟨first :: entries, by rw [List.length_cons, hlength],
          List.forall_mem_cons.mpr ⟨hfirst, hentries⟩, ?_, rfl,
          by rw [List.flatMap_cons, List.append_assoc]⟩
        unfold Fits at hstarts ⊢
        rw [List.map_cons, rowStarts, List.forall_mem_cons]
        refine ⟨hstart, ?_⟩
        simpa [add] using hstarts
      · rintro ⟨entries, hlength, hentries, hstarts, rfl, rfl⟩
        cases entries with
        | nil => simp at hlength
        | cons first entries =>
            obtain ⟨hfirst, hothers⟩ := List.forall_mem_cons.mp hentries
            unfold Fits at hstarts
            rw [List.map_cons, rowStarts, List.forall_mem_cons] at hstarts
            refine ⟨_, _, ⟨first, hfirst, hstarts.1, rfl, by
                rw [List.flatMap_cons, List.append_assoc]⟩, entries,
              by simpa using hlength, hothers, ?_, rfl, rfl⟩
            unfold Fits
            simpa [add] using hstarts.2

/-- The tables with all the entries at their ends. -/
def addAll (builder : AuxBuilder) (entries : List SencEntry) : AuxBuilder :=
  { builder with
    samples := builder.samples + entries.length
    ivs := builder.ivs ++ entries.flatMap SencEntry.iv
    subFirst := builder.subFirst ++ rowStarts builder.subsamples.length
      (entries.map SencEntry.subsamples)
    subsamples := builder.subsamples ++
      entries.flatMap SencEntry.subsamples }

theorem foldl_add (builder : AuxBuilder) (entries : List SencEntry) :
    { entries.foldl add builder with
      samples := (entries.foldl add builder).samples + entries.length } =
      builder.addAll entries := by
  unfold addAll
  suffices h : entries.foldl add builder =
      { builder with
        ivs := builder.ivs ++ entries.flatMap SencEntry.iv
        subFirst := builder.subFirst ++ rowStarts builder.subsamples.length
          (entries.map SencEntry.subsamples)
        subsamples := builder.subsamples ++
          entries.flatMap SencEntry.subsamples } by
    rw [h]
  induction entries generalizing builder with
  | nil => simp [rowStarts]
  | cons entry entries ih =>
      rw [List.foldl_cons, ih (builder.add entry)]
      simp [add, rowStarts]

@[simp] theorem addAll_nil (builder : AuxBuilder) :
    builder.addAll [] = builder := by
  simp [addAll, rowStarts]

@[simp] theorem ivSize_addAll (builder : AuxBuilder)
    (entries : List SencEntry) :
    (builder.addAll entries).ivSize = builder.ivSize := rfl

@[simp] theorem limit_addAll (builder : AuxBuilder)
    (entries : List SencEntry) :
    (builder.addAll entries).limit = builder.limit := rfl

theorem addAll_addAll (builder : AuxBuilder)
    (entries others : List SencEntry) :
    (builder.addAll entries).addAll others =
      builder.addAll (entries ++ others) := by
  have hlength : (entries.flatMap SencEntry.subsamples).length =
      (entries.map SencEntry.subsamples).flatten.length := by
    rw [List.flatMap_def]
  simp [addAll, rowStarts_append, hlength, Nat.add_assoc]

end AuxBuilder

/-- The payload of a `senc` that lists these entries. -/
def SencLists (ivSize : ℕ) (payload : List UInt8)
    (entries : List SencEntry) : Prop :=
  entries.length < 2 ^ 32 ∧
    ∃ version flags rest, version < 2 ^ 8 ∧ flags < 2 ^ 24 ∧
      (∀ entry ∈ entries, entry.Fits (hasFlag flags 2) ivSize) ∧
      payload = writeFullBoxFields version flags ++
        (encode 4 entries.length ++
          (entries.flatMap (SencEntry.bytes (hasFlag flags 2)) ++ rest))

theorem SencEntry.Fits.least_le {withSubsamples : Bool} {ivSize : ℕ}
    {entry : SencEntry} (h : entry.Fits withSubsamples ivSize) :
    ivSize + (if withSubsamples then 2 else 0) ≤
      (entry.bytes withSubsamples).length := by
  unfold SencEntry.bytes
  rw [List.length_append, h.iv_length]
  cases withSubsamples <;> simp

theorem least_mul_le {withSubsamples : Bool} {ivSize : ℕ}
    {entries : List SencEntry}
    (h : ∀ entry ∈ entries, entry.Fits withSubsamples ivSize) :
    entries.length * (ivSize + if withSubsamples then 2 else 0) ≤
      (entries.flatMap (SencEntry.bytes withSubsamples)).length := by
  induction entries with
  | nil => simp
  | cons entry entries ih =>
      obtain ⟨hentry, hentries⟩ := List.forall_mem_cons.mp h
      have hfirst := hentry.least_le
      have hrest := ih hentries
      rw [List.length_cons, List.flatMap_cons, List.length_append,
        Nat.succ_mul]
      omega

namespace AuxBuilder

theorem reserve_eq_ok_iff {builder : AuxBuilder} {count : ℕ} {room : Unit} :
    builder.reserve count = .ok room ↔
      builder.samples + count ≤ builder.limit := by
  unfold reserve
  by_cases hroom : builder.limit < builder.samples + count
  · rw [if_pos hroom]
    exact ⟨fun h => (by cases h), fun h => absurd hroom (by omega)⟩
  · rw [if_neg hroom]
    exact ⟨fun _ => by omega, fun _ => rfl⟩

/-- What is read from a `senc` is what it lists, where there is room for
it. -/
theorem pushSenc_eq_ok_iff {trackId expected : ℕ} {payload : List UInt8}
    {what : String} {builder pushed : AuxBuilder} :
    builder.pushSenc trackId payload expected what = .ok pushed ↔
      ∃ entries, SencLists builder.ivSize payload entries ∧
        entries.length = expected ∧
        builder.samples + expected ≤ builder.limit ∧
        builder.Fits entries ∧ pushed = builder.addAll entries := by
  unfold pushSenc readSenc SencLists
  rw [Reader.run'_eq_ok_iff]
  simp only [Reader.run_bind_eq_ok_iff]
  constructor
  · rintro ⟨rest, ⟨version, flags⟩, _, hflags, count, unread, hcount, h⟩
    obtain ⟨hversion, hflagsLt, rfl⟩ :=
      Reader.fullBoxFlags_eq_ok_iff.mp hflags
    obtain ⟨hlt, rfl⟩ := Reader.u32_eq_ok_iff.mp hcount
    dsimp only at h
    by_cases hexpected : count = expected
    · rw [if_neg (not_not.mpr hexpected)] at h
      obtain ⟨_, _, hremaining, h⟩ := Reader.run_bind_eq_ok_iff.mp h
      obtain ⟨rfl, rfl⟩ := Prod.mk.inj (Except.ok.inj hremaining)
      by_cases hshort : unread.length <
        count * (builder.ivSize + if hasFlag flags 2 then 2 else 0)
      · rw [if_pos hshort] at h
        cases h
      · rw [if_neg hshort] at h
        simp only [Reader.run_bind_eq_ok_iff, Reader.run_lift_eq_ok_iff,
          reserve_eq_ok_iff, pushEntries_eq_ok_iff,
          Reader.run_pure_eq_ok_iff] at h
        obtain ⟨_, _, ⟨hroom, rfl⟩, _, _,
          ⟨entries, hlength, hfits, hstarts, rfl, rfl⟩, rfl, rfl⟩ := h
        subst hlength
        subst hexpected
        exact ⟨entries,
          ⟨hlt, version, flags, _, hversion, hflagsLt, hfits, rfl⟩, rfl,
          hroom, hstarts, builder.foldl_add entries⟩
    · rw [if_pos hexpected] at h
      cases h
  · rintro ⟨entries, ⟨hlt, version, flags, rest, hversion, hflags, hfits, rfl⟩,
      rfl, hroom, hstarts, rfl⟩
    refine ⟨rest, (version, flags), _,
      Reader.fullBoxFlags_eq_ok_iff.mpr ⟨hversion, hflags, rfl⟩,
      entries.length, _, Reader.u32_eq_ok_iff.mpr ⟨hlt, rfl⟩, ?_⟩
    dsimp only
    rw [if_neg (not_not.mpr rfl)]
    refine Reader.run_bind_eq_ok_iff.mpr ⟨_, _, rfl, ?_⟩
    have hleast := least_mul_le hfits
    rw [if_neg (by rw [List.length_append]; omega)]
    simp only [Reader.run_bind_eq_ok_iff, Reader.run_lift_eq_ok_iff,
      reserve_eq_ok_iff, pushEntries_eq_ok_iff, Reader.run_pure_eq_ok_iff]
    exact ⟨(), _, ⟨hroom, rfl⟩, _, rest,
      ⟨entries, rfl, hfits, hstarts, rfl, rfl⟩,
      (builder.foldl_add entries).symm, rfl⟩

theorem pushUnlisted_eq_ok_iff {builder pushed : AuxBuilder} {count : ℕ} :
    builder.pushUnlisted count = .ok pushed ↔
      builder.samples + count ≤ builder.limit ∧
        builder.subsamples.length < 2 ^ 32 ∧
        pushed = builder.addAll (List.replicate count ⟨[], []⟩) := by
  have hstarts : ∀ start, rowStarts start
      (List.replicate count ([] : List Subsample)) =
        List.replicate count start := by
    intro start
    induction count with
    | zero => rfl
    | succ count ih => rw [List.replicate_succ, rowStarts, List.length_nil,
        Nat.add_zero, ih, List.replicate_succ]
  have hadded : builder.addAll (List.replicate count ⟨[], []⟩) =
      { builder with
        subFirst := builder.subFirst ++
          List.replicate count builder.subsamples.length
        samples := builder.samples + count } := by
    simp [addAll, hstarts]
  unfold pushUnlisted
  rw [hadded, bind_eq_ok_iff]
  simp only [reserve_eq_ok_iff, bind_eq_ok_iff, subsampleStart_eq_ok_iff,
    Except.ok.injEq]
  constructor
  · rintro ⟨-, hroom, _, ⟨hstart, rfl⟩, rfl⟩
    exact ⟨hroom, hstart, rfl⟩
  · rintro ⟨hroom, hstart, rfl⟩
    exact ⟨(), hroom, _, ⟨hstart, rfl⟩, rfl⟩

/-! ## Looking entries up -/

/-- The tables hold these entries, in their order. -/
structure Lists (builder : AuxBuilder) (entries : List SencEntry) : Prop where
  added : builder = (new builder.ivSize builder.limit).addAll entries
  iv_length : ∀ entry ∈ entries, entry.iv.length = builder.ivSize

theorem lists_new (ivSize limit : ℕ) : (new ivSize limit).Lists [] where
  added := (addAll_nil _).symm
  iv_length := by simp

theorem Lists.addAll {builder : AuxBuilder} {entries others : List SencEntry}
    (h : builder.Lists entries)
    (hothers : ∀ entry ∈ others, entry.iv.length = builder.ivSize) :
    (builder.addAll others).Lists (entries ++ others) where
  added := by
    rw [ivSize_addAll, limit_addAll, ← addAll_addAll, ← h.added]
  iv_length := List.forall_mem_append.mpr ⟨h.iv_length, hothers⟩

/-- The entry at an index is what the table has there. -/
theorem Lists.found {builder : AuxBuilder} {entries : List SencEntry}
    {aux : AuxTable} (h : builder.Lists entries)
    (hfinish : builder.finish = some aux) {index : ℕ} {entry : SencEntry}
    (hentry : entries[index]? = some entry) :
    aux.iv index = (if builder.ivSize = 0 then none else some entry.iv) ∧
      aux.subsamplesOf index = entry.subsamples := by
  obtain ⟨hindex, hget⟩ := List.getElem?_eq_some_iff.mp hentry
  have hivs : builder.ivs = (entries.map SencEntry.iv).flatten := by
    rw [h.added]
    simp [AuxBuilder.addAll, new, List.flatMap_def]
  have hfirst : builder.subFirst =
      rowStarts 0 (entries.map SencEntry.subsamples) := by
    rw [h.added]
    simp [AuxBuilder.addAll, new]
  have hsubsamples : builder.subsamples =
      (entries.map SencEntry.subsamples).flatten := by
    rw [h.added]
    simp [AuxBuilder.addAll, new, List.flatMap_def]
  have hrow : (entries.map SencEntry.iv)[index]? = some entry.iv := by
    rw [List.getElem?_map, hentry]
    rfl
  have hlengths : ∀ iv ∈ entries.map SencEntry.iv,
      iv.length = builder.ivSize := by
    intro iv hiv
    obtain ⟨other, hother, rfl⟩ := List.mem_map.mp hiv
    exact h.iv_length other hother
  have hplace := length_flatten_take hlengths
    (show index ≤ (entries.map SencEntry.iv).length by
      rw [List.length_map]; omega)
  have hwhole := length_flatten_take hlengths (Nat.le_refl _)
  rw [List.take_length, List.length_map] at hwhole
  have hstretch := stretch_flatten hrow
  rw [hplace, h.iv_length entry (List.mem_of_getElem? hentry)] at hstretch
  have hinside : index * builder.ivSize + builder.ivSize ≤
      entries.length * builder.ivSize := by
    rw [← Nat.succ_mul]
    exact Nat.mul_le_mul_right _ hindex
  have hiv : ∀ table : AuxTable, table.ivSize = builder.ivSize →
      table.ivs = builder.ivs →
      table.iv index =
        if builder.ivSize = 0 then none else some entry.iv := by
    intro table hsize hbytes
    unfold AuxTable.iv
    dsimp only
    rw [hsize, hbytes, hivs, hwhole, if_pos hinside, hstretch]
  unfold finish at hfinish
  split at hfinish
  · rename_i hempty
    obtain rfl := Option.some.inj hfinish
    refine ⟨hiv _ rfl rfl, ?_⟩
    rw [hsubsamples, List.isEmpty_iff, List.flatten_eq_nil_iff] at hempty
    have hnil := hempty entry.subsamples
      (List.mem_map_of_mem (List.mem_of_getElem? hentry))
    rw [hnil]
    rfl
  · split at hfinish
    · obtain rfl := Option.some.inj hfinish
      refine ⟨hiv _ rfl rfl, ?_⟩
      unfold AuxTable.subsamplesOf
      dsimp only
      rw [hfirst, hsubsamples, jaggedRow_rowStarts, List.getElem?_map,
        hentry]
      rfl
    · cases hfinish

end AuxBuilder

end Segmentor
