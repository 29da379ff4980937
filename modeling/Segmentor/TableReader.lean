import Segmentor.BoxRoundTrip
import Segmentor.SampleTables

/-!
# Reading the sample tables

The tables of `stbl`, from the bytes of its boxes.  Every count is checked
against the box that holds it before the entries are read, and every field is
read from a word, so it is within the word's bounds.
-/

namespace Segmentor

open General

namespace TableReader

/-! ## Entries -/

/-- The entries of a given width that the bytes are made of; what is left of
the bytes is dropped. -/
def chunksOf (width : ℕ) (bytes : List UInt8) : List (List UInt8) :=
  (List.range (bytes.length / width)).map fun i =>
    (bytes.drop (i * width)).take width

/-- Entries of one number each. -/
def words (width : ℕ) (bytes : List UInt8) : List ℕ :=
  (chunksOf width bytes).map decode

/-- Entries of two words of four bytes, or their first two. -/
def pairs (width : ℕ) (bytes : List UInt8) : List (ℕ × ℕ) :=
  (chunksOf width bytes).map fun entry =>
    (decode (entry.take 4), decode ((entry.drop 4).take 4))

/-- The entries of a table behind its version and flags. -/
def tableEntries (entrySize : ℕ) : Reader (List UInt8) := do
  let _ ← Reader.fullBox
  Reader.entries entrySize

/-! ## The tables -/

/-- `stts`: counts and durations. -/
def parseRuns (payload : List UInt8) : Result (List (ℕ × ℕ)) :=
  ((tableEntries 8).run' payload).map (pairs 8)

/-- The offset of a `ctts` entry: unsigned in version 0, signed in others. -/
def compositionOffset (version offset : ℕ) : Result ℤ :=
  if version = 0 then
    if offset < 2 ^ 31 then .ok offset
    else .error (invalidMedia "ctts version 0 offset is out of range")
  else .ok (ofWord 32 offset)

def readCtts : Reader (ℕ × List UInt8) := do
  let version ← Reader.fullBox
  let bytes ← Reader.entries 8
  return (version, bytes)

/-- `ctts`: counts and composition offsets. -/
def parseCtts (payload : List UInt8) : Result (List (ℕ × ℤ)) := do
  let (version, bytes) ← readCtts.run' payload
  (pairs 8 bytes).mapM fun entry => do
    let offset ← compositionOffset version entry.2
    .ok (entry.1, offset)

/-- `stss`: the numbers of the random-access samples. -/
def parseStss (payload : List UInt8) : Result (List ℕ) :=
  ((tableEntries 4).run' payload).map (words 4)

/-- `stsc`: first chunks and samples per chunk; the third word of an entry is
not needed. -/
def parseStsc (payload : List UInt8) : Result (List (ℕ × ℕ)) :=
  ((tableEntries 12).run' payload).map (pairs 12)

def readStsz : Reader SampleSizes := do
  let _ ← Reader.fullBox
  let size ← Reader.u32
  let count ← Reader.u32
  if size ≠ 0 then return .constant size count
  else
    let remaining ← Reader.remaining
    if remaining < count * 4 then
      Reader.fail (invalidMedia "stsz entry count exceeds its box")
    else
      let bytes ← Reader.take (count * 4)
      return .table (words 4 bytes)

def parseStsz (payload : List UInt8) : Result SampleSizes :=
  readStsz.run' payload

/-- The two sizes of a byte, the high one first. -/
def nibbles (byte : UInt8) : List ℕ :=
  [byte.toNat / 16, byte.toNat % 16]

/-- The sizes in the compact form, of 4, 8 or 16 bits. -/
def compactSizes (fieldBits count : ℕ) (bytes : List UInt8) : List ℕ :=
  if fieldBits = 4 then (bytes.flatMap nibbles).take count
  else if fieldBits = 8 then bytes.map UInt8.toNat
  else words 2 bytes

def readStz2 : Reader SampleSizes := do
  let _ ← Reader.fullBox
  Reader.skip 3
  let fieldBits ← Reader.u8
  let count ← Reader.u32
  if ¬ (fieldBits = 4 ∨ fieldBits = 8 ∨ fieldBits = 16) then
    Reader.fail (invalidMedia "stz2 field size must be 4, 8, or 16 bits")
  else
    -- Rounded up to whole bytes.
    let needed := (count * fieldBits + 7) / 8
    let remaining ← Reader.remaining
    if remaining < needed then
      Reader.fail (invalidMedia "stz2 entry count exceeds its box")
    else
      let bytes ← Reader.take needed
      return .table (compactSizes fieldBits count bytes)

/-- `stz2`: the compact form. -/
def parseStz2 (payload : List UInt8) : Result SampleSizes :=
  readStz2.run' payload

/-- `stco`, or `co64` with wide offsets. -/
def parseChunkOffsets (payload : List UInt8) (wide : Bool) :
    Result (List ℕ) :=
  let width := if wide then 8 else 4
  ((tableEntries width).run' payload).map (words width)

/-! ## `stbl` -/

/-- The tables as they are read. -/
structure RawTables where
  timeToSample : List (ℕ × ℕ)
  composition : Option (List (ℕ × ℤ))
  sync : Option (List ℕ)
  sampleToChunk : List (ℕ × ℕ)
  sizes : SampleSizes
  chunkOffsets : List ℕ

def readChunkOffsets (stbl : List UInt8) : Result (List ℕ) := do
  let stco ← optionalChild stbl (code 's' 't' 'c' 'o')
  match stco with
  | some stco => parseChunkOffsets stco.payload false
  | none => do
      let co64 ← optionalChild stbl (code 'c' 'o' '6' '4')
      match co64 with
      | some co64 => parseChunkOffsets co64.payload true
      | none => .error (invalidMedia "missing stco/co64 chunk offsets")

def readSizes (stbl : List UInt8) : Result SampleSizes := do
  let stsz ← optionalChild stbl (code 's' 't' 's' 'z')
  match stsz with
  | some stsz => parseStsz stsz.payload
  | none => do
      let stz2 ← optionalChild stbl (code 's' 't' 'z' '2')
      match stz2 with
      | some stz2 => parseStz2 stz2.payload
      | none => .error (invalidMedia "missing stsz/stz2 sample sizes")

/-- A table that need not be there. -/
def optionalTable {α : Type} (stbl name : List UInt8)
    (parse : List UInt8 → Result α) : Result (Option α) := do
  let table ← optionalChild stbl name
  table.mapM fun table => parse table.payload

/-- Every table of `stbl` that packaging needs. -/
def readTables (stbl : List UInt8) : Result RawTables := do
  let chunkOffsets ← readChunkOffsets stbl
  let sizes ← readSizes stbl
  let stts ← requiredChild stbl (code 's' 't' 't' 's')
  let timeToSample ← parseRuns stts.payload
  let composition ← optionalTable stbl (code 'c' 't' 't' 's') parseCtts
  let sync ← optionalTable stbl (code 's' 't' 's' 's') parseStss
  let stsc ← requiredChild stbl (code 's' 't' 's' 'c')
  let sampleToChunk ← parseStsc stsc.payload
  .ok
    { timeToSample := timeToSample
      composition := composition
      sync := sync
      sampleToChunk := sampleToChunk
      sizes := sizes
      chunkOffsets := chunkOffsets }

/-! ## Bounds -/

theorem length_words (width : ℕ) (bytes : List UInt8) :
    (words width bytes).length = bytes.length / width := by
  simp [words, chunksOf]

theorem decode_take_lt_of_le (bytes : List UInt8) (width : ℕ) :
    decode (bytes.take width) < 256 ^ width :=
  (decode_lt _).trans_le
    (Nat.pow_le_pow_right (by decide) (List.length_take_le width bytes))

theorem words_lt {width n : ℕ} {bytes : List UInt8}
    (h : n ∈ words width bytes) : n < 256 ^ width := by
  obtain ⟨entry, hentry, rfl⟩ := List.mem_map.mp h
  obtain ⟨i, -, rfl⟩ := List.mem_map.mp hentry
  exact decode_take_lt_of_le _ width

theorem pairs_lt {width : ℕ} {bytes : List UInt8} {entry : ℕ × ℕ}
    (h : entry ∈ pairs width bytes) : entry.2 < 2 ^ 32 := by
  obtain ⟨chunk, -, rfl⟩ := List.mem_map.mp h
  exact decode_take_lt_of_le _ 4

/-- The sizes that can be read. -/
structure Sized (sizes : SampleSizes) : Prop where
  count_lt : sizes.count < 2 ^ 32
  sizes_lt : ∀ size ∈ sizes.expand, size < 2 ^ 32

theorem parseStsz_sized {payload : List UInt8} {sizes : SampleSizes}
    (h : parseStsz payload = .ok sizes) : Sized sizes := by
  obtain ⟨rest, hrun⟩ := Reader.run'_eq_ok_iff.mp h
  unfold readStsz at hrun
  obtain ⟨_, _, -, hrun⟩ := Reader.run_bind_eq_ok hrun
  obtain ⟨size, _, hsize, hrun⟩ := Reader.run_bind_eq_ok hrun
  obtain ⟨count, _, hcount, hrun⟩ := Reader.run_bind_eq_ok hrun
  have hsizeLt := (Reader.u32_eq_ok_iff.mp hsize).1
  have hcountLt := (Reader.u32_eq_ok_iff.mp hcount).1
  split at hrun
  · obtain ⟨rfl, -⟩ := Reader.run_pure_eq_ok_iff.mp hrun
    refine ⟨hcountLt, fun found hfound => ?_⟩
    obtain rfl := List.eq_of_mem_replicate hfound
    exact hsizeLt
  · obtain ⟨remaining, _, -, hrun⟩ := Reader.run_bind_eq_ok hrun
    split at hrun
    · cases hrun
    · obtain ⟨bytes, _, hbytes, hrun⟩ := Reader.run_bind_eq_ok hrun
      obtain ⟨rfl, -⟩ := Reader.run_pure_eq_ok_iff.mp hrun
      obtain ⟨hlength, -⟩ := Reader.take_eq_ok_iff.mp hbytes
      refine ⟨?_, fun found hfound => words_lt hfound⟩
      have hcount : (words 4 bytes).length = count := by
        rw [length_words, hlength, Nat.mul_div_cancel _ (by decide)]
      exact hcount.trans_lt hcountLt

theorem length_flatMap_nibbles (bytes : List UInt8) :
    (bytes.flatMap nibbles).length = 2 * bytes.length := by
  induction bytes with
  | nil => rfl
  | cons byte bytes ih =>
      rw [List.flatMap_cons, List.length_append, ih, List.length_cons]
      unfold nibbles
      simp only [List.length_cons, List.length_nil]
      omega

theorem compactSizes_lt {fieldBits count size : ℕ} {bytes : List UInt8}
    (h : size ∈ compactSizes fieldBits count bytes) : size < 2 ^ 32 := by
  unfold compactSizes at h
  split_ifs at h
  · obtain ⟨byte, -, hbyte⟩ := List.mem_flatMap.mp (List.mem_of_mem_take h)
    have hlt := byte.toNat_lt
    unfold nibbles at hbyte
    simp only [List.mem_cons, List.not_mem_nil, or_false] at hbyte
    omega
  · obtain ⟨byte, -, rfl⟩ := List.mem_map.mp h
    have hlt := byte.toNat_lt
    omega
  · have hlt := words_lt h
    omega

theorem length_compactSizes {fieldBits count : ℕ} {bytes : List UInt8}
    (hbits : fieldBits = 4 ∨ fieldBits = 8 ∨ fieldBits = 16)
    (hlength : bytes.length = (count * fieldBits + 7) / 8) :
    (compactSizes fieldBits count bytes).length = count := by
  unfold compactSizes
  rcases hbits with rfl | rfl | rfl
  · rw [if_pos rfl, List.length_take, length_flatMap_nibbles, hlength]
    omega
  · rw [if_neg (by decide), if_pos rfl, List.length_map, hlength]
    omega
  · rw [if_neg (by decide), if_neg (by decide), length_words, hlength]
    omega

theorem parseStz2_sized {payload : List UInt8} {sizes : SampleSizes}
    (h : parseStz2 payload = .ok sizes) : Sized sizes := by
  obtain ⟨rest, hrun⟩ := Reader.run'_eq_ok_iff.mp h
  unfold readStz2 at hrun
  obtain ⟨_, _, -, hrun⟩ := Reader.run_bind_eq_ok hrun
  obtain ⟨_, _, -, hrun⟩ := Reader.run_bind_eq_ok hrun
  obtain ⟨fieldBits, _, -, hrun⟩ := Reader.run_bind_eq_ok hrun
  obtain ⟨count, _, hcount, hrun⟩ := Reader.run_bind_eq_ok hrun
  have hcountLt := (Reader.u32_eq_ok_iff.mp hcount).1
  split at hrun
  · cases hrun
  rename_i hbits
  dsimp only at hrun
  obtain ⟨remaining, _, -, hrun⟩ := Reader.run_bind_eq_ok hrun
  split at hrun
  · cases hrun
  obtain ⟨bytes, _, hbytes, hrun⟩ := Reader.run_bind_eq_ok hrun
  obtain ⟨rfl, -⟩ := Reader.run_pure_eq_ok_iff.mp hrun
  obtain ⟨hlength, -⟩ := Reader.take_eq_ok_iff.mp hbytes
  have hsizes := length_compactSizes (not_not.mp hbits) hlength
  exact ⟨hsizes.trans_lt hcountLt, fun found hfound => compactSizes_lt hfound⟩

theorem readSizes_sized {stbl : List UInt8} {sizes : SampleSizes}
    (h : readSizes stbl = .ok sizes) : Sized sizes := by
  unfold readSizes at h
  obtain ⟨stsz, -, h⟩ := bind_eq_ok_iff.mp h
  cases stsz with
  | some stsz => exact parseStsz_sized h
  | none =>
      obtain ⟨stz2, -, h⟩ := bind_eq_ok_iff.mp h
      cases stz2 with
      | some stz2 => exact parseStz2_sized h
      | none => cases h

theorem parseRuns_lt {payload : List UInt8} {runs : List (ℕ × ℕ)}
    (h : parseRuns payload = .ok runs) : ∀ run ∈ runs, run.2 < 2 ^ 32 := by
  unfold parseRuns at h
  cases hread : (tableEntries 8).run' payload with
  | error e => rw [hread] at h; cases h
  | ok bytes =>
      rw [hread] at h
      obtain rfl := Except.ok.inj h
      exact fun run hrun => pairs_lt hrun

theorem compositionOffset_range {version offset : ℕ} {found : ℤ}
    (hoffset : offset < 2 ^ 32)
    (h : compositionOffset version offset = .ok found) :
    -2 ^ 31 ≤ found ∧ found < 2 ^ 31 := by
  unfold compositionOffset at h
  split_ifs at h with hversion hlt
  · obtain rfl := Except.ok.inj h
    omega
  · obtain rfl := Except.ok.inj h
    unfold ofWord
    split_ifs
    · omega
    · omega

theorem parseCtts_range {payload : List UInt8} {runs : List (ℕ × ℤ)}
    (h : parseCtts payload = .ok runs) :
    ∀ run ∈ runs, -2 ^ 31 ≤ run.2 ∧ run.2 < 2 ^ 31 := by
  unfold parseCtts at h
  obtain ⟨⟨version, bytes⟩, -, h⟩ := bind_eq_ok_iff.mp h
  intro run hrun
  obtain ⟨entry, hentry, hoffset⟩ := exists_of_mem_mapM h hrun
  obtain ⟨offset, hread, hsame⟩ := bind_eq_ok_iff.mp hoffset
  obtain rfl := Except.ok.inj hsame
  exact compositionOffset_range (pairs_lt hentry) hread

/-- Every field of the tables is within the bounds of its word. -/
structure RawTables.Bounded (tables : RawTables) : Prop where
  sized : Sized tables.sizes
  deltas_lt : ∀ run ∈ tables.timeToSample, run.2 < 2 ^ 32
  composition_range : ∀ runs, tables.composition = some runs →
    ∀ run ∈ runs, -2 ^ 31 ≤ run.2 ∧ run.2 < 2 ^ 31

theorem readTables_bounded {stbl : List UInt8} {tables : RawTables}
    (h : readTables stbl = .ok tables) : tables.Bounded := by
  unfold readTables at h
  obtain ⟨chunkOffsets, -, h⟩ := bind_eq_ok_iff.mp h
  obtain ⟨sizes, hsizes, h⟩ := bind_eq_ok_iff.mp h
  obtain ⟨stts, -, h⟩ := bind_eq_ok_iff.mp h
  obtain ⟨timeToSample, htimes, h⟩ := bind_eq_ok_iff.mp h
  obtain ⟨composition, hcomposition, h⟩ := bind_eq_ok_iff.mp h
  obtain ⟨sync, -, h⟩ := bind_eq_ok_iff.mp h
  obtain ⟨stsc, -, h⟩ := bind_eq_ok_iff.mp h
  obtain ⟨sampleToChunk, -, h⟩ := bind_eq_ok_iff.mp h
  obtain rfl := Except.ok.inj h
  refine ⟨readSizes_sized hsizes, parseRuns_lt htimes, fun runs hruns => ?_⟩
  unfold optionalTable at hcomposition
  obtain ⟨table, -, hcomposition⟩ := bind_eq_ok_iff.mp hcomposition
  obtain ⟨box, -, hparse⟩ := exists_of_mem_optionMapM hcomposition runs hruns
  exact parseCtts_range hparse

/-- The tables of `stbl`. -/
def parseSampleTables (stbl : List UInt8) : Result SampleTables :=
  match h : readTables stbl with
  | .error error => .error error
  | .ok tables =>
      .ok
        { timeToSample := tables.timeToSample
          composition := tables.composition
          sync := tables.sync
          sampleToChunk := tables.sampleToChunk
          sizes := tables.sizes
          chunkOffsets := tables.chunkOffsets
          count_lt := (readTables_bounded h).sized.count_lt
          sizes_lt := (readTables_bounded h).sized.sizes_lt
          deltas_lt := (readTables_bounded h).deltas_lt
          composition_range := (readTables_bounded h).composition_range }

end TableReader

end Segmentor
