import Segmentor.Error
import Segmentor.General.PartitionPoint

/-!
# The compact sample index

A track's samples are kept as compact tables: a size for each sample, and run
tables for byte offsets, decode times and composition offsets.  The parallel
vectors of the source are lists of rows here.  A `SampleIndex` is a window
over the tables with a decode-time shift.  Looking up outside a table, which
ends the program in the source, reads a row of zeros here; lookups inside a
valid index never do.
-/

namespace Segmentor

open General

structure Sample where
  offset : ℕ
  size : ℕ
  decodeTime : ℕ
  duration : ℕ
  compositionOffset : ℤ
  isSync : Bool
  deriving DecidableEq, Repr

/-- A chunk that holds samples: its first sample and its byte offset. -/
structure ChunkRow where
  first : ℕ
  offset : ℕ
  deriving DecidableEq, Repr, Inhabited

/-- A timing run: its first sample, first decode time and sample duration. -/
structure TimeRow where
  first : ℕ
  start : ℕ
  duration : ℕ
  deriving DecidableEq, Repr, Inhabited

structure CompositionRow where
  first : ℕ
  offset : ℤ
  deriving DecidableEq, Repr, Inhabited

structure Tables where
  sizes : List ℕ
  chunks : List ChunkRow
  times : List TimeRow
  /-- Empty when every offset is zero. -/
  composition : List CompositionRow
  /-- Ascending and unique, or `none` when every sample is one. -/
  sync : Option (List ℕ)
  deriving DecidableEq, Repr

/-- The run holding sample `index`. -/
abbrev runOf {α : Type} (first : α → ℕ) (rows : List α) (index : ℕ) : ℕ :=
  runIndex first rows index

/-- The composition offset of a sample; zero where there is no table. -/
def compositionAt (rows : List CompositionRow) (index : ℕ) : ℤ :=
  if rows.isEmpty then 0
  else (rows[runOf CompositionRow.first rows index]?.getD default).offset

namespace Tables

def len (t : Tables) : ℕ :=
  t.sizes.length

def timeRow (t : Tables) (index : ℕ) : TimeRow :=
  t.times[runOf TimeRow.first t.times index]?.getD default

def chunkRow (t : Tables) (index : ℕ) : ChunkRow :=
  t.chunks[runOf ChunkRow.first t.chunks index]?.getD default

/-- The bytes of the samples from `first` up to `stop`. -/
def sizesBetween (t : Tables) (first stop : ℕ) : ℕ :=
  ((t.sizes.take stop).drop first).sum

def decodeTime (t : Tables) (index : ℕ) : ℕ :=
  (t.timeRow index).start +
    (index - (t.timeRow index).first) * (t.timeRow index).duration

def duration (t : Tables) (index : ℕ) : ℕ :=
  (t.timeRow index).duration

def offset (t : Tables) (index : ℕ) : ℕ :=
  (t.chunkRow index).offset + t.sizesBetween (t.chunkRow index).first index

def compositionOffset (t : Tables) (index : ℕ) : ℤ :=
  compositionAt t.composition index

def isSync (t : Tables) (index : ℕ) : Bool :=
  t.sync.all fun sync => sync.contains index

/-- The first sample whose decode time is at or after `time`, or `len` if
none is. -/
def partitionByDecodeTime (t : Tables) (time : ℤ) : ℕ :=
  let next := partitionPoint (fun row => decide ((row.start : ℤ) < time)) t.times
  let nextFirst := t.times[next]?.elim t.len TimeRow.first
  if next = 0 then 0
  else
    let row := t.times[next - 1]?.getD default
    let runEnd := if next < t.times.length then nextFirst else t.len
    if row.duration = 0 then nextFirst
    else
      let elapsed := time - row.start
      let steps := min ((elapsed + row.duration - 1) / row.duration).toNat
        (2 ^ 64 - 1)
      let candidate := saturatingAdd (2 ^ 64) row.first steps
      if candidate < runEnd then candidate else nextFirst

end Tables

structure SampleIndex where
  tables : Tables
  start : ℕ
  stop : ℕ
  shift : ℤ
  deriving DecidableEq, Repr

namespace SampleIndex

/-- Every sample of `tables`, unshifted. -/
def new (tables : Tables) : SampleIndex where
  tables := tables
  start := 0
  stop := tables.len
  shift := 0

def len (x : SampleIndex) : ℕ :=
  x.stop - x.start

def isEmpty (x : SampleIndex) : Bool :=
  x.start == x.stop

def moved (x : SampleIndex) (time : ℕ) : ℕ :=
  ((time : ℤ) + x.shift).toNat

/-- Sample `index` of the window. -/
def get (x : SampleIndex) (index : ℕ) : Sample where
  offset := x.tables.offset (x.start + index)
  size := x.tables.sizes[x.start + index]?.getD 0
  decodeTime := x.moved (x.tables.decodeTime (x.start + index))
  duration := x.tables.duration (x.start + index)
  compositionOffset := x.tables.compositionOffset (x.start + index)
  isSync := x.tables.isSync (x.start + index)

def first (x : SampleIndex) : Option Sample :=
  if x.isEmpty then none else some (x.get 0)

def last (x : SampleIndex) : Option Sample :=
  (checkedSub x.len 1).map x.get

def decodeTime (x : SampleIndex) (index : ℕ) : ℕ :=
  x.moved (x.tables.decodeTime (x.start + index))

/-- The first sample whose decode time is at or after `time`, or `len` if
none is. -/
def partitionByDecodeTime (x : SampleIndex) (time : ℕ) : ℕ :=
  max x.start
    (min (x.tables.partitionByDecodeTime ((time : ℤ) - x.shift)) x.stop) -
      x.start

/-- Where the window's sync samples begin and end in the sync table. -/
def syncBounds (x : SampleIndex) (sync : List ℕ) : ℕ × ℕ :=
  (partitionPoint (fun index => decide (index < x.start)) sync,
    partitionPoint (fun index => decide (index < x.stop)) sync)

/-- The sync samples, by their index in the window, in order. -/
def syncIndices (x : SampleIndex) : List ℕ :=
  match x.tables.sync with
  | none => List.range x.len
  | some sync =>
      ((sync.take (x.syncBounds sync).2).drop (x.syncBounds sync).1).map
        fun index => index - x.start

def everySampleIsSync (x : SampleIndex) : Bool :=
  x.tables.sync.isNone

/-- The `nth` sync sample's index in the window. -/
def nthSync (x : SampleIndex) (nth : ℕ) : Option ℕ :=
  match x.tables.sync with
  | none => if nth < x.len then some nth else none
  | some sync =>
      let position := (x.syncBounds sync).1 + nth
      if position < (x.syncBounds sync).2 then
        sync[position]?.map fun index => index - x.start
      else none

/-- The bytes of the samples from `first` up to `stop`. -/
def payloadBytes (x : SampleIndex) (first stop : ℕ) : ℕ :=
  x.tables.sizesBetween (x.start + first) (x.start + stop)

/-- The samples from `first` up to `stop` only, sharing the tables. -/
def window (x : SampleIndex) (first stop : ℕ) : SampleIndex :=
  { x with start := x.start + first, stop := x.start + stop }

/-- The same samples with every decode time moved by `delta` ticks; fails,
with `message`, if a decode time or the end of the last sample would not fit
a word. -/
def shifted (x : SampleIndex) (delta : ℤ) (message : String) :
    Result SampleIndex :=
  match x.first, x.last with
  | some first, some last =>
      if (first.decodeTime : ℤ) + delta < 0 ∨
          2 ^ 64 ≤ (last.decodeTime : ℤ) + last.duration + delta then
        .error (invalidMedia message)
      else .ok { x with shift := x.shift + delta }
  | _, _ => .ok { x with shift := x.shift + delta }

end SampleIndex

/-! ## Reading in order -/

/-- Reads the samples of `index` in order with a cursor into each table. -/
structure Iter where
  index : SampleIndex
  position : ℕ
  stop : ℕ
  chunk : ℕ
  offset : ℕ
  timeRun : ℕ
  compositionRun : ℕ
  sync : ℕ
  deriving DecidableEq, Repr

/-- The samples of `x` from `first` up to `stop`, in order. -/
def SampleIndex.range (x : SampleIndex) (first stop : ℕ) : Iter :=
  let t := x.tables
  let position := x.start + first
  let inRange : Bool := position < t.len
  { index := x
    position := position
    stop := x.start + stop
    chunk := if inRange then runOf ChunkRow.first t.chunks position else 0
    offset := if inRange then t.offset position else 0
    timeRun := if inRange then runOf TimeRow.first t.times position else 0
    compositionRun :=
      if inRange && !t.composition.isEmpty then
        runOf CompositionRow.first t.composition position
      else 0
    sync := t.sync.elim 0
      (partitionPoint fun index => decide (index < position)) }

/-- Every sample, in order. -/
def SampleIndex.iter (x : SampleIndex) : Iter :=
  x.range 0 x.len

/-- Moves the chunk cursor to the chunk of `position`; entering a chunk
restarts the byte offset at that chunk's own. -/
def Iter.enterChunk (t : Tables) (position chunk offset : ℕ) : ℕ × ℕ :=
  let entered := advance ChunkRow.first t.chunks position t.chunks.length chunk
  (entered,
    if chunk < entered then (t.chunks[entered]?.getD default).offset
    else offset)

/-- The next sample and the reader behind it. -/
def Iter.next (it : Iter) : Option (Sample × Iter) :=
  if it.stop ≤ it.position then none
  else
    let t := it.index.tables
    let entered := Iter.enterChunk t it.position it.chunk it.offset
    let timeRun :=
      advance TimeRow.first t.times it.position t.times.length it.timeRun
    let compositionRun :=
      advance CompositionRow.first t.composition it.position
        t.composition.length it.compositionRun
    let row := t.times[timeRun]?.getD default
    let size := t.sizes[it.position]?.getD 0
    let hit := t.sync.elim true fun sync => sync[it.sync]? == some it.position
    let sample : Sample :=
      { offset := entered.2
        size := size
        decodeTime := it.index.moved
          (row.start + (it.position - row.first) * row.duration)
        duration := row.duration
        compositionOffset :=
          t.composition[compositionRun]?.elim 0 CompositionRow.offset
        isSync := hit }
    some (sample,
      { it with
        position := it.position + 1
        chunk := entered.1
        offset := entered.2 + size
        timeRun := timeRun
        compositionRun := compositionRun
        sync := if t.sync.isSome && hit then it.sync + 1 else it.sync })

/-- The next `count` samples the reader gives. -/
def Iter.take : ℕ → Iter → List Sample
  | 0, _ => []
  | count + 1, it =>
      match it.next with
      | none => []
      | some (sample, rest) => sample :: Iter.take count rest

/-- Everything the reader gives. -/
def Iter.collect (it : Iter) : List Sample :=
  it.take (it.stop - it.position)

/-- The samples from `first` up to `stop`, collected. -/
def SampleIndex.toVec (x : SampleIndex) (first stop : ℕ) : List Sample :=
  (x.range first stop).collect

end Segmentor
