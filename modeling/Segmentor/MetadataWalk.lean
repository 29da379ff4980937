import Segmentor.FragmentReader

/-!
# The part of a file the parser needs

The walk over the top-level boxes of a file keeps `moov` and every `moof`
whole and skips everything else.  A `sidx` that lists where the fragments are
lets it fetch them a subsegment at a time instead of box by box.  A file that
ends partway through a fragment is refused, or loses that fragment when that
is tolerated.
-/

namespace Segmentor

open General

def MAX_OTHER_BOXES : ℕ := 4096

/-- How many bytes are read at once while walking. -/
def WINDOW : ℕ := 8 * 1024

/-- A `sidx` with fewer references is not worth fetching in parallel. -/
def MIN_PARALLEL_REFERENCES : ℕ := 4

def MAX_SIDX_BYTES : ℕ := 1024 * 1024

/-- How the fragments of a file were found, for the operator's log. -/
inductive Discovery
  | sequential
  | sidx
  deriving DecidableEq, Repr

/-- What was left out because the file ends partway through a fragment. -/
structure DroppedTail where
  bytes : ℕ
  /-- Complete `moof` boxes dropped because their `mdat` was cut off. -/
  fragments : ℕ
  deriving DecidableEq, Repr

/-- The `moov` box of a source and the `moof` box of every fragment, with
where they came from. -/
structure Metadata where
  len : ℕ
  moov : ByteRange
  moovBytes : List UInt8
  fragments : List Fragment
  discovery : Discovery
  dropped : Option DroppedTail
  deriving DecidableEq, Repr

/-! ## Box headers -/

structure BoxHeader where
  name : List UInt8
  size : ℕ
  deriving DecidableEq, Repr

/-- The first four bytes of the box at `offset`. -/
def size32 (source : List UInt8) (offset : ℕ) : ℕ :=
  decode ((readRange source ⟨offset, 8⟩).take 4)

def boxName (source : List UInt8) (offset : ℕ) : List UInt8 :=
  (readRange source ⟨offset, 8⟩).drop 4

/-- The size of the box at `offset` in a header of sixteen bytes. -/
def extendedSize (source : List UInt8) (offset : ℕ) : ℕ :=
  decode (readRange source ⟨offset + 8, 8⟩)

/-- The header of the box at `offset`, which must end at or before `stop`. -/
def header (source : List UInt8) (offset stop : ℕ) : Result BoxHeader :=
  if stop - offset < 8 then
    .error (invalidMedia "invalid top-level MP4 box size")
  else do
    let (size, headerSize) ←
      (if size32 source offset = 1 then
        if stop - offset < 16 then
          .error (invalidMedia "invalid top-level MP4 box size")
        else .ok (extendedSize source offset, 16)
      else if size32 source offset = 0 then .ok (stop - offset, 8)
      else .ok (size32 source offset, 8) : Result (ℕ × ℕ))
    if size < headerSize ∨ stop < offset + size then
      .error (invalidMedia "invalid top-level MP4 box size")
    else .ok { name := boxName source offset, size := size }

/-! ## What a `sidx` lists -/

/-- Where the fragments a `sidx` lists start, and how big each subsegment
is. -/
structure Coverage where
  start : ℕ
  sizes : List ℕ
  deriving DecidableEq, Repr

/-- The offset just past the last subsegment. -/
def Coverage.stop (coverage : Coverage) : Option ℕ :=
  coverage.sizes.foldlM (checkedAdd (2 ^ 64)) coverage.start

/-- The `count` bytes of `payload` at `at`, if it has them. -/
def slice (payload : List UInt8) (offset count : ℕ) : Option (List UInt8) :=
  if offset + count ≤ payload.length then
    some (readRange payload ⟨offset, count⟩)
  else none

/-- A reference's size.  The top bit marks a reference to another `sidx`,
which is not followed. -/
def referenceSize (payload : List UInt8) (offset : ℕ) : Option ℕ := do
  let entry ← slice payload offset 12
  let word := decode (entry.take 4)
  let size := word % 2 ^ 31
  if 2 ^ 31 ≤ word ∨ size = 0 then none else some size

/-- Reads a `sidx` payload into the subsegments it lists, or nothing if it is
not one that can be used. -/
def parseSidx (payload : List UInt8) (sidxEnd maxReferences : ℕ) :
    Option Coverage := do
  let version ← payload.head?
  let at_ := 4 + 4 + 4
  let (firstOffset, next) ←
    (if version = 0 then
      (slice payload (at_ + 4) 4).map fun word => (decode word, at_ + 4 + 4)
    else
      (slice payload (at_ + 8) 8).map fun word => (decode word, at_ + 8 + 8))
  let countAt := next + 2
  let count ← (slice payload countAt 2).map decode
  if count < MIN_PARALLEL_REFERENCES ∨ maxReferences < count then none
  else
    let sizes ← (List.range count).mapM fun index =>
      referenceSize payload (countAt + 2 + index * 12)
    let start ← checkedAdd (2 ^ 64) sidxEnd firstOffset
    some { start := start, sizes := sizes }

/-! ## Subsegments -/

def fragmentAt (source : List UInt8) (offset size : ℕ) : Fragment where
  offset := offset
  bytes := readRange source ⟨offset, size⟩

/-- The rest of a subsegment that ends at `stop`; every box takes one round,
and `fuel` bounds their number. -/
def walkSubsegmentFuel (source : List UInt8) (stop : ℕ) :
    ℕ → ℕ → List Fragment → Option (List Fragment)
  | 0, _, _ => none
  | fuel + 1, offset, fragments =>
      if offset < stop then
        match header source offset stop with
        | .ok box =>
            walkSubsegmentFuel source stop fuel (offset + box.size)
              (if box.name = code 'm' 'o' 'o' 'f' then
                fragments ++ [fragmentAt source offset box.size]
              else fragments)
        | .error _ => none
      else if fragments = [] then none
      else some fragments

/-- Every `moof` from `start` up to `stop`, or nothing if what is there is not
a whole number of boxes starting a fragment. -/
def walkSubsegment (source : List UInt8) (start stop : ℕ) :
    Option (List Fragment) :=
  walkSubsegmentFuel source stop (stop - start + 1) start []

/-- The fragments of the subsegments of the sizes listed, from `offset` on,
or nothing if any of them is not what the `sidx` said. -/
def fetchSubsegments (source : List UInt8) :
    ℕ → List ℕ → Option (List Fragment)
  | _, [] => some []
  | offset, size :: sizes => do
      let fragments ← walkSubsegment source offset (offset + size)
      let rest ← fetchSubsegments source (offset + size) sizes
      some (fragments ++ rest)

/-- The fragments of every subsegment `coverage` lists.  They are fetched
several at a time and put together in order. -/
def fetchBySidx (source : List UInt8) (coverage : Coverage) :
    Option (List Fragment) :=
  fetchSubsegments source coverage.start coverage.sizes

/-! ## A file that was cut off -/

/-- Which box a file was cut inside. -/
inductive Cut
  /-- Fewer bytes are left than a box header has. -/
  | header
  | moof
  | mdat
  deriving DecidableEq, Repr

def Cut.text : Cut → String
  | .header => "box header"
  | .moof => "moof"
  | .mdat => "mdat"

/-- Which box of a fragment the file ends inside, if the one at `offset`
declares more than the file has left.  A malformed header is corruption and
not a cut. -/
def cutBox (source : List UInt8) (offset : ℕ) : Option Cut :=
  let remaining := source.length - offset
  if remaining < 8 then some .header
  else if size32 source offset = 0 then none
  else if size32 source offset = 1 ∧ remaining < 16 then some .header
  else if size32 source offset ≠ 1 ∧ size32 source offset < 8 then none
  else
    let declared :=
      if size32 source offset = 1 then extendedSize source offset
      else size32 source offset
    if declared ≤ remaining then none
    else if boxName source offset = code 'm' 'o' 'o' 'f' then some .moof
    else if boxName source offset = code 'm' 'd' 'a' 't' then some .mdat
    else none

/-! ## The walk -/

/-- The state of one walk over a file's top-level boxes. -/
structure Walk where
  moov : Option (ByteRange × List UInt8) := none
  fragments : List Fragment := []
  metadataBytes : ℕ := 0
  otherBoxes : ℕ := 0
  mediaBoxes : ℕ := 0
  discovery : Discovery := .sequential
  dropped : Option DroppedTail := none
  /-- Where the last `moof` starts, so that a cut-off `mdat` can take its
  `moof` with it. -/
  lastMoof : Option ℕ := none
  /-- A `sidx` seen before any fragment, and where the walk must arrive for it
  to be used. -/
  pending : Option Coverage := none
  deriving DecidableEq, Repr

def tooManyFragments (limits : LimitsConfig) : Error :=
  .unsupported ("the file has more than " ++ toString limits.maxFragments ++
    " fragments, the limit set by limits.max_fragments")

namespace Walk

def countOther (walk : Walk) : Result Walk :=
  if MAX_OTHER_BOXES < walk.otherBoxes + 1 then
    .error (invalidMedia "too many top-level MP4 boxes")
  else .ok { walk with otherBoxes := walk.otherBoxes + 1 }

/-- Adds to the running total of metadata bytes and checks it. -/
def addMetadataBytes (limits : LimitsConfig) (walk : Walk) (bytes : ℕ) :
    Result Walk :=
  let total := saturatingAdd (2 ^ 64) walk.metadataBytes bytes
  if limits.maxMetadataBytes < total then
    .error (invalidMedia
      "moov and moof boxes exceed configured metadata limit")
  else .ok { walk with metadataBytes := total }

section

variable (source : List UInt8) (limits : LimitsConfig)

/-- Keeps or counts the box at `offset`. -/
def record (useSidx : Bool) (walk : Walk) (offset : ℕ) (box : BoxHeader) :
    Result Walk :=
  if box.name = code 'm' 'o' 'o' 'v' then
    if limits.maxMetadataBytes < box.size then
      .error (invalidMedia "moov exceeds configured metadata limit")
    else
      .ok { walk with
        moov := some (⟨offset, box.size⟩,
          readRange source ⟨offset, box.size⟩) }
  else if box.name = code 'm' 'o' 'o' 'f' then
    if limits.maxFragments ≤ walk.fragments.length then
      .error (tooManyFragments limits)
    else do
      let walk ← walk.addMetadataBytes limits box.size
      .ok { walk with
        fragments := walk.fragments ++ [fragmentAt source offset box.size]
        lastMoof := some offset }
  else if box.name = code 's' 'i' 'd' 'x' ∧ useSidx ∧
      walk.fragments = [] ∧ walk.pending = none then do
    let walk ← walk.countOther
    .ok
      (if box.size ≤ MAX_SIDX_BYTES then
        { walk with
          pending := parseSidx (readRange source ⟨offset + 8, box.size - 8⟩)
            (offset + box.size) limits.maxFragments }
      else walk)
  else if box.name = code 'm' 'd' 'a' 't' then
    if limits.maxFragments + 16 < walk.mediaBoxes + 1 then
      .error (invalidMedia "too many top-level MP4 boxes")
    else .ok { walk with mediaBoxes := walk.mediaBoxes + 1 }
  else walk.countOther

/-- The region the walk can fetch in parallel when it is at `offset`: where
the fragments a `sidx` lists start exactly there, and every subsegment is what
it said.  The fragments found and where the region ends. -/
def region (walk : Walk) (offset : ℕ) : Option (List Fragment × ℕ) := do
  let coverage ← walk.pending
  if offset ≠ coverage.start then none
  else
    let stop ← coverage.stop.filter fun stop => stop ≤ source.length
    let found ← fetchBySidx source coverage
    some (found, stop)

/-- The walk once it has arrived at or passed the start of its `sidx`'s
region: a `sidx` is used there or not at all. -/
def arrive (walk : Walk) (offset : ℕ) : Walk :=
  match walk.pending with
  | some coverage =>
      if coverage.start ≤ offset then { walk with pending := none } else walk
  | none => walk

/-- Fetches the fragments of a region that starts here, and returns where the
walk resumes; otherwise it carries on box by box. -/
def tryJump (walk : Walk) (offset : ℕ) : Result (Walk × Option ℕ) :=
  match walk.region source offset with
  | none => .ok (walk.arrive offset, none)
  | some (found, stop) => do
      let taken := (found.map fun fragment => fragment.bytes.length).sum
      let walk := { walk.arrive offset with
        fragments := walk.fragments ++ found }
      if limits.maxFragments < walk.fragments.length then
        .error (tooManyFragments limits)
      else
        let walk ← walk.addMetadataBytes limits taken
        .ok ({ walk with discovery := .sidx }, some stop)

/-- What a file that was cut off at `offset` loses: from where, and how many
whole `moof` boxes.  A cut `mdat` belongs to the `moof` just before it. -/
def drop (walk : Walk) (offset : ℕ) (cut : Cut) : Walk × ℕ × ℕ :=
  match cut, walk.lastMoof with
  | .mdat, some moof =>
      if walk.fragments.getLast?.any fun fragment => fragment.offset == moof
      then
        ({ walk with
          fragments := walk.fragments.dropLast
          lastMoof := none }, moof, 1)
      else (walk, offset, 0)
  | _, _ => (walk, offset, 0)

/-- The box at `offset` could not be read as a box.  A file that was cut off
inside a fragment, after a whole one, is refused with advice or loses the cut
fragment.  Anything else is corruption. -/
def handleCut (walk : Walk) (offset : ℕ) (error : Error) : Result Walk :=
  if walk.fragments = [] then .error error
  else
    match cutBox source offset with
    | none => .error error
    | some cut =>
        if !limits.tolerateTruncatedTail then
          .error (invalidMedia ("the file ends partway through a " ++
            cut.text ++ " box, " ++ toString (source.length - offset) ++
            " bytes from the end of the last whole box; if it is still " ++
            "being written or was cut off, set " ++
            "limits.tolerate_truncated_tail to serve the complete " ++
            "fragments before it"))
        else
          let (walk, start, fragments) := walk.drop offset cut
          if walk.fragments = [] then
            .error (invalidMedia
              "the file ends before its first fragment is complete")
          else
            .ok { walk with
              dropped := some ⟨source.length - start, fragments⟩ }

/-- The walk from `offset` on.  Every round but a jump's takes it past a box
header, and `fuel` bounds their number. -/
def runFuel (useSidx : Bool) : ℕ → Walk → ℕ → Result Walk
  | 0, walk, _ => .ok walk
  | fuel + 1, walk, offset =>
      if offset < source.length then do
        let (walk, jumped) ← walk.tryJump source limits offset
        match jumped with
        | some stop => runFuel useSidx fuel walk stop
        | none =>
            match header source offset source.length with
            | .error error => walk.handleCut source limits offset error
            | .ok box => do
                let walk ← walk.record source limits useSidx offset box
                runFuel useSidx fuel walk (offset + box.size)
      else .ok walk

def run (useSidx : Bool) (walk : Walk) (offset : ℕ) : Result Walk :=
  walk.runFuel source limits useSidx (source.length - offset + 1) offset

end

end Walk

/-- Walks the top-level boxes and fetches `moov` and every `moof` whole. -/
def fetchWith (source : List UInt8) (limits : LimitsConfig)
    (useSidx : Bool) : Result Metadata := do
  let walk ← Walk.run source limits useSidx {} 0
  let (moov, moovBytes) ← okOr walk.moov (invalidMedia "missing moov box")
  let walk ← walk.addMetadataBytes limits moov.length
  .ok
    { len := source.length
      moov := moov
      moovBytes := moovBytes
      fragments := walk.fragments
      discovery := walk.discovery
      dropped := walk.dropped }

end Segmentor
