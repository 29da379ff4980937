import Segmentor.FragmentWriter
import Segmentor.General.Stretch

/-!
# Streaming a segment

The task that sends a response body: the requested part of the header, then
the requested source ranges, read together where they are close in the file.
Sending is appending to what was sent; waiting for a job slot or for the client
is left out.
-/

namespace Segmentor

open General

structure ByteInterval where
  start : ℕ
  stop : ℕ
  deriving DecidableEq, Repr

def ByteInterval.overlap (interval : ByteInterval) (start stop : ℕ) :
    Option ByteInterval :=
  let overlap : ByteInterval :=
    { start := max interval.start start
      stop := min interval.stop stop }
  if overlap.start < overlap.stop then some overlap else none

/-- Where a range ends; its ends fit a word, as those of a source do. -/
def ByteRange.last (range : ByteRange) : ℕ :=
  range.offset + range.length

/-- The part of a range, sent from `virtualOffset` on, that the interval
needs. -/
def requestedPiece (interval : ByteInterval) (virtualOffset : ℕ)
    (range : ByteRange) : Option ByteRange :=
  (interval.overlap virtualOffset (virtualOffset + range.length)).map
    fun overlap =>
      { offset := range.offset + overlap.start - virtualOffset
        length := overlap.stop - overlap.start }

/-- The source ranges the interval needs after the header, in response
order. -/
def requestedPieces (interval : ByteInterval) :
    ℕ → List ByteRange → List ByteRange
  | _, [] => []
  | virtualOffset, range :: ranges =>
      (requestedPiece interval virtualOffset range).toList ++
        requestedPieces interval (virtualOffset + range.length) ranges

/-- The largest gap between two pieces that one read may span. -/
def MAX_GAP_BYTES : ℕ := 64 * 1024

/-- How many bytes the gaps of one segment may add to its reads. -/
def GAP_BUDGET_BYTES : ℕ := 256 * 1024

/-! ## Reads -/

/-- One source read and what it serves. -/
inductive Read
  /-- One piece longer than a chunk, read and sent a chunk at a time. -/
  | split (piece : ByteRange)
  /-- One read of `start` up to `stop` that serves the pieces in it. -/
  | span (start stop : ℕ) (pieces : List ByteRange)
  deriving DecidableEq, Repr

/-- The read that pieces may still join. -/
structure OpenRead where
  start : ℕ
  stop : ℕ
  pieces : List ByteRange
  deriving DecidableEq, Repr

def OpenRead.close (current : OpenRead) : Read :=
  .span current.start current.stop current.pieces

structure Coalescing where
  reads : List Read
  gapSpent : ℕ
  current : Option OpenRead
  deriving DecidableEq, Repr

namespace Coalescing

/-- The reads so far, the open one closed. -/
def closed (state : Coalescing) : List Read :=
  state.reads ++ state.current.toList.map OpenRead.close

/-- Starts a read for `piece`, after closing the one before. -/
def fresh (chunkSize : ℕ) (state : Coalescing) (piece : ByteRange) :
    Coalescing :=
  if chunkSize < piece.length then
    { state with reads := state.closed ++ [.split piece], current := none }
  else
    { state with
      reads := state.closed
      current := some ⟨piece.offset, piece.last, [piece]⟩ }

/-- Whether `piece`, `gap` bytes past the current read, may join it. -/
def fits (chunkSize : ℕ) (state : Coalescing) (current : OpenRead)
    (piece : ByteRange) (gap : ℕ) : Bool :=
  gap ≤ MAX_GAP_BYTES ∧ state.gapSpent + gap ≤ GAP_BUDGET_BYTES ∧
    piece.last - current.start ≤ chunkSize

def step (chunkSize : ℕ) (state : Coalescing) (piece : ByteRange) :
    Coalescing :=
  match state.current with
  | some current =>
      let gap := checkedSub piece.offset current.stop
      if gap.any (state.fits chunkSize current piece) then
        { state with
          gapSpent := state.gapSpent + gap.getD 0
          current := some
            { current with
              stop := piece.last
              pieces := current.pieces ++ [piece] } }
      else state.fresh chunkSize piece
  | none => state.fresh chunkSize piece

end Coalescing

/-- Groups pieces into as few reads as the limits allow. -/
def coalesceReads (pieces : List ByteRange) (chunkSize : ℕ) : List Read :=
  (pieces.foldl (Coalescing.step chunkSize) ⟨[], 0, none⟩).closed

/-- The bytes a read takes from the source. -/
def Read.length : Read → ℕ
  | .split piece => piece.length
  | .span start stop _ => stop - start

/-! ## Windows over interleaved tracks -/

def MAX_RUNS : ℕ := 4

def HELD_CHUNKS : ℕ := 4

/-- One read of `start` up to `stop`, and the pieces in it with the run of
the response each belongs to. -/
structure Window where
  start : ℕ
  stop : ℕ
  members : List (ℕ × ByteRange)
  deriving DecidableEq, Repr

/-- The pieces with their runs: a new one starts wherever a piece comes
earlier in the file than the one before it ends. -/
def tagRuns : ℕ → ℕ → List ByteRange → List (ℕ × ByteRange)
  | _, _, [] => []
  | run, previousEnd, piece :: pieces =>
      let run := if piece.offset < previousEnd then run + 1 else run
      (run, piece) :: tagRuns run piece.last pieces

structure Windows where
  windows : List Window
  gapSpent : ℕ
  deriving DecidableEq, Repr

namespace Windows

def fits (chunkSize : ℕ) (state : Windows) (window : Window)
    (piece : ByteRange) : Bool :=
  let gap := piece.offset - window.stop
  gap ≤ MAX_GAP_BYTES ∧ state.gapSpent + gap ≤ GAP_BUDGET_BYTES ∧
    max piece.last window.stop - window.start ≤ chunkSize

def step (chunkSize : ℕ) (state : Windows) (item : ℕ × ByteRange) : Windows :=
  let opened : Windows :=
    { state with
      windows := state.windows ++ [⟨item.2.offset, item.2.last, [item]⟩] }
  match state.windows.getLast? with
  | some window =>
      if state.fits chunkSize window item.2 then
        { windows := state.windows.dropLast ++
            [{ window with
               stop := max window.stop item.2.last
               members := window.members ++ [item] }]
          gapSpent := state.gapSpent + (item.2.offset - window.stop) }
      else opened
  | none => opened

end Windows

/-- A plan that reads each file region once for tracks interleaved in the
file, or `none` where reading them in turn does as well. -/
def interleavedWindows (pieces : List ByteRange) (chunkSize : ℕ) :
    Option (List Window) :=
  let tagged := tagRuns 0 0 pieces
  let runs := (tagged.getLast?.elim 0 Prod.fst) + 1
  let held := ((tagged.filter fun item => item.1 != 0).map
    fun item => item.2.length).sum
  if ¬ (2 ≤ runs ∧ runs ≤ MAX_RUNS) ∨
      pieces.any (fun piece => chunkSize < piece.length) then none
  else if min (chunkSize * HELD_CHUNKS) (2 ^ 64 - 1) < held then none
  else
    let sorted := tagged.insertionSort fun a b => a.2.offset ≤ b.2.offset
    let windows := (sorted.foldl (Windows.step chunkSize) ⟨[], 0⟩).windows
    let merged := (windows.map fun window => window.stop - window.start).sum
    let separate := ((coalesceReads pieces chunkSize).map Read.length).sum
    if merged < separate then some windows else none

/-! ## Sending -/

inductive StreamAbort
  | client
  | idle
  | error
  deriving DecidableEq, Repr

/-- A read of the source, which refuses a range that is not inside it. -/
def readSource (source : List UInt8) (range : ByteRange) :
    Except StreamAbort (List UInt8) :=
  if range.last ≤ source.length then .ok (readRange source range)
  else .error .error

/-- The part of a span from `start` up to `stop`, if it is that long. -/
def spanBytes (span : List UInt8) (start stop : ℕ) :
    Except StreamAbort (List UInt8) :=
  if start ≤ stop ∧ stop ≤ span.length then .ok (stretch span start stop)
  else .error .error

/-- The pieces of a span, one after the other. -/
def joinPieces (span : List UInt8) (start : ℕ) (pieces : List ByteRange) :
    Except StreamAbort (List UInt8) := do
  let joined ← pieces.mapM fun piece =>
    spanBytes span (piece.offset - start) (piece.offset - start + piece.length)
  .ok joined.flatten

/-- The chunk sent for a span; a single piece is not copied. -/
def spanChunk (span : List UInt8) (start : ℕ) :
    List ByteRange → Except StreamAbort (List UInt8)
  | [piece] =>
      if piece.offset = start then .ok (stretch span 0 piece.length)
      else joinPieces span start [piece]
  | pieces => joinPieces span start pieces

/-- What a read sends. -/
def sendRead (source : List UInt8) (chunkSize : ℕ) :
    Read → Except StreamAbort (List (List UInt8))
  | .split piece =>
      (chunkSpans chunkSize piece.offset piece.last).mapM fun span =>
        readSource source ⟨span.1, span.2 - span.1⟩
  | .span start stop pieces => do
      let span ← readSource source ⟨start, stop - start⟩
      let chunk ← spanChunk span start pieces
      .ok [chunk]

/-- Holds back bytes of a run until the first run is done. -/
def holdBack (held : List (List UInt8)) (run : ℕ) (bytes : List UInt8) :
    List (List UInt8) :=
  (held ++ List.replicate (run - held.length) []).modify (run - 1) (· ++ bytes)

/-- What has been read of a window: the bytes to send now, and those held
back. -/
structure WindowBytes where
  ready : List UInt8
  held : List (List UInt8)
  deriving DecidableEq, Repr

/-- Routes a member of a window to its run. -/
def routeMember (span : List UInt8) (start : ℕ) (state : WindowBytes)
    (member : ℕ × ByteRange) : Except StreamAbort WindowBytes := do
  let bytes ← spanBytes span (member.2.offset - start)
    (member.2.offset - start + member.2.length)
  .ok
    (if member.1 = 0 then { state with ready := state.ready ++ bytes }
    else { state with held := holdBack state.held member.1 bytes })

/-- What has been sent of the windows, and what is held back. -/
structure Interleaved where
  sent : List (List UInt8)
  held : List (List UInt8)
  deriving DecidableEq, Repr

def sendWindow (source : List UInt8) (state : Interleaved) (window : Window) :
    Except StreamAbort Interleaved := do
  let span ← readSource source ⟨window.start, window.stop - window.start⟩
  let bytes ← window.members.foldlM (routeMember span window.start)
    ⟨[], state.held⟩
  .ok
    { sent := state.sent ++ (if bytes.ready.isEmpty then [] else [bytes.ready])
      held := bytes.held }

/-- Streams interleaved tracks: the first run's bytes as each window arrives,
the others' once it is done. -/
def streamInterleaved (source : List UInt8) (chunkSize : ℕ)
    (windows : List Window) : Except StreamAbort (List (List UInt8)) := do
  let final ← windows.foldlM (sendWindow source) ⟨[], []⟩
  .ok (final.sent ++ final.held.flatMap fun bytes =>
    chunked (max chunkSize 1) bytes 0 bytes.length)

/-- Streams the reads of pieces in turn. -/
def streamReads (source : List UInt8) (chunkSize : ℕ)
    (pieces : List ByteRange) : Except StreamAbort (List (List UInt8)) := do
  let sent ← (coalesceReads pieces chunkSize).mapM (sendRead source chunkSize)
  .ok sent.flatten

def streamPieces (source : List UInt8) (chunkSize : ℕ)
    (pieces : List ByteRange) : Except StreamAbort (List (List UInt8)) :=
  match interleavedWindows pieces chunkSize with
  | some windows => streamInterleaved source chunkSize windows
  | none => streamReads source chunkSize pieces

structure StreamJob where
  prepared : PreparedSegment
  interval : ByteInterval
  chunkSize : ℕ
  deriving DecidableEq, Repr

namespace StreamJob

/-- The chunks of the requested part of the header. -/
def headerChunks (job : StreamJob) : List (List UInt8) :=
  match job.interval.overlap 0 job.prepared.header.length with
  | some overlap =>
      chunked (max job.chunkSize 1) job.prepared.header overlap.start
        overlap.stop
  | none => []

/-- The chunks sent for a segment of `source`. -/
def stream (job : StreamJob) (source : List UInt8) :
    Except StreamAbort (List (List UInt8)) := do
  let body ← streamPieces source job.chunkSize
    (requestedPieces job.interval job.prepared.header.length
      job.prepared.ranges)
  .ok (job.headerChunks ++ body)

end StreamJob

end Segmentor
