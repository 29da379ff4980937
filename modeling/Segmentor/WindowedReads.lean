import Segmentor.General.HiddenState
import Segmentor.MetadataWalk

/-!
# Reading through a window

The reader keeps what its last request returned and serves later reads from it
where it can.  Sums, differences and slices may fail here as they may in the
program.  Reads inside the file never do: whatever window earlier ones left,
each returns the bytes the file has there.
-/

namespace Segmentor

open General

/-- How a program that reads stops. -/
inductive ReadFailure
  | error (error : Error)
  /-- A sum or a difference that is no word. -/
  | arithmetic
  | outOfBounds
  /-- A loop went on for too long. -/
  | endless
  deriving DecidableEq, Repr

/-- What the last request returned, and where that starts. -/
structure ReadWindow where
  start : ℕ
  bytes : List UInt8
  deriving DecidableEq, Repr

/-- A program that reads through a window. -/
abbrev Windowed : Type → Type :=
  Hiding ReadWindow ReadFailure

namespace Windowed

variable (source : List UInt8)

def fail {α : Type} (error : Error) : Windowed α :=
  Hiding.ofExcept (.error (.error error))

/-- A result that needs no reading. -/
def ofResult {α : Type} (x : Result α) : Windowed α :=
  Hiding.ofExcept (x.mapError .error)

def sub (a b : ℕ) : Windowed ℕ :=
  Hiding.ofExcept (okOr (checkedSub a b) .arithmetic)

def outside (range : ByteRange) : Error :=
  .invalidRange range.offset range.length source.length

/-- All the bytes of a range of the file. -/
def fileRange (range : ByteRange) : Result (List UInt8) := do
  let stop ← okOr range.stop (outside source range)
  if source.length < stop then .error (outside source range)
  else .ok (readRange source range)

def new : ReadWindow where
  start := 0
  bytes := []

/-- Makes the window start at `offset`. -/
def refill (offset length : ℕ) : Windowed Unit := do
  let left ← sub source.length offset
  let bytes ← ofResult
    (fileRange source ⟨offset, min (max length WINDOW) left⟩)
  Hiding.set { start := offset, bytes := bytes }

/-- Exactly `length` bytes at `offset`, which must be inside the source. -/
def read (offset length : ℕ) : Windowed (List UInt8) := do
  let stop ← ofResult (okOr (checkedAdd (2 ^ 64) offset length)
    (invalidMedia "box range overflows"))
  let window ← Hiding.get
  let windowEnd ← Hiding.ofExcept
    (okOr (checkedAdd (2 ^ 64) window.start window.bytes.length) .arithmetic)
  (if offset < window.start ∨ windowEnd < stop then
    refill source offset length
  else pure () : Windowed Unit)
  let window ← Hiding.get
  let start ← sub offset window.start
  Hiding.ofExcept (okOr (slice window.bytes start length) .outOfBounds)

/-- The bytes of each of the ranges, read one after the other. -/
def readAll : List ByteRange → Windowed (List (List UInt8))
  | [] => pure []
  | range :: ranges => do
      let bytes ← read source range.offset range.length
      let rest ← readAll ranges
      pure (bytes :: rest)

/-! ## The window holds the file's bytes -/

/-- The window holds what the file has there. -/
structure Held (window : ReadWindow) : Prop where
  bytes : window.bytes = readRange source ⟨window.start, window.bytes.length⟩
  inside : window.start + window.bytes.length ≤ source.length

/-- From every such window the program comes to `x`. -/
abbrev Reads {α : Type} (m : Windowed α) (x : Result α) : Prop :=
  Hiding.ActsLike (Held source) ReadFailure.error m x

variable {source} {window : ReadWindow} {offset length : ℕ}

theorem held_new : Held source new where
  bytes := by simp [new, readRange]
  inside := Nat.zero_le _

theorem slice_eq_some {bytes : List UInt8} {start count : ℕ}
    (h : start + count ≤ bytes.length) :
    slice bytes start count = some (readRange bytes ⟨start, count⟩) := by
  unfold slice
  rw [if_pos h]

theorem fileRange_inside {range : ByteRange}
    (hinside : range.offset + range.length ≤ source.length)
    (hsource : source.length < 2 ^ 64) :
    fileRange source range = .ok (readRange source range) := by
  have hstop : range.stop = some (range.offset + range.length) :=
    checkedAdd_eq_some_iff.mpr ⟨hinside.trans_lt hsource, rfl⟩
  unfold fileRange
  rw [hstop, okOr_some, ok_bind, if_neg (by omega)]

theorem run_sub {a b : ℕ} (h : b ≤ a) (window : ReadWindow) :
    (sub a b).run window = (.ok (a - b), window) := by
  have hsub : checkedSub a b = some (a - b) :=
    checkedSub_eq_some_iff.mpr ⟨h, rfl⟩
  unfold sub
  rw [hsub]
  rfl

/-- What a new window holds. -/
def fetched (source : List UInt8) (offset length : ℕ) : ReadWindow where
  start := offset
  bytes := readRange source
    ⟨offset, min (max length WINDOW) (source.length - offset)⟩

theorem run_refill (hinside : offset ≤ source.length)
    (hsource : source.length < 2 ^ 64) (window : ReadWindow) :
    (refill source offset length).run window =
      (.ok (), fetched source offset length) := by
  unfold refill
  rw [Hiding.run_bind_ok (run_sub hinside window),
    fileRange_inside (by dsimp only; omega) hsource]
  rfl

theorem length_fetched (hinside : offset + length ≤ source.length) :
    length ≤ (fetched source offset length).bytes.length ∧
      offset + (fetched source offset length).bytes.length ≤
        source.length := by
  unfold fetched
  dsimp only
  rw [length_readRange (by dsimp only; omega)]
  dsimp only
  omega

theorem held_fetched (hinside : offset + length ≤ source.length) :
    Held source (fetched source offset length) where
  bytes := by
    have hlength : (fetched source offset length).bytes.length =
        min (max length WINDOW) (source.length - offset) :=
      length_readRange (by dsimp only; omega)
    rw [hlength]
    rfl
  inside := (length_fetched hinside).2

theorem Held.slice_eq (h : Held source window)
    (hstart : window.start ≤ offset)
    (hstop : offset + length ≤ window.start + window.bytes.length) :
    slice window.bytes (offset - window.start) length =
      some (readRange source ⟨offset, length⟩) := by
  rw [slice_eq_some (by omega), h.bytes]
  unfold readRange
  dsimp only
  rw [List.drop_take, List.drop_drop, List.take_take,
    Nat.min_eq_left (by omega), Nat.add_sub_cancel' hstart]

/-- A read inside the file returns the file's bytes, whatever the window
holds. -/
theorem reads_read (hinside : offset + length ≤ source.length)
    (hsource : source.length < 2 ^ 64) :
    Reads source (read source offset length)
      (.ok (readRange source ⟨offset, length⟩)) := by
  intro window hheld
  have hwindow := hheld.inside
  have hsum : ∀ {a b : ℕ}, a + b ≤ source.length →
      checkedAdd (2 ^ 64) a b = some (a + b) := fun h =>
    checkedAdd_eq_some_iff.mpr ⟨h.trans_lt hsource, rfl⟩
  have hstop : (ofResult (okOr (checkedAdd (2 ^ 64) offset length)
      (invalidMedia "box range overflows"))).run window =
        (.ok (offset + length), window) := by
    rw [hsum hinside]
    rfl
  have hend : (Hiding.ofExcept (okOr (checkedAdd (2 ^ 64) window.start
      window.bytes.length) .arithmetic) : Windowed ℕ).run window =
        (.ok (window.start + window.bytes.length), window) := by
    rw [hsum hwindow]
    rfl
  -- After the miss or the hit the window covers the range.
  obtain ⟨next, hnext, hstart, hcovers, hrefill⟩ :
      ∃ next, Held source next ∧ next.start ≤ offset ∧
        offset + length ≤ next.start + next.bytes.length ∧
          (if offset < window.start ∨
              window.start + window.bytes.length < offset + length then
            refill source offset length
          else pure () : Windowed Unit).run window = (.ok (), next) := by
    split
    · refine ⟨fetched source offset length, held_fetched hinside, le_rfl, ?_,
        run_refill (by omega) hsource window⟩
      have hlength := (length_fetched hinside).1
      have hoffset : (fetched source offset length).start = offset := rfl
      omega
    · exact ⟨window, hheld, by omega, by omega, rfl⟩
  have hrun : (read source offset length).run window =
      (.ok (readRange source ⟨offset, length⟩), next) := by
    unfold read
    rw [Hiding.run_bind_ok hstop, Hiding.run_bind_ok (Hiding.run_get window),
      Hiding.run_bind_ok hend, Hiding.run_bind_ok hrefill,
      Hiding.run_bind_ok (Hiding.run_get next),
      Hiding.run_bind_ok (run_sub hstart next),
      hnext.slice_eq hstart hcovers]
    rfl
  rw [hrun]
  exact ⟨rfl, hnext⟩

/-- Every sequence of reads inside the file returns the file's bytes. -/
theorem reads_readAll {ranges : List ByteRange}
    (hsource : source.length < 2 ^ 64)
    (hinside : ∀ range ∈ ranges,
      range.offset + range.length ≤ source.length) :
    Reads source (readAll source ranges)
      (.ok (ranges.map (readRange source))) := by
  induction ranges with
  | nil => exact Hiding.actsLike_pure []
  | cons range ranges ih =>
      obtain ⟨hrange, hranges⟩ := List.forall_mem_cons.mp hinside
      exact (reads_read hrange hsource).bind_ok
        ((ih hranges).bind_ok (Hiding.actsLike_pure _))

/-! ## Headers -/

/-- The header of the box at `offset`, which must end at or before `stop`. -/
def header (source : List UInt8) (offset stop : ℕ) : Windowed BoxHeader := do
  let room ← sub stop offset
  if room < 8 then fail (invalidMedia "invalid top-level MP4 box size")
  else do
    let front ← read source offset 8
    let size32 := decode (front.take 4)
    let sizes ←
      (if size32 = 1 then
        if room < 16 then fail (invalidMedia "invalid top-level MP4 box size")
        else do
          let extended ← read source (offset + 8) 8
          pure (decode extended, 16)
      else if size32 = 0 then pure (room, 8)
      else pure (size32, 8) : Windowed (ℕ × ℕ))
    if sizes.1 < sizes.2 ∨ stop < offset + sizes.1 then
      fail (invalidMedia "invalid top-level MP4 box size")
    else pure { name := front.drop 4, size := sizes.1 }

theorem reads_fail {α : Type} (error : Error) :
    Reads source (fail error : Windowed α) (.error error) :=
  fun _ hheld => ⟨rfl, hheld⟩

theorem reads_sub {a b : ℕ} (h : b ≤ a) :
    Reads source (sub a b) (.ok (a - b)) := by
  intro window hheld
  rw [run_sub h window]
  exact ⟨rfl, hheld⟩

theorem reads_header {stop : ℕ} (hoffset : offset ≤ stop)
    (hstop : stop ≤ source.length) (hsource : source.length < 2 ^ 64) :
    Reads source (header source offset stop)
      (Segmentor.header source offset stop) := by
  unfold header Segmentor.header
  refine (reads_sub hoffset).bind_ok (.ite (fun _ => reads_fail _) ?_)
  intro hroom
  refine (reads_read (by omega) hsource).bind_ok ?_
  refine .bind (.ite (fun _ => .ite (fun _ => reads_fail _) ?_) ?_) ?_
  · intro hextended
    exact (reads_read (by omega) hsource).bind_ok (Hiding.actsLike_pure _)
  · exact fun _ => .ite (fun _ => Hiding.actsLike_pure _)
      fun _ => Hiding.actsLike_pure _
  · exact fun sizes _ => .ite (fun _ => reads_fail _)
      fun _ => Hiding.actsLike_pure _

/-- Which box of a fragment the file ends inside. -/
def cutBox (source : List UInt8) (offset : ℕ) : Windowed (Option Cut) := do
  let remaining ← sub source.length offset
  if remaining < 8 then pure (some .header)
  else do
    let front ← read source offset 8
    let size32 := decode (front.take 4)
    if size32 = 0 then pure none
    else if size32 = 1 ∧ remaining < 16 then pure (some .header)
    else if size32 ≠ 1 ∧ size32 < 8 then pure none
    else do
      let declared ←
        (if size32 = 1 then do
          let extended ← read source (offset + 8) 8
          pure (decode extended)
        else pure size32 : Windowed ℕ)
      if declared ≤ remaining then pure none
      else if front.drop 4 = code 'm' 'o' 'o' 'f' then pure (some .moof)
      else if front.drop 4 = code 'm' 'd' 'a' 't' then pure (some .mdat)
      else pure none

theorem reads_cutBox (hoffset : offset ≤ source.length)
    (hsource : source.length < 2 ^ 64) :
    Reads source (cutBox source offset)
      (.ok (Segmentor.cutBox source offset)) := by
  unfold cutBox Segmentor.cutBox
  simp only [apply_ite Except.ok]
  refine (reads_sub hoffset).bind_ok
    (.ite (fun _ => Hiding.actsLike_pure _) fun hroom => ?_)
  refine (reads_read (by omega) hsource).bind_ok ?_
  refine .ite (fun _ => Hiding.actsLike_pure _) fun _ => ?_
  refine .ite (fun _ => Hiding.actsLike_pure _) fun hextended => ?_
  refine .ite (fun _ => Hiding.actsLike_pure _) fun _ => ?_
  refine Hiding.ActsLike.bind_ok ?_ (.ite (fun _ => Hiding.actsLike_pure _)
    fun _ => .ite (fun _ => Hiding.actsLike_pure _) fun _ =>
      .ite (fun _ => Hiding.actsLike_pure _) fun _ => Hiding.actsLike_pure _)
  rw [apply_ite Except.ok]
  refine .ite (fun hone => ?_) fun _ => Hiding.actsLike_pure _
  have hroom' : ¬ source.length - offset < 16 :=
    fun h => hextended ⟨hone, h⟩
  exact (reads_read (by omega) hsource).bind_ok (Hiding.actsLike_pure _)

end Windowed

end Segmentor
