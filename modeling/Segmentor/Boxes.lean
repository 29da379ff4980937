import Segmentor.Error
import Segmentor.General.BigEndian

/-!
# Boxes and checked reads

A source is a list of bytes, read one range at a time.  A box is a size, a
four-byte name and a payload.  A reader holds what is left to read of a
payload, and every read checks that enough is left.
-/

namespace Segmentor

open General

structure ByteRange where
  offset : ℕ
  length : ℕ
  deriving DecidableEq, Repr

/-- Where the range ends, if that fits a word. -/
def ByteRange.stop (range : ByteRange) : Option ℕ :=
  checkedAdd (2 ^ 64) range.offset range.length

/-- The bytes of `range` in the source. -/
def readRange (source : List UInt8) (range : ByteRange) : List UInt8 :=
  (source.drop range.offset).take range.length

theorem length_readRange {source : List UInt8} {range : ByteRange}
    (hinside : range.offset + range.length ≤ source.length) :
    (readRange source range).length = range.length := by
  unfold readRange
  rw [List.length_take, List.length_drop]
  omega

/-- A four-character code. -/
def code (a b c d : Char) : List UInt8 :=
  [a, b, c, d].map fun char => UInt8.ofNat char.toNat

/-- One box: its name and payload, and its size with the header. -/
structure RawBox where
  name : List UInt8
  payload : List UInt8
  size : ℕ
  deriving DecidableEq, Repr

/-- The box at `offset` of `data`. -/
def boxPayload (data : List UInt8) (offset : ℕ) : Result RawBox := do
  let header := (data.drop offset).take 8
  if header.length < 8 then
    .error (invalidMedia "MP4 box header is truncated")
  else
    let size32 := decode (header.take 4)
    let name := header.drop 4
    let (size, headerSize) ←
      (if size32 = 1 then
        let extended := (data.drop (offset + 8)).take 8
        if extended.length < 8 then
          .error (invalidMedia "extended MP4 box header is truncated")
        else .ok (decode extended, 16)
      else if size32 = 0 then .ok (data.length - offset, 8)
      else .ok (size32, 8) : Result (ℕ × ℕ))
    if size < headerSize ∨ data.length < offset + size then
      .error (invalidMedia "MP4 child box size is invalid")
    else
      .ok
        { name := name
          payload := (data.drop (offset + headerSize)).take (size - headerSize)
          size := size }

/-- The whole boxes `data` is a run of; `fuel` bounds their number. -/
def childBoxesFuel : ℕ → List UInt8 → Result (List RawBox)
  | _, [] => .ok []
  | 0, _ :: _ => .error (invalidMedia "MP4 box header is truncated")
  | fuel + 1, byte :: bytes => do
      let child ← boxPayload (byte :: bytes) 0
      let children ← childBoxesFuel fuel ((byte :: bytes).drop child.size)
      .ok (child :: children)

/-- The child boxes of `data`, which must be exactly a run of whole boxes.
Each is at least a header long, so there are no more of them than bytes. -/
def childBoxes (data : List UInt8) : Result (List RawBox) :=
  childBoxesFuel data.length data

/-- The first child called `name`, if any. -/
def optionalChild (data : List UInt8) (name : List UInt8) :
    Result (Option RawBox) := do
  let children ← childBoxes data
  .ok (children.find? fun child => child.name == name)

/-- A printable spelling of a four-character code. -/
def fourcc (name : List UInt8) : String :=
  String.ofList (name.map fun byte =>
    if 32 ≤ byte.toNat ∧ byte.toNat < 127 then Char.ofNat byte.toNat else '?')

/-- The first child called `name`, or an error if there is none. -/
def requiredChild (data : List UInt8) (name : List UInt8) : Result RawBox := do
  let child ← optionalChild data name
  okOr child
    (.invalidMedia ("required MP4 box `" ++ fourcc name ++ "` is missing"))

/-- A computation over the unread bytes of a payload. -/
abbrev Reader (α : Type) : Type :=
  StateT (List UInt8) (Except Error) α

namespace Reader

/-- The next `count` bytes. -/
def take (count : ℕ) : Reader (List UInt8) := fun unread =>
  if unread.length < count then .error (invalidMedia "MP4 box is truncated")
  else .ok (unread.take count, unread.drop count)

def skip (count : ℕ) : Reader Unit := do
  let _ ← take count
  return ()

def remaining : Reader ℕ := fun unread =>
  .ok (unread.length, unread)

/-- Everything not yet read, which stays unread. -/
def rest : Reader (List UInt8) := fun unread =>
  .ok (unread, unread)

def u8 : Reader ℕ := do
  let bytes ← take 1
  return decode bytes

def u16 : Reader ℕ := do
  let bytes ← take 2
  return decode bytes

def u32 : Reader ℕ := do
  let bytes ← take 4
  return decode bytes

def i32 : Reader ℤ := do
  let bytes ← take 4
  return ofWord 32 (decode bytes)

def u64 : Reader ℕ := do
  let bytes ← take 8
  return decode bytes

/-- Reads the version and flags that open a full box, returning the
version. -/
def fullBox : Reader ℕ := do
  let version ← u8
  skip 3
  return version

/-- Reads the version and the 24-bit flags that open a full box. -/
def fullBoxFlags : Reader (ℕ × ℕ) := do
  let version ← u8
  let flags ← take 3
  return (version, decode flags)

/-- Stops with an error. -/
def fail {α : Type} (error : Error) : Reader α := fun _ =>
  .error error

/-- A table's entry count, where that many entries can be in what is left. -/
def entryCount (entrySize : ℕ) : Reader ℕ := do
  let count ← u32
  let left ← remaining
  if left < count * entrySize then
    fail (invalidMedia "MP4 table entry count exceeds its box")
  else return count

/-- The bytes of a table's entries, behind their count. -/
def entries (entrySize : ℕ) : Reader (List UInt8) := do
  let count ← entryCount entrySize
  take (count * entrySize)

/-- Reads a field that is only there when `present`. -/
def optional {α : Type} (present : Bool) (field : Reader α) :
    Reader (Option α) :=
  if present then some <$> field else pure none

end Reader

end Segmentor
