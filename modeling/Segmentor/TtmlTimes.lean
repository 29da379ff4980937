import Segmentor.HttpMessages

/-!
# Times of TTML documents

A time expression is a clock time or an offset in one of six metrics, and the
root of the document says how many frames and ticks a second has.  Where an
operation that is not checked leaves the range of its type, there is no time.
-/

namespace Segmentor.Ttml

open General

/-! ## Parameters of the root -/

/-- What the root makes of times in frames and in ticks. -/
structure Timing where
  /-- Frames per second, as a fraction. -/
  frames : ℕ × ℕ
  ticksPerSecond : ℕ
  deriving DecidableEq, Repr

/-- The words of a text, as Rust's `split_whitespace` has them. -/
def splitWhitespace (text : Text) : List Text :=
  (text.splitOnP isWhiteSpace).filter fun word => !word.isEmpty

/-- The frame rate, times the multiplier's first number over its second. -/
def frameRate (rate : ℕ) : Option Text → Except String (ℕ × ℕ)
  | none => .ok (rate, 1)
  | some multiplier =>
      match (splitWhitespace multiplier).map (parseUnsigned (2 ^ 64)) with
      | some top :: some bottom :: _ =>
          if top = 0 ∨ bottom = 0 then
            .error "has a frame rate multiplier that cannot be read"
          else .ok (saturatingMul (2 ^ 64) rate top, bottom)
      | _ => .error "has a frame rate multiplier that cannot be read"

/-- The frame and tick rates of a root element, by the local names of its
attributes. -/
def readParameters (attributes : String → Option Text) :
    Except String Timing :=
  let number := fun name =>
    (attributes name).bind fun text => parseUnsigned (2 ^ 64) (trim text)
  if (attributes "timeBase").any fun base => base != "media".toList then
    .error "uses a time base other than media, which is not supported"
  else do
    let rate := number "frameRate"
    let frames ← frameRate (rate.getD 30) (attributes "frameRateMultiplier")
    if frames.1 = 0 then .error "has a frame rate of zero"
    else
      let subFrames := (number "subFrameRate").getD 1
      let ticks := ((number "tickRate").or
        (rate.map fun rate => saturatingMul (2 ^ 64) rate subFrames)).getD 1
      if ticks = 0 then .error "has a tick rate of zero"
      else .ok { frames := frames, ticksPerSecond := ticks }

/-! ## Numbers -/

/-- Why an expression has no time: it cannot be read, or an operation that is
not checked overflowed. -/
inductive TimeFailure
  | unreadable
  | overflow
  deriving DecidableEq, Repr

/-- What is before the first point of a text, and what follows it. -/
def atPoint (text : Text) : Text × Option Text :=
  match splitAtFirst (· == '.') text with
  | some (whole, fraction) => (whole, some fraction)
  | none => (text, none)

/-- A number of milliseconds that fits a word. -/
def word (milliseconds : ℕ) : Except TimeFailure ℕ :=
  if milliseconds < 2 ^ 64 then .ok milliseconds else .error .unreadable

/-- The digits before a point; there may be none. -/
def wholeNumber (digits : Text) : Option ℕ :=
  if digits = [] then some 0 else parseUnsigned (2 ^ 128) digits

/-- `value` over `unit` times a fraction, rounded to the nearest. -/
def nearestQuotient (value unit numerator denominator : ℕ) :
    Except TimeFailure ℕ := do
  let numerator ← okOr (checkedMul (2 ^ 128) value numerator) .unreadable
  let denominator ← okOr (checkedMul (2 ^ 128) unit denominator) .unreadable
  let rounded ←
    okOr (checkedAdd (2 ^ 128) numerator (denominator / 2)) .unreadable
  word (rounded / denominator)

/-- A decimal number times a fraction, rounded to the nearest whole number.
Nine digits after the point count. -/
def scaled (number : Text) (numerator denominator : ℕ) :
    Except TimeFailure ℕ :=
  let whole := (atPoint number).1
  let fraction := (atPoint number).2.getD []
  if (whole = [] ∧ fraction = []) ∨ ¬ (whole ++ fraction).all Char.isDigit then
    .error .unreadable
  else do
    let fraction := fraction.take 9
    let unit := 10 ^ fraction.length
    let whole ← okOr (wholeNumber whole) .unreadable
    let value ← okOr (checkedMul (2 ^ 128) whole unit) .unreadable
    -- the one sum of two parts that is not checked
    let value ← okOr
      (checkedAdd (2 ^ 128) value (Nat.ofDigitChars 10 fraction 0)) .overflow
    nearestQuotient value unit numerator denominator

/-! ## Clock times -/

def frameTime (frames : ℕ) (timing : Timing) : Except TimeFailure ℕ := do
  let thousand ← okOr (checkedMul (2 ^ 128) frames 1000) .overflow
  let numerator ← okOr (checkedMul (2 ^ 128) thousand timing.frames.2) .overflow
  let rounded ←
    okOr (checkedAdd (2 ^ 128) numerator (timing.frames.1 / 2)) .overflow
  word (rounded / timing.frames.1)

/-- A number of milliseconds and one part more, where they fit a word. -/
def addPart (milliseconds part : ℕ) : Except TimeFailure ℕ :=
  okOr (checkedAdd (2 ^ 64) milliseconds part) .unreadable

/-- The fields of a clock time, and its frames where it has some. -/
def clockFields (text : Text) :
    Except TimeFailure (Text × Text × Text × Option Text) :=
  match text.splitOn ':' with
  | [hours, minutes, seconds] => .ok (hours, minutes, seconds, none)
  | [hours, minutes, seconds, frames] =>
      .ok (hours, minutes, seconds, some frames)
  | _ => .error .unreadable

/-- The milliseconds of whole hours, minutes and seconds. -/
def wholeClock (hours minutes seconds : Text) : Except TimeFailure ℕ := do
  let hours ← okOr (number hours 2 10) .unreadable
  let minutes ←
    okOr ((number minutes 2 2).filter fun minutes => minutes < 60) .unreadable
  let seconds ←
    okOr ((number seconds 2 2).filter fun seconds => seconds < 60) .unreadable
  let milliseconds ← okOr (checkedMul (2 ^ 64) hours 3600000) .unreadable
  let minutes ← okOr (checkedMul (2 ^ 64) minutes 60000) .overflow
  let milliseconds ← addPart milliseconds minutes
  let seconds ← okOr (checkedMul (2 ^ 64) seconds 1000) .overflow
  addPart milliseconds seconds

/-- The digits after the point are a decimal fraction of a second. -/
def addFraction (milliseconds : ℕ) : Option Text → Except TimeFailure ℕ
  | none => .ok milliseconds
  | some fraction => do
      let part ← scaled ('0' :: '.' :: fraction) 1000 1
      addPart milliseconds part

/-- Frames, of which sub-frames are not counted. -/
def addFrames (milliseconds : ℕ) (timing : Timing) :
    Option Text → Except TimeFailure ℕ
  | none => .ok milliseconds
  | some frames => do
      let count ← okOr (number (atPoint frames).1 2 10) .unreadable
      let part ← frameTime count timing
      addPart milliseconds part

/-- `hh:mm:ss`, with a fraction or without, and with frames or without. -/
def clockTime (text : Text) (timing : Timing) : Except TimeFailure ℕ := do
  let (hours, minutes, seconds, frames) ← clockFields text
  let milliseconds ← wholeClock hours minutes (atPoint seconds).1
  let milliseconds ← addFraction milliseconds (atPoint seconds).2
  addFrames milliseconds timing frames

/-! ## Offsets -/

/-- What an offset is counted in, in the order in which they are tried. -/
inductive Metric
  | milliseconds
  | hours
  | minutes
  | seconds
  | frames
  | ticks
  deriving DecidableEq, Repr

def Metric.suffix : Metric → Text
  | milliseconds => ['m', 's']
  | hours => ['h']
  | minutes => ['m']
  | seconds => ['s']
  | frames => ['f']
  | ticks => ['t']

def metrics : List Metric :=
  [.milliseconds, .hours, .minutes, .seconds, .frames, .ticks]

/-- What is before the suffix the text ends with. -/
def stripSuffix (suffix text : Text) : Option Text :=
  if suffix.isSuffixOf text then
    some (text.take (text.length - suffix.length))
  else none

/-- The number of an offset, and the first metric it ends with. -/
def splitMetric (text : Text) : Option (Text × Metric) :=
  metrics.findSome? fun metric =>
    (stripSuffix metric.suffix text).map fun number => (number, metric)

def offsetTime (text : Text) (timing : Timing) : Except TimeFailure ℕ := do
  let (number, metric) ← okOr (splitMetric text) .unreadable
  match metric with
  | .hours => scaled number 3600000 1
  | .minutes => scaled number 60000 1
  | .seconds => scaled number 1000 1
  | .milliseconds => scaled number 1 1
  | .frames => do
      -- a product of two words that is not checked
      let numerator ←
        okOr (checkedMul (2 ^ 64) 1000 timing.frames.2) .overflow
      scaled number numerator timing.frames.1
  | .ticks => scaled number 1000 timing.ticksPerSecond

/-- A time expression in milliseconds. -/
def parseTime (text : Text) (timing : Timing) : Except TimeFailure ℕ :=
  let text := trim text
  if text.contains ':' then clockTime text timing else offsetTime text timing

end Segmentor.Ttml
