import Segmentor.Error
import Segmentor.General.Pieces
import Mathlib.Data.List.DropRight
import Mathlib.Data.List.Sort

/-!
# Subtitle texts

A subtitle file is WebVTT, or is converted to it from SubRip or TTML.
`prepare` checks its cue timing lines and moves them onto the timeline of the
asset.  Reading the cues of a TTML document is a parameter.
-/

namespace Segmentor

open General

abbrev Text := List Char

/-! ## Characters and fields -/

/-- The characters with the Unicode property `White_Space`. -/
def isWhiteSpace (c : Char) : Bool :=
  (9 ≤ c.toNat && c.toNat ≤ 13) ||
    [0x20, 0x85, 0xa0, 0x1680, 0x2028, 0x2029, 0x202f, 0x205f, 0x3000].contains
      c.toNat ||
    (0x2000 ≤ c.toNat && c.toNat ≤ 0x200a)

def trimStart (text : Text) : Text :=
  text.dropWhile isWhiteSpace

def trimEnd (text : Text) : Text :=
  text.rdropWhile isWhiteSpace

def trim (text : Text) : Text :=
  trimEnd (trimStart text)

def isBlank (text : Text) : Bool :=
  text.all isWhiteSpace

/-- The length of the text in bytes. -/
def utf8Length (text : Text) : ℕ :=
  (text.map Char.utf8Size).sum

def arrow : Text := ['-', '-', '>']

/-- Whether a line holds a cue timing. -/
def hasArrow (line : Text) : Bool :=
  (splitOnce arrow line).isSome

def isLineEnd (c : Char) : Bool :=
  c == '\n' || c == '\r'

/-- Lines as Rust's `str::lines` has them. -/
def strLines (text : Text) : List Text :=
  (linesAt (· == '\n') text).map fun line =>
    if line.terminator = ['\n'] ∧ line.content.getLast? = some '\r' then
      line.content.dropLast
    else line.content

/-- A field of `least` to `most` decimal digits, ten at most. -/
def number (field : Text) (least most : ℕ) : Option ℕ :=
  if field.all Char.isDigit ∧ least ≤ field.length ∧ field.length ≤ most then
    some (Nat.ofDigitChars 10 field 0)
  else none

/-- A number in decimal. -/
def decimal (n : ℕ) : Text :=
  Nat.toDigits 10 n

/-- A number in decimal, at least `width` digits wide. -/
def padded (width n : ℕ) : Text :=
  let digits := Nat.toDigits 10 n
  List.replicate (width - digits.length) '0' ++ digits

/-- A clock's milliseconds, where they fit a word. -/
def clockMillis (hours minutes seconds milliseconds : ℕ) : Option ℕ :=
  if 60 ≤ minutes ∨ 60 ≤ seconds then none
  else do
    let total ← checkedMul (2 ^ 64) hours 3600000
    let total ← checkedAdd (2 ^ 64) total (minutes * 60000)
    let total ← checkedAdd (2 ^ 64) total (seconds * 1000)
    checkedAdd (2 ^ 64) total milliseconds

/-! ## WebVTT timing lines -/

/-- `[hh:]mm:ss.ttt` in milliseconds.  Hours may have more than two digits. -/
def parseTimestamp (text : Text) : Option ℕ := do
  let (clock, millis) ← splitAtFirst (· == '.') text
  let milliseconds ← number millis 3 3
  match clock.splitOn ':' with
  | [minutes, seconds] => do
      let minutes ← number minutes 2 2
      let seconds ← number seconds 2 2
      clockMillis 0 minutes seconds milliseconds
  | [hours, minutes, seconds] => do
      let hours ← number hours 2 10
      let minutes ← number minutes 2 2
      let seconds ← number seconds 2 2
      clockMillis hours minutes seconds milliseconds
  | _ => none

def formatTimestamp (milliseconds : ℕ) : Text :=
  padded 2 (milliseconds / 3600000) ++ ':' ::
    (padded 2 (milliseconds / 60000 % 60) ++ ':' ::
      (padded 2 (milliseconds / 1000 % 60) ++ '.' ::
        padded 3 (milliseconds % 1000)))

/-- `start --> end`. -/
def formatTiming (start stop : ℕ) : Text :=
  formatTimestamp start ++ ' ' :: (arrow ++ ' ' :: formatTimestamp stop)

/-- `start --> end settings`, with both times moved. -/
def shiftTimingLine (line : Text) (offsetMs : ℕ) : Option Text := do
  let (start, rest) ← splitOnce arrow line
  let rest := trimStart rest
  let (stop, settings) :=
    (splitAtFirst (fun c => c == ' ' || c == '\t') rest).getD (rest, [])
  let start ← parseTimestamp (trim start)
  let start ← checkedAdd (2 ^ 64) start offsetMs
  let stop ← parseTimestamp stop
  let stop ← checkedAdd (2 ^ 64) stop offsetMs
  some (formatTiming start stop ++
    if settings = [] then [] else ' ' :: trimStart settings)

/-- A line of a WebVTT file, moved if it is a timing line. -/
def shiftLine (offsetMs : ℕ) (line : Line Char) : Option (Line Char) :=
  if hasArrow line.content then
    (shiftTimingLine line.content offsetMs).map fun content =>
      { line with content := content }
  else some line

/-! ## Cues -/

/-- One cue: its times in milliseconds, and its text, already WebVTT. -/
structure Cue where
  start : ℕ
  stop : ℕ
  text : Text
  deriving DecidableEq, Repr

def webvtt : Text := ['W', 'E', 'B', 'V', 'T', 'T']

/-- The cues as a WebVTT file, in start order. -/
def webvttFrom (cues : List Cue) : Text :=
  webvtt ++ '\n' ::
    (cues.mergeSort fun a b => a.start ≤ b.start).flatMap fun cue =>
      '\n' :: (formatTiming cue.start cue.stop ++ '\n' :: (cue.text ++ ['\n']))

/-! ## SubRip -/

/-- `H:MM:SS,mmm` in milliseconds. -/
def srtTimestamp (text : Text) : Option ℕ := do
  let (clock, fraction) ← splitAtFirst (fun c => c == ',' || c == '.') text
  let _ ← number fraction 1 3
  match clock.splitOn ':' with
  | [hours, minutes, seconds] => do
      let hours ← number hours 1 10
      let minutes ← number minutes 1 2
      let seconds ← number seconds 1 2
      clockMillis hours minutes seconds
        (Nat.ofDigitChars 10
          (fraction ++ List.replicate (3 - fraction.length) '0') 0)
  | _ => none

/-- `start --> end`, with anything after the end time ignored. -/
def srtTiming (line : Text) : Option (ℕ × ℕ) := do
  let (start, rest) ← splitOnce arrow line
  let stop := (trimStart rest).takeWhile fun c => !isWhiteSpace c
  if stop = [] then none
  else
    let start ← srtTimestamp (trim start)
    let stop ← srtTimestamp stop
    some (start, stop)

def openBrace : Char := Char.ofNat 0x7b

def closeBrace : Char := Char.ofNat 0x7d

/-- What is before `c` within the first `most` bytes, and what follows it. -/
def nearest (c : Char) (most : ℕ) (text : Text) : Option (Text × Text) :=
  (splitAtFirst (· == c) text).filter fun parts => utf8Length parts.1 ≤ most

/-- The tags that stay in a cue. -/
def keptTag (tag : Text) : Bool :=
  ["b", "i", "u", "/b", "/i", "/u"].contains (String.ofList tag)

/-- The tags that are dropped from a cue. -/
def droppedTag (tag : Text) : Bool :=
  tag == "font".toList || tag == "/font".toList ||
    "font ".toList.isPrefixOf tag

/-- Whether all are digits of a number in hexadecimal or decimal, with a sign
before them or not. -/
def isNumber (hexadecimal : Bool) (digits : Text) : Bool :=
  let digits := if digits.head? = some '+' then digits.tail else digits
  !digits.isEmpty && digits.all fun c =>
    c.isDigit || (hexadecimal && "abcdefABCDEF".toList.contains c)

/-- Whether `name` is an entity a player knows. -/
def knownEntity (name : Text) : Bool :=
  ["amp", "lt", "gt", "nbsp", "lrm", "rlm"].contains (String.ofList name) ||
    match name with
    | '#' :: 'x' :: digits => isNumber true digits
    | '#' :: 'X' :: digits => isNumber true digits
    | '#' :: digits => isNumber false digits
    | _ => false

/-- One line of SubRip text as WebVTT cue text.  Each step takes at least one
character, so `fuel` is the length of the line. -/
def srtTextFuel : ℕ → Text → Text
  | 0, _ => []
  | _, [] => []
  | fuel + 1, c :: tail =>
      if c = openBrace ∧ tail.head? = some '\\' then
        match splitAtFirst (· == closeBrace) tail with
        | some (_, rest) => srtTextFuel fuel rest
        | none => openBrace :: srtTextFuel fuel tail
      else if c = '<' then
        match nearest '>' 64 tail with
        | some (inside, rest) =>
            let tag := (trim inside).map Char.toLower
            if keptTag tag then
              '<' :: (tag ++ '>' :: srtTextFuel fuel rest)
            else if droppedTag tag then srtTextFuel fuel rest
            else "&lt;".toList ++ srtTextFuel fuel tail
        | none => "&lt;".toList ++ srtTextFuel fuel tail
      else if c = '>' then "&gt;".toList ++ srtTextFuel fuel tail
      else if c = '&' then
        let known := (nearest ';' 8 tail).any fun parts => knownEntity parts.1
        (if known then ['&'] else "&amp;".toList) ++ srtTextFuel fuel tail
      else c :: srtTextFuel fuel tail

def srtText (line : Text) : Text :=
  srtTextFuel line.length line

/-- Every line end as `\n`. -/
def normalizeLineEnds : Text → Text
  | [] => []
  | '\r' :: '\n' :: text => '\n' :: normalizeLineEnds text
  | '\r' :: text => '\n' :: normalizeLineEnds text
  | c :: text => c :: normalizeLineEnds text

/-- The timing line a cue starts with and what follows it: the line itself, or
the next one if the line is the cue's number. -/
def srtOpening (line : Text) (lines : List Text) : Option (Text × List Text) :=
  if ¬ hasArrow line ∧ line.all Char.isDigit then
    match lines with
    | [] => none
    | next :: lines => some (trim next, lines)
  else some (line, lines)

/-- The cues of the lines, in file order, and whether a timing line was found;
nothing where one cannot be read.  Each step takes a line or more, so `fuel`
is the number of lines. -/
def srtCues : ℕ → List Text → Option (List Cue × Bool)
  | 0, _ => some ([], false)
  | _, [] => some ([], false)
  | fuel + 1, line :: lines =>
      let line := trim line
      if line = [] then srtCues fuel lines
      else
        match srtOpening line lines with
        | none => some ([], false)
        | some (timing, lines) =>
            if hasArrow timing then do
              let (start, stop) ← srtTiming timing
              let text := List.intercalate ['\n']
                ((lines.takeWhile fun line => !isBlank line).map fun line =>
                  srtText (trimEnd line))
              let (cues, _) ← srtCues fuel
                (lines.dropWhile fun line => !isBlank line)
              some
                (if start < stop ∧ ¬ isBlank text then
                  { start := start, stop := stop, text := text } :: cues
                else cues, true)
            else none

/-- Converts SubRip text to WebVTT. -/
def srtToWebvtt (body : Text) : Except String Text :=
  let lines := strLines (normalizeLineEnds body)
  match srtCues lines.length lines with
  | some (cues, true) => .ok (webvttFrom cues)
  | _ => .error "has a cue timing line that cannot be read"

/-- Whether the text reads as SubRip: a cue timing line within the first few
lines. -/
def looksLikeSrt (body : Text) : Bool :=
  ((((strLines body).map trim).filter fun line => !line.isEmpty).take 3).any
    hasArrow

/-! ## TTML -/

/-- What follows an optional XML declaration and comments; nothing where one
is not closed. -/
def skipProlog : ℕ → Text → Option Text
  | 0, text => some text
  | fuel + 1, '<' :: '?' :: after => do
      let (_, tail) ← splitOnce ['?', '>'] after
      skipProlog fuel (trimStart tail)
  | fuel + 1, '<' :: '!' :: '-' :: '-' :: after => do
      let (_, tail) ← splitOnce arrow after
      skipProlog fuel (trimStart tail)
  | _, text => some text

def byteOrderMark : Char := Char.ofNat 0xfeff

/-- The text without a byte order mark. -/
def stripMark : Text → Text
  | [] => []
  | c :: text => if c = byteOrderMark then text else c :: text

/-- Whether the text has a TTML root element: `tt`, with or without a prefix. -/
def looksLikeTtml (body : Text) : Bool :=
  match skipProlog body.length (trimStart (stripMark body)) with
  | some ('<' :: element) =>
      let name := element.takeWhile fun c =>
        !isWhiteSpace c && c != '>' && c != '/'
      (name.splitOn ':').getLast? == some ['t', 't']
  | _ => false

/-! ## Preparing a file -/

/-- Whether the text begins as a WebVTT file does. -/
def isWebvtt (body : Text) : Bool :=
  webvtt.isPrefixOf body &&
    match body.drop 6 with
    | [] => true
    | c :: _ => c == ' ' || c == '\t' || c == '\n' || c == '\r'

/-- The text that a file which is not WebVTT is converted to. -/
def convert (ttmlCues : Text → Except String (List Cue)) (body : Text) :
    Except String (Option Text) :=
  if isWebvtt body then .ok none
  else if looksLikeTtml body then do
    let cues ← ttmlCues body
    .ok (some (webvttFrom cues))
  else if looksLikeSrt body then do
    let text ← srtToWebvtt body
    .ok (some text)
  else
    .error "does not begin with WEBVTT and is neither SubRip (SRT) nor TTML"

/-- The text with every cue moved, where every timing line can be read. -/
def shiftBody (offsetMs : ℕ) (body : Text) : Option Text := do
  let lines ← (linesAt isLineEnd body).mapM (shiftLine offsetMs)
  some (lines.flatMap Line.text)

/-- Validates a file as WebVTT, or converts it, and moves every cue. -/
def prepareText (ttmlCues : Text → Except String (List Cue)) (data : ByteArray)
    (offsetMs : ℕ) : Except String ByteArray := do
  let text ← okOr (data.utf8Decode?.map Array.toList)
    "is not UTF-8 (convert the file to UTF-8)"
  let body := stripMark text
  let converted ← convert ttmlCues body
  let shifted ← okOr (shiftBody offsetMs (converted.getD body))
    "has a cue timing line that cannot be read"
  .ok (if offsetMs = 0 ∧ converted = none then data
    else (String.ofList shifted).toByteArray)

/-- `prepareText`, naming the language of a file that is refused. -/
def prepare (ttmlCues : Text → Except String (List Cue)) (language : String)
    (data : ByteArray) (offsetMs : ℕ) : Result ByteArray :=
  match prepareText ttmlCues data offsetMs with
  | .ok bytes => .ok bytes
  | .error reason =>
      .error (.invalidMedia ("subtitle `" ++ language ++ "`: " ++ reason))

end Segmentor
