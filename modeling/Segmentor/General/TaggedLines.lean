import Segmentor.General.Delimited

/-!
# Lines, and tags with attribute lists

A text of lines, some of them tags with a list of attributes: `#NAME:A=1,B="x"`.
A plain value ends at the next comma and a quoted one at the next quote, so a
text that holds what ends it would be read as something else.  Lines whose
values hold neither are read back as they were written.
-/

namespace Segmentor.General.TaggedLines

inductive Value
  | plain (raw : List Char)
  | quoted (raw : List Char)
  deriving DecidableEq, Repr

/-- An attribute's name and value. -/
abbrev Attribute := List Char × Value

inductive Line
  /-- A line as it stands: a URI, or a tag without an attribute list. -/
  | text (raw : List Char)
  | tag (name : List Char) (attributes : List Attribute)
  deriving DecidableEq, Repr

/-! ## Writing -/

def Value.write : Value → List Char
  | .plain raw => raw
  | .quoted raw => '"' :: (raw ++ ['"'])

def writeAttribute (named : Attribute) : List Char :=
  named.1 ++ '=' :: named.2.write

/-- The attributes with commas between them. -/
def writeAttributes : List Attribute → List Char
  | [] => []
  | [only] => writeAttribute only
  | first :: others => writeAttribute first ++ ',' :: writeAttributes others

def Line.write : Line → List Char
  | .text raw => raw
  | .tag name attributes => '#' :: (name ++ ':' :: writeAttributes attributes)

/-- Every line with its end. -/
def write (lines : List Line) : List Char :=
  lines.flatMap fun line => line.write ++ ['\n']

/-! ## Reading -/

def readValue : List Char → Option (Value × List Char)
  | '"' :: rest =>
      match rest.dropWhile (· != '"') with
      | '"' :: after => some (.quoted (rest.takeWhile (· != '"')), after)
      | _ => none
  | input =>
      some (.plain (input.takeWhile (· != ',')), input.dropWhile (· != ','))

def readAttributes : ℕ → List Char → Option (List Attribute)
  | 0, _ => none
  | fuel + 1, input =>
      let name := input.takeWhile (· != '=')
      match input.dropWhile (· != '=') with
      | '=' :: rest => do
          let (value, rest) ← readValue rest
          match rest with
          | [] => some [(name, value)]
          | ',' :: rest => do
              let others ← readAttributes fuel rest
              some ((name, value) :: others)
          | _ => none
      | _ => none

/-- A line; the tags in `isTag` have attribute lists. -/
def readLine (isTag : List Char → Bool) : List Char → Option Line
  | '#' :: rest =>
      let name := rest.takeWhile (· != ':')
      if isTag name then
        match rest.dropWhile (· != ':') with
        | ':' :: list =>
            (readAttributes (list.length + 1) list).map (.tag name)
        | _ => none
      else some (.text ('#' :: rest))
  | raw => some (.text raw)

/-- The lines of a text, every one of them ended. -/
def read (isTag : List Char → Bool) (input : List Char) :
    Option (List Line) :=
  let lines := input.splitOn '\n'
  if lines.getLast? = some [] then lines.dropLast.mapM (readLine isTag)
  else none

/-! ## What keeps its place -/

def Value.Fits : Value → Prop
  | .plain raw => Free [',', '"', '\n', '\r'] raw
  | .quoted raw => Free ['"', '\n', '\r'] raw

instance : DecidablePred Value.Fits
  | .plain _ => inferInstanceAs (Decidable (Free _ _))
  | .quoted _ => inferInstanceAs (Decidable (Free _ _))

/-- A tag with its attributes, none of whose texts holds what would end it. -/
structure TagFits (isTag : List Char → Bool) (name : List Char)
    (attributes : List Attribute) : Prop where
  is_tag : isTag name = true
  name_free : Free [':', '\n', '\r'] name
  nonempty : attributes ≠ []
  names_free : ∀ named ∈ attributes, Free ['=', '\n', '\r'] named.1
  values_fit : ∀ named ∈ attributes, named.2.Fits

def Line.Fits (isTag : List Char → Bool) : Line → Prop
  | .text raw =>
      Free ['\n', '\r'] raw ∧ readLine isTag raw = some (.text raw)
  | .tag name attributes => TagFits isTag name attributes

/-- The quoted strings of a line. -/
def Line.quoted : Line → List (List Char)
  | .text _ => []
  | .tag _ attributes => attributes.filterMap fun named =>
      match named.2 with
      | .plain _ => none
      | .quoted raw => some raw

variable {isTag : List Char → Bool}

end Segmentor.General.TaggedLines
