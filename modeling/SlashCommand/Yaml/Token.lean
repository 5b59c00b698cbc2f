import SlashCommand.Datum.Basic

/-!
# Tokens of YAML

The tokens of a text are its scalars, its marks of punctuation, and the starts and ends of lists and
records.  Those of a list or record in brackets or braces are written; those of a block follow from
the indentation, so each token is found together with its place.
-/

namespace SlashCommand.Yaml

/-- A place in a text: the number of characters before it, its line, and its column. -/
structure Place where
  index : Nat := 0
  line : Nat := 0
  column : Nat := 0

/-- The place behind a character.  Only a line feed begins a new line. -/
def Place.after (c : Char) (p : Place) : Place :=
  if c = '\n' then ⟨p.index + 1, p.line + 1, 0⟩ else ⟨p.index + 1, p.line, p.column + 1⟩

/-- The text that is left at a place. -/
structure Cursor where
  rest : List Char
  place : Place := {}

/-- The cursor behind the next character. -/
def Cursor.advance (c : Cursor) : Cursor :=
  match c.rest with
  | [] => c
  | d :: rest => ⟨rest, c.place.after d⟩

/-- The cursor behind the next `n` characters. -/
def Cursor.advanceBy (c : Cursor) : Nat → Cursor
  | 0 => c
  | n + 1 => c.advance.advanceBy n

/-- The tokens of a text.  A scalar that is neither quoted nor in a block of its own is plain. -/
inductive Token where
  | directive
  | documentStart
  | documentEnd
  | blockSequence
  | blockMapping
  | blockEnd
  | blockEntry
  | flowSequence
  | flowSequenceEnd
  | flowMapping
  | flowMappingEnd
  | flowEntry
  | key
  | value
  | anchor (name : String)
  | alias (name : String)
  | tag (tag : Tag)
  | scalar (text : String) (plain : Bool)
deriving DecidableEq, Repr

/-- A space or a tab. -/
def isSpace (c : Char) : Bool := c == ' ' || c == '\t'

/-- A character that breaks a line. -/
def isBreak (c : Char) : Bool := c == '\n' || c == '\r'

/-- The text ends, or goes on with a space, a tab or a line break. -/
def atGap : List Char → Bool
  | [] => true
  | c :: _ => isSpace c || isBreak c

/-- One of the characters that structure lists and records in brackets and braces. -/
def isFlow (c : Char) : Bool := c == ',' || c == '[' || c == ']' || c == '\x7b' || c == '\x7d'

/-- A line begins with three dashes or three dots, which separate documents. -/
def isMarker (mark : Char) (place : Place) (cs : List Char) : Bool :=
  place.column == 0 &&
    match cs with
    | a :: b :: d :: rest => a == mark && b == mark && d == mark && atGap rest
    | _ => false

/-- A character of the names of anchors and directives. -/
def isNameChar (c : Char) : Bool := c.isAlphanum || c == '_' || c == '-'

/-- The characters that a text means: a carriage return in front of a line feed is dropped, and a null
character ends the text. -/
def meant : List Char → List Char
  | '\x00' :: _ => []
  | '\r' :: '\n' :: cs => '\n' :: meant cs
  | c :: cs => c :: meant cs
  | [] => []

end SlashCommand.Yaml
