import SlashCommand.Yaml.Scalar

/-!
# Properties and directives of YAML

In front of a value may stand its tag and an anchor, a name by which aliases elsewhere mean the same
value.  In front of a document may stand directives.  Those about versions and tags have a form of
their own, which is checked; what they say has no effect.

A tag is written in full between angle brackets, or with a handle: `!!` for the types that every
document knows, `!` for the document's own.
-/

namespace SlashCommand.Yaml

/-- A character that may stand in a tag. -/
def isTagChar (c : Char) : Bool :=
  isNameChar c || ";/?:@&=+$,.!~*'()[]%".toList.contains c

/-- Reads an escaped character of a tag: one octet, or two that are taken as one number. -/
def readOctets? : List Char → Option (Char × Nat)
  | '%' :: a :: b :: rest => do
    let octet := (← hexDigit? a) * 16 + (← hexDigit? b)
    if octet < 0x80 then some (← charOfNat? octet, 3)
    else if octet / 0x20 = 6 then
      match rest with
      | '%' :: c :: d :: _ => do
        let next := (← hexDigit? c) * 16 + (← hexDigit? d)
        if next / 0x40 = 2 then some (← charOfNat? (octet * 256 + next), 6) else none
      | _ => none
    else none
  | _ => none

/-- Reads the characters of a tag; `done` has those before them, last one first. -/
def readTagText (done : List Char) (c : Cursor) : Nat → Option (List Char × Cursor)
  | 0 => none
  | fuel + 1 =>
    match c.rest with
    | [] => some (done.reverse, c)
    | d :: _ =>
      if d = '%' then do
        let (e, size) ← readOctets? c.rest
        readTagText (e :: done) (c.advanceBy size) fuel
      else if isTagChar d then readTagText (d :: done) c.advance fuel
      else some (done.reverse, c)

/-- Reads the characters of a tag from the cursor on. -/
def Cursor.tagText (c : Cursor) : Option (List Char × Cursor) := readTagText [] c (c.rest.length + 1)

/-- The characters from the cursor on for which a test holds. -/
def Cursor.span (c : Cursor) (p : Char → Bool) : List Char × Cursor :=
  let cs := c.rest.takeWhile p
  (cs, c.advanceBy cs.length)

/-- Reads a handle: an exclamation mark, and perhaps a name and a further mark.  The last part of the
result says whether the further mark is there. -/
def Cursor.handle? (c : Cursor) : Option (List Char × Bool × Cursor) :=
  match c.rest with
  | '!' :: _ =>
    let (name, c) := c.advance.span isNameChar
    if c.rest.head? = some '!' then some (name, true, c.advance) else some (name, false, c)
  | _ => none

/-- The tag with a handle and a text. -/
def tagOf (handle : List Char) (closed : Bool) (text : List Char) : Tag :=
  if closed then if handle = [] then .core (String.ofList text) else .other
  else if handle = [] ∧ text = [] then .other
  else .own (String.ofList (handle ++ text))

/-- Reads a tag, behind which a blank or the end of the line has to stand. -/
def Cursor.tag? (c : Cursor) : Option (Tag × Cursor) := do
  let (tag, c) ←
    if (c.rest.drop 1).head? = some '<' then do
      let (text, c) ← (c.advanceBy 2).tagText
      if text ≠ [] ∧ c.rest.head? = some '>' then some (Tag.other, c.advance) else none
    else do
      let (handle, closed, c) ← c.handle?
      let (text, c) ← c.tagText
      if closed ∧ text = [] then none else some (tagOf handle closed text, c)
  if atGap c.rest then some (tag, c) else none

/-- Reads the name of an anchor or an alias. -/
def Cursor.anchorName? (c : Cursor) : Option (String × Cursor) :=
  let (name, c) := c.advance.span isNameChar
  let ended := atGap c.rest || c.rest.head?.any ("?:,]\x7d%@\x60".toList.contains ·)
  if name ≠ [] ∧ ended then some (String.ofList name, c) else none

/-- Skips blanks. -/
def Cursor.skipSpaces (c : Cursor) : Cursor := (c.span isSpace).2

/-- Reads one of the numbers of a version, which has at most nine digits. -/
def Cursor.versionPart? (c : Cursor) : Option Cursor :=
  let (digits, c) := c.span Char.isDigit
  if digits ≠ [] ∧ digits.length ≤ 9 then some c else none

/-- Reads a directive with its line break. -/
def Cursor.directive? (c : Cursor) : Option Cursor := do
  let (name, c) := c.advance.span isNameChar
  if name = [] ∨ !atGap c.rest then none
  else
    let c ← match String.ofList name with
      | "YAML" => do
        let c ← c.skipSpaces.versionPart?
        if c.rest.head? = some '.' then c.advance.versionPart? else none
      | "TAG" => do
        let (handle, closed, c) ← c.skipSpaces.handle?
        if handle ≠ [] ∧ !closed then none
        else
          let (text, c) ← c.skipSpaces.tagText
          if text ≠ [] ∧ atGap c.rest then some c else none
      | _ => some (c.span (!isBreak ·)).2
    endOfDirective? c.skipSpaces
where
  /-- The place behind the line break at the end of a directive, where a comment may stand. -/
  endOfDirective? (c : Cursor) : Option Cursor :=
    match c.rest with
    | [] => some c
    | d :: _ =>
      let c := if d = '#' then (c.span (!isBreak ·)).2 else c
      match c.rest with
      | [] => some c
      | d :: _ => if isBreak d then some c.advance else none

end SlashCommand.Yaml
