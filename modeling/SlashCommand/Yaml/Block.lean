import SlashCommand.Yaml.Token

/-!
# Block scalars of YAML

A block scalar begins with a bar or an angle bracket.  Behind it on the same line may stand how much
deeper than its surroundings it is indented, and what becomes of the line breaks at its end.  Its
lines follow, without their indentation; where none is given, the first line that is not blank shows
it.

Behind a bar the lines are kept as they are.  Behind an angle bracket a line break between two lines
that do not begin with a blank is read as a space, or is dropped where blank lines follow it.

The lines are collected in a `Block`, so that what was read of the text never has to be looked at
again: it is enough to know whether the last line was broken, how many blank lines followed it, and
whether it began with a blank.
-/

namespace SlashCommand.Yaml

/-- What becomes of the line breaks at the end of a block scalar: one is kept, none, or all. -/
inductive Chomping where
  | clip
  | strip
  | keep

/-- What stands at the head of a block scalar. -/
structure BlockHead where
  chomping : Chomping
  deeper : Option Nat

/-- What was read of a block scalar: its text up to the last line, last character first, whether a
line break ended that line, the number of blank lines behind it, and whether it began with a blank. -/
structure Block where
  done : List Char := []
  broken : Bool := false
  blankLines : Nat := 0
  spaced : Bool := false

namespace Block

/-- What stands between the last line and the next one, last character first. -/
def gap (folded spaced : Bool) (b : Block) : List Char :=
  let breaks := List.replicate b.blankLines '\n'
  if !b.broken then breaks
  else if folded && !b.spaced && !spaced then if b.blankLines = 0 then [' '] else breaks
  else '\n' :: breaks

/-- The block with a further line. -/
def line (folded : Bool) (text : List Char) (broken : Bool) (b : Block) : Block :=
  let spaced := text.head?.any isSpace
  ⟨text.reverse ++ b.gap folded spaced ++ b.done, broken, 0, spaced⟩

/-- The block with a further blank line. -/
def blankLine (b : Block) : Block := { b with blankLines := b.blankLines + 1 }

/-- The text of the block. -/
def text (chomping : Chomping) (b : Block) : String :=
  let final := if b.broken then ['\n'] else []
  String.ofList <| List.reverse <|
    match chomping with
    | .strip => b.done
    | .clip => final ++ b.done
    | .keep => List.replicate b.blankLines '\n' ++ final ++ b.done

end Block

/-- The sign that tells what becomes of the line breaks at the end. -/
def chomping? : Char → Option Chomping
  | '+' => some .keep
  | '-' => some .strip
  | _ => none

/-- Reads the head of a block scalar, a sign and a digit in either order, and says how many characters
it has. -/
def readBlockHead (cs : List Char) : BlockHead × Nat :=
  let depth? (c : Char) : Option Nat := if c.isDigit then some (c.toNat - 48) else none
  match cs.head?.bind chomping?, cs.head?.bind depth? with
  | some chomping, _ =>
    match (cs.drop 1).head?.bind depth? with
    | some n => (⟨chomping, some n⟩, 2)
    | none => (⟨chomping, none⟩, 1)
  | none, some n =>
    match (cs.drop 1).head?.bind chomping? with
    | some chomping => (⟨chomping, some n⟩, 2)
    | none => (⟨.clip, some n⟩, 1)
  | none, none => (⟨.clip, none⟩, 0)

/-- The place behind the next line break, if only blanks and a comment stand before it. -/
def restOfLine? (comment : Bool) (place : Place) : List Char → Option Cursor
  | [] => some ⟨[], place⟩
  | c :: cs =>
    if isBreak c then some ⟨cs, place.after c⟩
    else if comment || isSpace c then restOfLine? comment (place.after c) cs
    else if c = '#' then restOfLine? true (place.after c) cs
    else none

/-- Skips the blank lines at the start of a block scalar whose indentation is not given, and finds it:
that of the first other line, or of a blank line before it if that goes further.  A tab does not
indent. -/
def findIndent (deepest blankLines : Nat) (place : Place) :
    List Char → Option (Nat × Nat × Cursor)
  | [] => some (max deepest place.column, blankLines, ⟨[], place⟩)
  | c :: cs =>
    if c = ' ' then findIndent deepest blankLines (place.after c) cs
    else if c = '\t' then none
    else if isBreak c then
      findIndent (max deepest place.column) (blankLines + 1) (place.after c) cs
    else some (max deepest place.column, blankLines, ⟨c :: cs, place⟩)

/-- Reads the lines of a block scalar that is indented by `indent`; `line` is what was read of the
line, last character first, once its indentation is passed. -/
def readLines (folded : Bool) (indent : Nat) (b : Block) (line : Option (List Char)) (place : Place) :
    List Char → Option (Block × Cursor)
  | [] =>
    match line with
    | some line => some (b.line folded line.reverse false, ⟨[], place⟩)
    | none => some (b, ⟨[], place⟩)
  | c :: cs =>
    match line with
    | some line =>
      if isBreak c then
        readLines folded indent (b.line folded line.reverse true) none (place.after c) cs
      else readLines folded indent b (some (c :: line)) (place.after c) cs
    | none =>
      if c = ' ' ∧ place.column < indent then readLines folded indent b none (place.after c) cs
      else if c = '\t' ∧ place.column < indent then none
      else if isBreak c then readLines folded indent b.blankLine none (place.after c) cs
      else if place.column = indent then readLines folded indent b (some [c]) (place.after c) cs
      else some (b, ⟨c :: cs, place⟩)

/-- Reads a block scalar behind its first character, where lines that go on are indented by at least
`indent`. -/
def readBlock (folded : Bool) (indent : Nat) (c : Cursor) : Option (String × Cursor) := do
  let (head, size) := readBlockHead c.rest
  let c := c.advanceBy size
  let c ← restOfLine? false c.place c.rest
  let (indent, blankLines, c) ← match head.deeper with
    | some 0 => none
    | some n => some (indent - 1 + n, 0, c)
    | none => (findIndent 0 0 c.place c.rest).map fun (found, blankLines, c) =>
      (max 1 (max indent found), blankLines, c)
  let (b, c) ← readLines folded indent { blankLines } none c.place c.rest
  some (b.text head.chomping, c)

end SlashCommand.Yaml
