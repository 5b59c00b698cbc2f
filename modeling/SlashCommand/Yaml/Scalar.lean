import SlashCommand.Yaml.Token

/-!
# Scalars of YAML

A scalar is plain or quoted, and either may go on over several lines.  Where it does, the blanks
around a line break are dropped; a single break is read as a space, and of several breaks one is
dropped.  In double quotes a backslash at the end of a line takes the break away.

Single quotes take everything verbatim except that two of them stand for one; double quotes have
escapes.  A plain scalar ends before a colon or a comment that is set off by a blank, before a line
that is indented too little and, inside brackets and braces, before their punctuation.  What stands
between it and the next token belongs to it.
-/

namespace SlashCommand.Yaml

/-- What stands between two words of a scalar: blanks on one line, line breaks, or a break that a
backslash takes away and further ones. -/
inductive Gap where
  | blanks (reversed : List Char)
  | breaks (count : Nat)
  | joined (further : Nat)

namespace Gap

/-- No gap. -/
def none : Gap := .blanks []

/-- The gap after a further blank. -/
def blank (c : Char) : Gap → Gap
  | .blanks cs => .blanks (c :: cs)
  | gap => gap

/-- The gap after a further line break. -/
def newline : Gap → Gap
  | .blanks _ => .breaks 1
  | .breaks n => .breaks (n + 1)
  | .joined n => .joined (n + 1)

/-- There is no gap. -/
def isNone : Gap → Bool
  | .blanks [] => true
  | _ => false

/-- The gap goes over a line break. -/
def isBroken : Gap → Bool
  | .blanks _ => false
  | _ => true

/-- What the gap is read as, last character first. -/
def fold : Gap → List Char
  | .blanks cs => cs
  | .breaks n => if n = 1 then [' '] else List.replicate (n - 1) '\n'
  | .joined n => List.replicate n '\n'

/-- A separator of documents begins a line behind the gap. -/
def atMarker (gap : Gap) (place : Place) (cs : List Char) : Bool :=
  gap.isBroken && (isMarker '-' place cs || isMarker '.' place cs)

end Gap

/-- Reads a plain scalar on, in a block whose lines are indented by at least `indent`; `done` is what
was read of it, last character first.  The result also says whether a line break stands at its end.
A tab does not indent. -/
def readPlain (flow : Bool) (indent : Nat) (done : List Char) (gap : Gap) (place : Place) :
    List Char → Option (String × Bool × Cursor)
  | [] => some (String.ofList done.reverse, gap.isBroken, ⟨[], place⟩)
  | c :: cs =>
    if c = '\t' ∧ gap.isBroken ∧ place.column < indent then none
    else if isSpace c then readPlain flow indent done (gap.blank c) (place.after c) cs
    else if isBreak c then readPlain flow indent done gap.newline (place.after c) cs
    else if gap.isBroken && !flow && place.column < indent || gap.atMarker place (c :: cs) ||
        !gap.isNone && c == '#' ||
        c == ':' && (atGap cs || flow && cs.head?.any isFlow) ||
        flow && isFlow c then
      some (String.ofList done.reverse, gap.isBroken, ⟨c :: cs, place⟩)
    else readPlain flow indent (c :: (gap.fold ++ done)) .none (place.after c) cs

/-- Reads a scalar in single quotes on, up to the closing quote. -/
def readSingle (done : List Char) (gap : Gap) (place : Place) :
    List Char → Option (String × Cursor)
  | [] => none
  | '\'' :: '\'' :: cs =>
    readSingle ('\'' :: (gap.fold ++ done)) .none ((place.after '\'').after '\'') cs
  | '\'' :: cs => some (String.ofList (gap.fold ++ done).reverse, ⟨cs, place.after '\''⟩)
  | c :: cs =>
    if isSpace c then readSingle done (gap.blank c) (place.after c) cs
    else if isBreak c then readSingle done gap.newline (place.after c) cs
    else if gap.atMarker place (c :: cs) then none
    else readSingle (c :: (gap.fold ++ done)) .none (place.after c) cs

/-- The character that a backslash and a letter stand for. -/
def escaped? : Char → Option Char
  | '0' => some '\x00'
  | 'a' => some '\x07'
  | 'b' => some '\x08'
  | 't' => some '\t'
  | '\t' => some '\t'
  | 'n' => some '\n'
  | 'v' => some '\x0b'
  | 'f' => some '\x0c'
  | 'r' => some '\r'
  | 'e' => some '\x1b'
  | ' ' => some ' '
  | '"' => some '"'
  | '\'' => some '\''
  | '\\' => some '\\'
  | 'N' => some '\u0085'
  | '_' => some '\u00a0'
  | 'L' => some '\u2028'
  | 'P' => some '\u2029'
  | _ => none

/-- The number of hexadecimal digits that follow a backslash and a letter. -/
def hexWidth? : Char → Option Nat
  | 'x' => some 2
  | 'u' => some 4
  | 'U' => some 8
  | _ => none

/-- The value of a hexadecimal digit. -/
def hexDigit? (c : Char) : Option Nat :=
  if c.isDigit then some (c.toNat - 48)
  else if 'a' ≤ c ∧ c ≤ 'f' then some (c.toNat - 87)
  else if 'A' ≤ c ∧ c ≤ 'F' then some (c.toNat - 55)
  else none

/-- The character of a number, unless it is a surrogate or too large. -/
def charOfNat? (n : Nat) : Option Char :=
  if h : n.isValidChar then some (Char.ofNatAux n h) else none

/-- Where the reader stands in double quotes: between characters, behind a backslash, or behind some
of the hexadecimal digits of an escape. -/
inductive QuoteState where
  | open
  | escape
  | hex (missing value : Nat)

/-- Reads a scalar in double quotes on, up to the closing quote. -/
def readDouble (done : List Char) (gap : Gap) (state : QuoteState) (place : Place) :
    List Char → Option (String × Cursor)
  | [] => none
  | c :: cs =>
    match state with
    | .hex missing value => do
      let value := value * 16 + (← hexDigit? c)
      if missing ≤ 1 then
        let d ← charOfNat? value
        readDouble (d :: done) .none .open (place.after c) cs
      else readDouble done .none (.hex (missing - 1) value) (place.after c) cs
    | .escape =>
      if isBreak c then readDouble done (.joined 0) .open (place.after c) cs
      else
        match hexWidth? c with
        | some width => readDouble done .none (.hex width 0) (place.after c) cs
        | none => do
          let d ← escaped? c
          readDouble (d :: done) .none .open (place.after c) cs
    | .open =>
      if c = '"' then some (String.ofList (gap.fold ++ done).reverse, ⟨cs, place.after c⟩)
      else if c = '\\' then readDouble (gap.fold ++ done) .none .escape (place.after c) cs
      else if isSpace c then readDouble done (gap.blank c) .open (place.after c) cs
      else if isBreak c then readDouble done gap.newline .open (place.after c) cs
      else if gap.atMarker place (c :: cs) then none
      else readDouble (c :: (gap.fold ++ done)) .none .open (place.after c) cs

end SlashCommand.Yaml
