import SlashCommand.Yaml.Block
import SlashCommand.Yaml.Property

/-!
# Finding the tokens of YAML

The lexer goes through a text from left to right.  Two things it learns late.

A key is known by the colon behind it.  Wherever one may begin, the lexer keeps the place and the
number of tokens before it, for each list or record in brackets that is open and for the block around
them; when a colon follows on the same line, the tokens that begin the key, and if need be the record,
are put where they belong.

The end of a block is known by the indentation of what follows.  The lexer keeps the columns of the
open blocks, and closes those that are deeper than the next token.
-/

namespace SlashCommand.Yaml

/-- A place where a key may have begun, and the number of tokens before it.  A key that is required
has to turn out to be one. -/
structure Candidate where
  place : Place
  count : Nat
  required : Bool

/-- The lexer: the text that is left, the tokens found, last one first, and their number; the candidates
for keys and the columns of the open blocks, innermost first; whether a key may begin here; and the
number of characters up to the end of the last quoted scalar, where a colon needs no blank behind
it. -/
structure Lexer where
  cursor : Cursor
  tokens : List Token := []
  count : Nat := 0
  candidate : Option Candidate := none
  outer : List (Option Candidate) := []
  columns : List Nat := []
  keyAllowed : Bool := true
  quoteEnd : Option Nat := none

namespace Lexer

/-- The lexer is inside brackets or braces. -/
def inFlow (l : Lexer) : Bool := !l.outer.isEmpty

/-- The column that lines of the innermost block are indented by at least, where they go on. -/
def indent (l : Lexer) : Nat :=
  match l.columns with
  | [] => 0
  | column :: _ => column + 1

/-- Adds a token. -/
def push (t : Token) (l : Lexer) : Lexer := { l with tokens := t :: l.tokens, count := l.count + 1 }

/-- Puts a token behind the first `n` tokens. -/
def insert (n : Nat) (t : Token) (l : Lexer) : Lexer :=
  let later := l.count - n
  { l with
    tokens := l.tokens.take later ++ t :: l.tokens.drop later
    count := l.count + 1 }

/-- Moves over a number of characters. -/
def advance (n : Nat) (l : Lexer) : Lexer := { l with cursor := l.cursor.advanceBy n }

/-- Moves to another place. -/
def goto (c : Cursor) (l : Lexer) : Lexer := { l with cursor := c }

/-- Says whether a key may begin next. -/
def allowKey (allowed : Bool) (l : Lexer) : Lexer := { l with keyAllowed := allowed }

/-- Opens a block at a column that no open block reaches. -/
def openBlock (column position : Nat) (t : Token) (l : Lexer) : Lexer :=
  if l.inFlow || column < l.indent then l
  else { l.insert position t with columns := column :: l.columns }

/-- Closes the blocks that are deeper than a column. -/
def closeBlocks (column : Nat) (l : Lexer) : Lexer :=
  if l.inFlow then l
  else
    let deeper := l.columns.takeWhile (column < ·)
    { l with
      tokens := List.replicate deeper.length .blockEnd ++ l.tokens
      count := l.count + deeper.length
      columns := l.columns.drop deeper.length }

/-- Closes all blocks. -/
def closeAllBlocks (l : Lexer) : Lexer :=
  if l.inFlow then l
  else
    { l with
      tokens := List.replicate l.columns.length .blockEnd ++ l.tokens
      count := l.count + l.columns.length
      columns := [] }

/-- Gives up the candidate for a key. -/
def dropCandidate (l : Lexer) : Option Lexer :=
  if l.candidate.any (·.required) then none else some { l with candidate := none }

/-- Keeps this place as a candidate for a key, if one may begin here. -/
def markCandidate (l : Lexer) : Option Lexer :=
  if !l.keyAllowed then some l
  else do
    let l ← l.dropCandidate
    let place := l.cursor.place
    some { l with
      candidate := some ⟨place, l.count, l.inFlow && l.columns.head? == some place.column⟩ }

/-- The candidate, unless it can be none any more: a key is on one line with its colon, and has at most
1024 characters. -/
def freshen (place : Place) (candidate : Option Candidate) : Option (Option Candidate) :=
  match candidate with
  | none => some none
  | some c =>
    if c.place.line < place.line ∨ c.place.index + 1024 < place.index then
      if c.required then none else some none
    else some (some c)

/-- Gives up the candidates that can be no keys any more. -/
def dropStale (l : Lexer) : Option Lexer := do
  let candidate ← freshen l.cursor.place l.candidate
  let outer ← l.outer.mapM (freshen l.cursor.place)
  some { l with candidate, outer }

/-- Skips blanks, line breaks and comments.  Behind a line break of a block a key may begin, and where
one may begin a tab is no blank. -/
def skipGap (inFlow keyAllowed comment : Bool) (place : Place) : List Char → Cursor × Bool
  | [] => (⟨[], place⟩, keyAllowed)
  | c :: cs =>
    if isBreak c then skipGap inFlow (keyAllowed || !inFlow) false (place.after c) cs
    else if comment ∨ c = '#' then skipGap inFlow keyAllowed true (place.after c) cs
    else if c = ' ' ∨ c = '\t' ∧ (inFlow ∨ !keyAllowed) then
      skipGap inFlow keyAllowed false (place.after c) cs
    else (⟨c :: cs, place⟩, keyAllowed)

/-- Moves to the next token. -/
def skipToToken (l : Lexer) : Lexer :=
  let (c, allowed) := skipGap l.inFlow l.keyAllowed false l.cursor.place l.cursor.rest
  { l with cursor := c, keyAllowed := allowed }

/-- Reads a directive. -/
def lexDirective (l : Lexer) : Option Lexer := do
  let l ← l.closeAllBlocks.dropCandidate
  let c ← l.cursor.directive?
  some ((l.goto c).push .directive |>.allowKey false)

/-- Reads a separator of documents. -/
def lexMarker (t : Token) (l : Lexer) : Option Lexer := do
  let l ← l.closeAllBlocks.dropCandidate
  some ((l.advance 3).push t |>.allowKey false)

/-- Reads an opening bracket or brace.  At most 255 of them may be open. -/
def lexFlowStart (t : Token) (l : Lexer) : Option Lexer := do
  let l ← l.markCandidate
  if l.outer.length < 255 then
    let l := { l with outer := l.candidate :: l.outer, candidate := none }
    some ((l.advance 1).push t |>.allowKey true)
  else none

/-- Reads a closing bracket or brace. -/
def lexFlowEnd (t : Token) (l : Lexer) : Option Lexer := do
  let l ← l.dropCandidate
  let l := match l.outer with
    | [] => l
    | candidate :: outer => { l with candidate, outer }
  some ((l.advance 1).push t |>.allowKey false)

/-- Reads a comma. -/
def lexFlowEntry (l : Lexer) : Option Lexer := do
  let l ← l.dropCandidate
  some ((l.advance 1).push .flowEntry |>.allowKey true)

/-- Reads the dash of an item. -/
def lexBlockEntry (l : Lexer) : Option Lexer :=
  if l.inFlow || !l.keyAllowed then none
  else do
    let l ← (l.openBlock l.cursor.place.column l.count .blockSequence).dropCandidate
    some ((l.advance 1).push .blockEntry |>.allowKey true)

/-- Reads the question mark of a key. -/
def lexKey (l : Lexer) : Option Lexer :=
  if !l.inFlow && !l.keyAllowed then none
  else do
    let l ← (l.openBlock l.cursor.place.column l.count .blockMapping).dropCandidate
    some ((l.advance 1).push .key |>.allowKey (!l.inFlow))

/-- Reads the colon of a value. -/
def lexValue (l : Lexer) : Option Lexer :=
  match l.candidate with
  | some c =>
    let l := (l.insert c.count .key).openBlock c.place.column c.count .blockMapping
    some (({ l with candidate := none }.advance 1).push .value |>.allowKey false)
  | none =>
    if !l.inFlow && !l.keyAllowed then none
    else
      let l := l.openBlock l.cursor.place.column l.count .blockMapping
      some ((l.advance 1).push .value |>.allowKey (!l.inFlow))

/-- Reads an anchor or an alias. -/
def lexAnchor (token : String → Token) (l : Lexer) : Option Lexer := do
  let l ← l.markCandidate
  let (name, c) ← l.cursor.anchorName?
  some ((l.goto c).push (token name) |>.allowKey false)

/-- Reads a tag. -/
def lexTag (l : Lexer) : Option Lexer := do
  let l ← l.markCandidate
  let (tag, c) ← l.cursor.tag?
  some ((l.goto c).push (.tag tag) |>.allowKey false)

/-- Reads a block scalar. -/
def lexBlockScalar (folded : Bool) (l : Lexer) : Option Lexer := do
  let l ← l.markCandidate
  let (text, c) ← readBlock folded l.indent l.cursor.advance
  some ((l.goto c).push (.scalar text false) |>.allowKey true)

/-- Reads a quoted scalar. -/
def lexQuoted (read : Place → List Char → Option (String × Cursor)) (l : Lexer) : Option Lexer := do
  let l ← l.markCandidate
  let start := l.cursor.advance
  let (text, c) ← read start.place start.rest
  let l := { l.goto c with quoteEnd := some c.place.index }
  some (l.push (.scalar text false) |>.allowKey false)

/-- Reads a plain scalar. -/
def lexPlain (l : Lexer) : Option Lexer := do
  let l ← l.markCandidate
  let (text, broken, c) ← readPlain l.inFlow l.indent [] .none l.cursor.place l.cursor.rest
  some ((l.goto c).push (.scalar text true) |>.allowKey broken)

/-- Reads the token that begins with the character `c`; `cs` is what follows it. -/
def lexToken (c : Char) (cs : List Char) (l : Lexer) : Option Lexer :=
  let place := l.cursor.place
  let atValue := atGap cs ||
    l.inFlow && (cs.head?.any isFlow || l.quoteEnd == some place.index)
  if c = '%' ∧ place.column = 0 then l.lexDirective
  else if isMarker '-' place (c :: cs) then l.lexMarker .documentStart
  else if isMarker '.' place (c :: cs) then l.lexMarker .documentEnd
  else if c = '[' then l.lexFlowStart .flowSequence
  else if c = '\x7b' then l.lexFlowStart .flowMapping
  else if c = ']' then l.lexFlowEnd .flowSequenceEnd
  else if c = '\x7d' then l.lexFlowEnd .flowMappingEnd
  else if c = ',' then l.lexFlowEntry
  else if c = '-' ∧ atGap cs then l.lexBlockEntry
  else if c = '?' ∧ atGap cs then l.lexKey
  else if c = ':' ∧ atValue then l.lexValue
  else if c = '*' then l.lexAnchor .alias
  else if c = '&' then l.lexAnchor .anchor
  else if c = '!' then l.lexTag
  else if c = '|' ∧ !l.inFlow then l.lexBlockScalar false
  else if c = '>' ∧ !l.inFlow then l.lexBlockScalar true
  else if c = '\'' then l.lexQuoted (readSingle [] .none)
  else if c = '"' then l.lexQuoted (readDouble [] .none .open)
  else if c = '%' ∨ c = '@' ∨ c = '\x60' then none
  else l.lexPlain

/-- Reads the tokens that are left; each step reads at least one character. -/
def run (l : Lexer) : Nat → Option (List Token)
  | 0 => none
  | fuel + 1 => do
    let l ← l.skipToToken.dropStale
    match l.cursor.rest with
    | [] => do
      let l ← l.closeAllBlocks.dropCandidate
      some l.tokens.reverse
    | c :: cs =>
      let l ← (l.closeBlocks l.cursor.place.column).lexToken c cs
      l.run fuel

end Lexer

/-- The tokens of a text. -/
def tokens? (text : String) : Option (List Token) :=
  let cs := meant text.toList
  Lexer.run { cursor := ⟨cs, {}⟩ } (cs.length + 1)

end SlashCommand.Yaml
