import SlashCommand.Datum.Basic

/-!
# Tokens of a JSON text

The lexer is an automaton that takes one character at a time and yields the tokens that the character
completes.  A word (a numeral or one of `true`, `false`, `null`) is complete only when the next
character cannot belong to it, so one character can complete a word and be a token of its own.

Inside quotes the lexer collects code points.  The escape `\u` may name half of a surrogate pair;
the halves are joined when the closing quote comes.  A text with a half that has no partner is well
formed and has no value.
-/

namespace SlashCommand.Json

/-- A token: a punctuation mark, a quoted text (`none` if it has no value), or any other scalar. -/
inductive Token where
  | openList
  | closeList
  | openRecord
  | closeRecord
  | comma
  | colon
  | text (value : Option String)
  | scalar (value : Datum)
deriving BEq, Repr

/-- The punctuation marks. -/
def mark? : Char → Option Token
  | '[' => some .openList
  | ']' => some .closeList
  | '\x7b' => some .openRecord
  | '\x7d' => some .closeRecord
  | ',' => some .comma
  | ':' => some .colon
  | _ => none

/-- Space between tokens. -/
def isSpace (c : Char) : Bool := c == ' ' || c == '\n' || c == '\t' || c == '\r'

/-- Joins the surrogate pairs in a list of code points. -/
def joinSurrogates : List Nat → Option (List Char)
  | [] => some []
  | a :: rest =>
    if 0xD800 ≤ a ∧ a < 0xDC00 then
      match rest with
      | b :: rest' =>
        if 0xDC00 ≤ b ∧ b < 0xE000 then
          (joinSurrogates rest').map
            (Char.ofNat (0x10000 + (a - 0xD800) * 0x400 + (b - 0xDC00)) :: ·)
        else none
      | [] => none
    else if 0xDC00 ≤ a ∧ a < 0xE000 then none
    else (joinSurrogates rest).map (Char.ofNat a :: ·)

/-- The code point that an escape of one character stands for. -/
def escape? : Char → Option Nat
  | '"' => some 0x22
  | '\\' => some 0x5C
  | '/' => some 0x2F
  | 'b' => some 8
  | 'f' => some 12
  | 'n' => some 10
  | 'r' => some 13
  | 't' => some 9
  | _ => none

/-- The value of a hexadecimal digit. -/
def hexDigit? (c : Char) : Option Nat :=
  if '0' ≤ c ∧ c ≤ '9' then some (c.toNat - '0'.toNat)
  else if 'a' ≤ c ∧ c ≤ 'f' then some (c.toNat - 'a'.toNat + 10)
  else if 'A' ≤ c ∧ c ≤ 'F' then some (c.toNat - 'A'.toNat + 10)
  else none

/-- The token of a complete word, given nearest character first.  A numeral has a finite value or
none. -/
def wordToken? (word : List Char) : Option Token :=
  match String.ofList word.reverse with
  | "null" => some (.scalar .null)
  | "true" => some (.scalar (.bool true))
  | "false" => some (.scalar (.bool false))
  | _ =>
    (Numeral.ofChars? word.reverse).map fun n =>
      .scalar (match n.value?.filter Number.isFinite with
        | some v => .number v
        | none => .unreadable)

/-- Where the lexer stands.  Collected characters and code points are kept nearest first. -/
inductive Lexer where
  | between
  | word (done : List Char)
  | quoted (units : List Nat)
  | escaped (units : List Nat)
  | codeUnit (units : List Nat) (value : Nat) (left : Nat)
deriving Repr

namespace Lexer

/-- A character between tokens. -/
def begin (c : Char) : Option Token × Lexer :=
  if isSpace c then (none, between)
  else if c = '"' then (none, quoted [])
  else match mark? c with
    | some t => (some t, between)
    | none => (none, word [c])

/-- Takes one character and yields the tokens it completes; `none` if no text continues so. -/
def step : Lexer → Char → Option (List Token × Lexer)
  | between, c =>
    let (t, l) := begin c
    some (t.toList, l)
  | word done, c =>
    if isSpace c ∨ c = '"' ∨ (mark? c).isSome then do
      let w ← wordToken? done
      let (t, l) := begin c
      some (w :: t.toList, l)
    else some ([], word (c :: done))
  | quoted units, c =>
    if c = '"' then some ([.text ((joinSurrogates units.reverse).map String.ofList)], between)
    else if c = '\\' then some ([], escaped units)
    else if c.toNat < 0x20 then none
    else some ([], quoted (c.toNat :: units))
  | escaped units, c =>
    if c = 'u' then some ([], codeUnit units 0 3)
    else (escape? c).map fun u => ([], quoted (u :: units))
  | codeUnit units value left, c =>
    (hexDigit? c).map fun d =>
      match left with
      | 0 => ([], quoted ((value * 16 + d) :: units))
      | left + 1 => ([], codeUnit units (value * 16 + d) left)

/-- The tokens that the end of the text completes. -/
def finish : Lexer → Option (List Token)
  | between => some []
  | word done => (wordToken? done).map ([·])
  | _ => none

end Lexer

end SlashCommand.Json
