import SlashCommand.Datum.Basic

/-!
# Writing JSON

Two layouts: `compact` has no space at all, and `pretty` puts each item and member on a line of its
own, indented by two spaces for each enclosing list or record.  Both escape quotes, backslashes and
control characters, and nothing else.  An exponent that is not negative has a plus sign.
-/

namespace SlashCommand.Json

/-- The lower-case hexadecimal digit of a number below sixteen. -/
def hexChar (n : Nat) : Char := (Nat.toDigits 16 n).headD '0'

/-- A character inside quotes. -/
def escapeChar (c : Char) : List Char :=
  if c = '"' then ['\\', '"']
  else if c = '\\' then ['\\', '\\']
  else if c = '\n' then ['\\', 'n']
  else if c = '\r' then ['\\', 'r']
  else if c = '\t' then ['\\', 't']
  else if c = '\x08' then ['\\', 'b']
  else if c = '\x0c' then ['\\', 'f']
  else if c.toNat < 0x20 then ['\\', 'u', '0', '0', hexChar (c.toNat / 16), hexChar (c.toNat % 16)]
  else [c]

/-- A text in quotes. -/
def quote (s : String) : String :=
  String.ofList ('"' :: s.toList.flatMap escapeChar ++ ['"'])

mutual

/-- The text of a document without any space.  What exists for reading alone has no text of its own. -/
def compact : Datum → String
  | .null => "null"
  | .bool b => if b then "true" else "false"
  | .number n => n.text "e+"
  | .text s => quote s
  | .plain s => quote s
  | .tagged _ _ s => quote s
  | .list items => "[" ++ compactItems items ++ "]"
  | .record ms => "\x7b" ++ compactMembers ms ++ "\x7d"
  | .mapping _ => "null"
  | .unreadable => "null"

/-- The items of a list, separated by commas. -/
def compactItems : List Datum → String
  | [] => ""
  | [d] => compact d
  | d :: ds => compact d ++ "," ++ compactItems ds

/-- The members of a record, separated by commas. -/
def compactMembers : List (String × Datum) → String
  | [] => ""
  | [(k, d)] => quote k ++ ":" ++ compact d
  | (k, d) :: ms => quote k ++ ":" ++ compact d ++ "," ++ compactMembers ms

end

/-- The start of a line inside `level` lists and records. -/
def newline (level : Nat) : String := "\n" ++ String.ofList (List.replicate (2 * level) ' ')

mutual

/-- The text of a document that stands inside `level` lists and records, one item or member to a
line. -/
def prettyAt (level : Nat) : Datum → String
  | .list [] => "[]"
  | .list (d :: ds) => "[" ++ prettyItems (level + 1) (d :: ds) ++ newline level ++ "]"
  | .record [] => "\x7b\x7d"
  | .record (m :: ms) => "\x7b" ++ prettyMembers (level + 1) (m :: ms) ++ newline level ++ "\x7d"
  | d => compact d

/-- The items of a list, each on its line. -/
def prettyItems (level : Nat) : List Datum → String
  | [] => ""
  | [d] => newline level ++ prettyAt level d
  | d :: ds => newline level ++ prettyAt level d ++ "," ++ prettyItems level ds

/-- The members of a record, each on its line. -/
def prettyMembers (level : Nat) : List (String × Datum) → String
  | [] => ""
  | [(k, d)] => newline level ++ quote k ++ ": " ++ prettyAt level d
  | (k, d) :: ms =>
    newline level ++ quote k ++ ": " ++ prettyAt level d ++ "," ++ prettyMembers level ms

end

/-- The text of a document with indentation. -/
def pretty (d : Datum) : String := prettyAt 0 d

end SlashCommand.Json
