import SlashCommand.Datum.Basic

/-!
# Writing YAML

A document is written in blocks, two spaces deeper for each level.  Inside a list the first member of
a record, or the first item of a list, stands on the line of the dash.  A text is put in quotes where
it would be read as something else or where it has characters that structure a document.
-/

namespace SlashCommand.Yaml

/-- Words that are read as a truth value or as no value. -/
def words : List String :=
  ["yes", "Yes", "YES", "no", "No", "NO", "True", "TRUE", "true", "False", "FALSE", "false", "on",
    "On", "ON", "off", "Off", "OFF", "null", "Null", "NULL", "~"]

/-- The digits at the front are followed by an exponent, or by nothing. -/
def isExponent (cs : List Char) : Bool :=
  match cs with
  | [] => true
  | c :: cs =>
    (c == 'e' || c == 'E') &&
      let ds := match cs with
        | '+' :: ds => ds
        | '-' :: ds => ds
        | ds => ds
      !ds.isEmpty && ds.all Char.isDigit

/-- The text is written like a number: an optional sign, and digits with at most one point among
them and an optional exponent, or a word for an infinite or undefined number. -/
def looksNumeric (s : String) : Bool :=
  let cs := match s.toList with
    | '+' :: cs => cs
    | '-' :: cs => cs
    | cs => cs
  let word := String.ofList (cs.map Char.toLower)
  if word == "inf" || word == "infinity" || word == "nan" then true
  else
    let whole := cs.takeWhile Char.isDigit
    match cs.dropWhile Char.isDigit with
    | '.' :: rest =>
      !(whole.isEmpty && (rest.takeWhile Char.isDigit).isEmpty) &&
        isExponent (rest.dropWhile Char.isDigit)
    | rest => !whole.isEmpty && isExponent rest

/-- A character that structures a document, or a control character. -/
def isStructural (c : Char) : Bool :=
  ":\x7b\x7d[],#\x60\"'\\".toList.contains c || c.toNat ≤ 6 || c == '\t' || c == '\n' || c == '\r' ||
    (0x0e ≤ c.toNat && c.toNat ≤ 0x1a) || (0x1c ≤ c.toNat && c.toNat ≤ 0x1f)

/-- A text that has to be in quotes. -/
def needsQuotes (s : String) : Bool :=
  let cs := s.toList
  cs.isEmpty || cs.head? == some ' ' || cs.getLast? == some ' ' ||
    cs.head?.any ("&*?|-<>=!%@".toList.contains ·) || cs.any isStructural || words.contains s ||
    cs.head? == some '.' || cs.take 2 == ['0', 'x'] || looksNumeric s

/-- A character inside quotes. -/
def escapeChar (c : Char) : List Char :=
  let hex (n : Nat) : Char := (Nat.toDigits 16 n).headD '0'
  if c = '"' then ['\\', '"']
  else if c = '\\' then ['\\', '\\']
  else if c = '\x08' then ['\\', 'b']
  else if c = '\t' then ['\\', 't']
  else if c = '\n' then ['\\', 'n']
  else if c = '\x0c' then ['\\', 'f']
  else if c = '\r' then ['\\', 'r']
  else if c.toNat < 0x20 ∨ c.toNat = 0x7f then
    ['\\', 'u', '0', '0', hex (c.toNat / 16), hex (c.toNat % 16)]
  else [c]

/-- The text of a text. -/
def scalarText (s : String) : String :=
  if needsQuotes s then String.ofList ('"' :: s.toList.flatMap escapeChar ++ ['"']) else s

/-- The start of a line at a level. -/
def lineStart (level : Nat) : String := "\n" ++ String.ofList (List.replicate (2 * level) ' ')

mutual

/-- The text of a document whose items or members stand at a level; the first of them is put where
the text begins. -/
def nodeText (level : Nat) : Datum → String
  | .null => "~"
  | .bool b => if b then "true" else "false"
  | .number n => n.text "e"
  | .text s => scalarText s
  | .plain s => s
  | .tagged _ _ s => s
  | .list [] => "[]"
  | .list (d :: ds) => "-" ++ itemText level d ++ itemsText level ds
  | .record [] => "\x7b\x7d"
  | .record ((k, d) :: ms) => scalarText k ++ ":" ++ memberText level d ++ membersText level ms
  | .mapping _ => "~"
  | .unreadable => "~"

/-- The text of an item behind its dash. -/
def itemText (level : Nat) (d : Datum) : String := " " ++ nodeText (level + 1) d

/-- The text of the further items of a list. -/
def itemsText (level : Nat) : List Datum → String
  | [] => ""
  | d :: ds => lineStart level ++ "-" ++ itemText level d ++ itemsText level ds

/-- The text of a member behind its colon. -/
def memberText (level : Nat) : Datum → String
  | .list (d :: ds) =>
    lineStart (level + 1) ++ "-" ++ itemText (level + 1) d ++ itemsText (level + 1) ds
  | .record ((k, d) :: ms) =>
    lineStart (level + 1) ++ scalarText k ++ ":" ++ memberText (level + 1) d ++
      membersText (level + 1) ms
  | d => " " ++ nodeText level d

/-- The text of the further members of a record. -/
def membersText (level : Nat) : List (String × Datum) → String
  | [] => ""
  | (k, d) :: ms =>
    lineStart level ++ scalarText k ++ ":" ++ memberText level d ++ membersText level ms

end

/-- The text of a document. -/
def write (d : Datum) : String := "---\n" ++ nodeText 0 d ++ "\n"

end SlashCommand.Yaml
