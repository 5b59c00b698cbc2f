import Std.Data.ExtTreeMap

/-!
# Raw values

What a command line says about a field is a raw value: one token, or a bracketed list of tokens.
Which of the two a field holds is decided by the field, which either takes a list or does not.

`Values` maps field names to raw values.  It is an extensional map, so two commands that give every
field the same value give equal maps.
-/

namespace SlashCommand

/-- A map from names. -/
abbrev NameMap (α : Type) := Std.ExtTreeMap String α

/-- The raw value of a field, as written on the command line. -/
inductive Value where
  | scalar (token : String)
  | list (tokens : List String)
deriving DecidableEq, Repr, Inhabited

namespace Value

/-- The token of a scalar. -/
def asScalar? : Value → Option String
  | scalar token => some token
  | list _ => none

/-- The tokens of a value; a scalar is its own only token. -/
def tokens : Value → List String
  | scalar token => [token]
  | list ts => ts

/-- The value carries nothing: the empty text or the empty list. -/
def isEmpty : Value → Bool
  | scalar token => token == ""
  | list ts => ts.isEmpty

/-- The value as a list, if lists are asked for. -/
def asList (multiselect : Bool) : Value → Value
  | scalar token => if multiselect then list [token] else scalar token
  | list ts => list ts

/-- A single token as the value of a field that takes lists or not. -/
def ofToken (multiselect : Bool) (token : String) : Value :=
  if multiselect then list [token] else scalar token

end Value

/-- Raw values by field name. -/
abbrev Values := NameMap Value

end SlashCommand
