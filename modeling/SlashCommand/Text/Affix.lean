/-!
# Prefixes of a text

Labels, options and names are offered when what was typed is a prefix of them, and mentions lose
their leading mark before they are looked up.  Both tests read a text as its list of characters, so
that the list library speaks about them.
-/

namespace SlashCommand.Text

/-- `p` is a prefix of `s`. -/
def hasPrefix (p s : String) : Bool := p.toList.isPrefixOf s.toList

/-- What follows the list `p` in a list that starts with it. -/
def afterPrefix? : List Char → List Char → Option (List Char)
  | [], s => some s
  | _ :: _, [] => none
  | a :: p, b :: s => if a = b then afterPrefix? p s else none

/-- What follows `p` in `s`, if `s` starts with it. -/
def dropPrefix? (p s : String) : Option String :=
  (afterPrefix? p.toList s.toList).map String.ofList

/-- The text without its first character, if that is `c`. -/
def dropLeading (c : Char) (s : String) : String :=
  match s.toList with
  | d :: rest => if d = c then String.ofList rest else s
  | [] => s

/-- Equality up to the case of the twenty-six ASCII letters. -/
def eqIgnoreAsciiCase (s t : String) : Bool :=
  s.toList.map Char.toLower == t.toList.map Char.toLower

theorem afterPrefix?_eq_some_iff {p s r : List Char} :
    afterPrefix? p s = some r ↔ s = p ++ r := by
  induction p generalizing s with
  | nil => simp [afterPrefix?]
  | cons a p ih =>
    cases s with
    | nil => simp [afterPrefix?]
    | cons b s =>
      by_cases h : a = b
      · simp [afterPrefix?, h, ih]
      · simp [afterPrefix?, h, Ne.symm h]

end SlashCommand.Text
