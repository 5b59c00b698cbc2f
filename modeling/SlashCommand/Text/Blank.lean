/-!
# Blank characters

Tokens of a command are separated by *blank* characters: those with the Unicode property
`White_Space`.  The property has twenty-five members, among them the no-break space and the
ideographic space, and not the zero-width space.

`isBlank` decides the property and `trim` removes blanks from both ends of a text.
-/

namespace SlashCommand.Text

/-- The Unicode property `White_Space`. -/
def isBlank (c : Char) : Bool :=
  let n := c.toNat
  (9 ≤ n && n ≤ 13) || n == 0x20 || n == 0x85 || n == 0xA0 || n == 0x1680 ||
    (0x2000 ≤ n && n ≤ 0x200A) || n == 0x2028 || n == 0x2029 || n == 0x202F || n == 0x205F ||
    n == 0x3000

/-- The text without the blanks at its end. -/
def trimEnd (s : String) : String :=
  String.ofList (s.toList.reverse.dropWhile isBlank).reverse

/-- The text without the blanks at both its ends. -/
def trim (s : String) : String :=
  trimEnd (String.ofList (s.toList.dropWhile isBlank))

/-- Some character of the text is blank. -/
def hasBlank (s : String) : Bool := s.toList.any isBlank

example : isBlank '\u00a0' = true := by decide
example : isBlank '\u200b' = false := by decide

end SlashCommand.Text
