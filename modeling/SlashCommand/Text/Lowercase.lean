import SlashCommand.Text.CaseTable

/-!
# Lower case

`lowercase` is the full Unicode lower-casing of a text.  It goes character by character, with two
exceptions.  The dotted capital `İ` becomes two characters, an `i` and a combining dot.  The capital
sigma becomes the final `ς` at the end of a word and `σ` elsewhere; it ends a word when a letter
with a case stands before it and none after it, where case-ignorable characters in between do not
count.
-/

namespace SlashCommand.Text

/-- The simple lower-case mapping of one character. -/
def lowerChar (c : Char) : Char :=
  if c.toNat < 128 then c.toLower
  else match lowerRuns.find? (·.contains c.toNat) with
    | some run => Char.ofNat (c.toNat + run.offset).toNat
    | none => c

/-- After the case-ignorable characters comes one with a case. -/
def startsCased (cs : List Char) : Bool :=
  match cs.dropWhile (fun c => inRanges caseIgnorableRanges c.toNat) with
  | c :: _ => inRanges casedRanges c.toNat
  | [] => false

/-- The lower case of a capital sigma between the characters `before` (nearest first) and `after`. -/
def lowerSigma (before after : List Char) : Char :=
  if startsCased before && !startsCased after then 'ς' else 'σ'

/-- The lower case of a list of characters that stands after the characters `before` (nearest
first). -/
def lowerAfter (before : List Char) : List Char → List Char
  | [] => []
  | c :: cs =>
    (if c = 'Σ' then [lowerSigma before cs]
      else if c = 'İ' then ['i', '\u0307']
      else [lowerChar c]) ++ lowerAfter (c :: before) cs

/-- The full lower case of a text. -/
def lowercase (s : String) : String := String.ofList (lowerAfter [] s.toList)

/-- Equality up to case, as labels and flags are compared. -/
def eqIgnoreCase (s t : String) : Bool := lowercase s == lowercase t

end SlashCommand.Text
