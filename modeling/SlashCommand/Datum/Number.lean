import SlashCommand.Decimal.Shortest

/-!
# Numbers in documents

A number of a document is a whole number of sixty-four bits, signed or unsigned, or a floating-point
number.  The numeral decides which: one with a fraction or an exponent is a floating-point number, and
so are minus zero and a whole number that needs more than sixty-four bits.

A floating-point number is kept as its sixty-four bits.  Reading takes the digits that fit a
sixty-four-bit word and scales them by a power of ten with one rounding; a numeral beyond the largest
finite number has no value.  Writing uses the shortest decimal that reads back, and formats differ in
how they begin an exponent that is not negative.
-/

namespace SlashCommand

/-- A number of a document; `float` carries the bits of a floating-point number. -/
inductive Number where
  | whole (value : Int)
  | float (bits : UInt64)
deriving DecidableEq, Repr, Inhabited

/-- A numeral taken apart: sign, digits before and after the point, and the exponent if one is
written. -/
structure Numeral where
  negative : Bool
  digits : List Nat
  fraction : Option (List Nat)
  exponent : Option (Bool × List Nat)

namespace Numeral

/-- The value of a list of decimal digits. -/
def digitsValue (ds : List Nat) : Nat := ds.foldl (fun n d => n * 10 + d) 0

/-- The longest run of leading digits that keeps the significand in sixty-four bits, with the number
of digits that were taken. -/
def takeDigits (significand taken : Nat) : List Nat → Nat × Nat
  | [] => (significand, taken)
  | d :: ds =>
    if significand * 10 + d < Nat.pow 2 64 then takeDigits (significand * 10 + d) (taken + 1) ds
    else (significand, taken)

/-- The significand in sixty-four bits and the power of ten it is to be scaled by: digits before the
point that do not fit raise the exponent, digits behind the point lower it as long as they fit. -/
def significand (n : Numeral) : Nat × Int :=
  let (s, taken) := takeDigits 0 0 n.digits
  let dropped := n.digits.length - taken
  match n.fraction with
  | none => (s, dropped)
  | some fraction =>
    let (s, behind) := takeDigits s 0 fraction
    (s, (dropped : Int) - behind)

/-- Scales a finite number by a power of ten; `none` if the result is infinite.  Below the range of
the powers of ten the scaling goes in strides of 308. -/
def scale (f : Float) (e : Int) : Nat → Option Float
  | 0 => some f
  | fuel + 1 =>
    if e.natAbs ≤ 308 then
      let power := Float.ofScientific 1 false e.natAbs
      if 0 ≤ e then
        let g := f * power
        if g.isInf then none else some g
      else some (f / power)
    else if f == 0.0 then some f
    else if 0 ≤ e then none
    else scale (f / Float.ofScientific 1 false 308) (e + 308) fuel

/-- The floating-point reading of a numeral. -/
def toFloat? (n : Numeral) : Option UInt64 :=
  let (s, e) := n.significand
  let scaled : Option Float :=
    match n.exponent with
    | none => scale s.toUInt64.toFloat e 4
    | some (below, ds) =>
      let size := digitsValue ds
      if size ≥ Nat.pow 2 31 then
        if s ≠ 0 ∧ !below then none else some 0.0
      else
        let e := if below then e - size else e + size
        scale s.toUInt64.toFloat e ((e.natAbs / 308) + 2)
  scaled.map fun f => (if n.negative then -f else f).toBits

/-- The value of a numeral, if it has one. -/
def value? (n : Numeral) : Option Number :=
  let whole := digitsValue n.digits
  if n.fraction.isNone ∧ n.exponent.isNone then
    if n.negative then
      if 0 < whole ∧ whole ≤ Nat.pow 2 63 then some (.whole (-(whole : Int)))
      else n.toFloat?.map .float
    else if whole < Nat.pow 2 64 then some (.whole whole)
    else n.toFloat?.map .float
  else n.toFloat?.map .float

/-- Splits off the leading decimal digits. -/
def spanDigits : List Char → List Nat × List Char
  | [] => ([], [])
  | c :: cs =>
    if c.isDigit then
      let (ds, rest) := spanDigits cs
      ((c.toNat - '0'.toNat) :: ds, rest)
    else ([], c :: cs)

/-- The fraction of a numeral: a point and at least one digit, or nothing. -/
def spanFraction? : List Char → Option (Option (List Nat) × List Char)
  | '.' :: cs =>
    match spanDigits cs with
    | ([], _) => none
    | (ds, rest) => some (some ds, rest)
  | cs => some (none, cs)

/-- The exponent of a numeral: a mark, perhaps a sign, and at least one digit, or nothing. -/
def spanExponent? : List Char → Option (Option (Bool × List Nat) × List Char)
  | [] => some (none, [])
  | c :: cs =>
    if c = 'e' ∨ c = 'E' then
      let (below, cs) := match cs with
        | '-' :: cs => (true, cs)
        | '+' :: cs => (false, cs)
        | cs => (false, cs)
      match spanDigits cs with
      | ([], _) => none
      | (ds, rest) => some (some (below, ds), rest)
    else some (none, c :: cs)

/-- Reads a numeral: a whole part without leading zeros, and then perhaps a fraction and an
exponent. -/
def ofChars? (cs : List Char) : Option Numeral :=
  let (negative, cs) := match cs with
    | '-' :: cs => (true, cs)
    | cs => (false, cs)
  match spanDigits cs with
  | ([], _) => none
  | (0 :: _ :: _, _) => none
  | (ds, rest) => do
    let (fraction, rest) ← spanFraction? rest
    let (exponent, rest) ← spanExponent? rest
    if rest.isEmpty then some ⟨negative, ds, fraction, exponent⟩ else none

end Numeral

namespace Number

/-- The text of the decimal `d · 10 ^ k`.  Points are written positionally while the leading digit
stands between the fifth place behind the point and the sixteenth place before it, and such a text
always shows a fraction; beyond, one digit stands before the point and an exponent follows, which
begins with `rise` unless it is negative. -/
def decimalText (rise : String) (d : Nat) (k : Int) : String :=
  let digits := Nat.toDigits 10 d
  let point : Int := digits.length + k
  let text (cs : List Char) := String.ofList cs
  let zeros (n : Int) := List.replicate n.toNat '0'
  if 0 ≤ k ∧ point ≤ 16 then text (digits ++ zeros k ++ ['.', '0'])
  else if 0 < point ∧ point ≤ 16 then
    text (digits.take point.toNat ++ ['.'] ++ digits.drop point.toNat)
  else if -5 < point ∧ point ≤ 0 then text (['0', '.'] ++ zeros (-point) ++ digits)
  else
    let mantissa := if digits.length ≤ 1 then digits
      else digits.take 1 ++ ['.'] ++ digits.drop 1
    text mantissa ++ (if 0 ≤ point - 1 then rise else "e") ++ toString (point - 1)

/-- The text of a finite floating-point number given by its bits. -/
def floatText (rise : String) (bits : UInt64) : String :=
  let n := bits.toNat
  let field : Nat := n / Nat.pow 2 52 % Nat.pow 2 11
  let fraction : Nat := n % Nat.pow 2 52
  let sign := if n ≥ Nat.pow 2 63 then "-" else ""
  if field = 0 ∧ fraction = 0 then sign ++ "0.0"
  else
    let m := if field = 0 then fraction else Nat.pow 2 52 + fraction
    let q : Int := (if field = 0 then 1 else (field : Int)) - 1075
    let (d, k) := Decimal.shortest m q (fraction == 0 && 1 < field)
    sign ++ decimalText rise d k

/-- The number is neither infinite nor undefined. -/
def isFinite : Number → Bool
  | whole _ => true
  | float bits => bits.toNat / Nat.pow 2 52 % Nat.pow 2 11 != Nat.pow 2 11 - 1

/-- The text of a finite number. -/
def text (rise : String) : Number → String
  | whole n => toString n
  | float bits => floatText rise bits

end Number

end SlashCommand
