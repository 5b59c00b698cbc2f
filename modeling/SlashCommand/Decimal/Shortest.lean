/-!
# The shortest decimal that reads back

A binary floating-point number `m · 2 ^ q` is the nearest one to every real in an interval around it.
Its written form is the decimal with the fewest digits in that interval, and of those the one nearest
to the number.

`shortest` searches the decimal grids from coarse to fine: the grid of `n` digits has two neighbours
of the number, and the first grid with a neighbour inside the interval wins.  All comparisons are
between natural numbers, after the common denominator has been multiplied out.
-/

namespace SlashCommand.Decimal

/-- The reals that round to one number, over a common denominator: the number itself is
`value / unit`, and the interval goes from `low / unit` to `high / unit`, ends included if `closed`. -/
structure Interval where
  low : Nat
  value : Nat
  high : Nat
  unit : Nat
  closed : Bool

/-- The interval of `m · 2 ^ q`.  Below a power of two the numbers lie twice as dense, which
`narrow` says. -/
def Interval.ofBinary (m : Nat) (q : Int) (narrow : Bool) : Interval :=
  let scale := Nat.pow 2 (q - 2).toNat
  { low := (4 * m - if narrow then 1 else 2) * scale
    value := 4 * m * scale
    high := (4 * m + 2) * scale
    unit := Nat.pow 2 (2 - q).toNat
    closed := m % 2 == 0 }

/-- The interval in multiples of `10 ^ k`. -/
def Interval.scaled (i : Interval) (k : Int) : Interval :=
  let up := Nat.pow 10 (-k).toNat
  { low := i.low * up, value := i.value * up, high := i.high * up
    unit := i.unit * Nat.pow 10 k.toNat, closed := i.closed }

/-- The whole number `n` lies in the interval. -/
def Interval.contains (i : Interval) (n : Nat) : Bool :=
  if i.closed then i.low ≤ n * i.unit && n * i.unit ≤ i.high
  else i.low < n * i.unit && n * i.unit < i.high

/-- The whole number in the interval that is nearest to its value; a tie goes to the even one. -/
def Interval.nearest? (i : Interval) : Option Nat :=
  let below := i.value / i.unit
  let rest := i.value % i.unit
  let lowFirst := 2 * rest < i.unit || (2 * rest == i.unit && below % 2 == 0)
  let (first, second) := if lowFirst then (below, below + 1) else (below + 1, below)
  if i.contains first then some first
  else if i.contains second then some second
  else none

/-- The exponent of the leading digit of a positive quotient `a / b`: the `e` with
`10 ^ e ≤ a / b < 10 ^ (e + 1)`. -/
def leadingExponent (a b : Nat) : Int :=
  if b ≤ a then ((Nat.toDigits 10 (a / b)).length : Int) - 1
  else
    let digits := (Nat.toDigits 10 (b / a)).length
    if a * Nat.pow 10 (digits - 1) ≥ b then 1 - (digits : Int) else -(digits : Int)

/-- The digits and the exponent of the first grid, of `n` digits or more, that has a point in the
interval; `tries` bounds the search. -/
def Interval.search (i : Interval) (e : Int) : Nat → Nat → Nat × Int
  | n, 0 => (i.value / i.unit, e - n)
  | n, tries + 1 =>
    let k := e + 1 - n
    match (i.scaled k).nearest? with
    | some d => (d, k)
    | none => i.search e (n + 1) tries

/-- A decimal without zeros at its end. -/
def dropZeros (d : Nat) (k : Int) : Nat → Nat × Int
  | 0 => (d, k)
  | fuel + 1 => if d ≠ 0 ∧ d % 10 = 0 then dropZeros (d / 10) (k + 1) fuel else (d, k)

/-- The shortest decimal `d · 10 ^ k`, as the pair of `d` and `k`, for the number `m · 2 ^ q`;
seventeen digits always suffice for a mantissa of 53 bits. -/
def shortest (m : Nat) (q : Int) (narrow : Bool) : Nat × Int :=
  let i := Interval.ofBinary m q narrow
  let (d, k) := i.search (leadingExponent i.value i.unit) 1 17
  dropZeros d k 20

example : shortest (Nat.pow 2 52) (-52) true = (1, 0) := by decide +kernel

end SlashCommand.Decimal
