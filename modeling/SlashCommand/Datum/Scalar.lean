import SlashCommand.Datum.Basic

/-!
# What scalars mean by themselves

A plain or tagged scalar is a text to a field that wants one.  This module has the reading that it
has otherwise.

A plain scalar is nothing at all, a truth value, a number or else a text.  Whole numbers are decimal
without leading zeros, or have one of the marks `0x`, `0o` and `0b`; those that need more than
sixty-four bits are unreadable, and beyond a hundred and twenty-eight bits they are floating-point
numbers.  A decimal with a point or an exponent is the nearest floating-point number, unless that is
infinite.

A tagged scalar is read as its tag says, and is unreadable if it cannot be.  All tags but those of
truth values, numbers and nothing say that it is a text.
-/

namespace SlashCommand.Datum

/-- The value of a digit. -/
def digit? (base : Nat) (c : Char) : Option Nat :=
  let value :=
    if c.isDigit then c.toNat - 48
    else if 'a' ≤ c ∧ c ≤ 'f' then c.toNat - 87
    else if 'A' ≤ c ∧ c ≤ 'F' then c.toNat - 55
    else base
  if value < base then some value else none

/-- The value of one or more digits. -/
def digits? (base : Nat) : List Char → Option Nat
  | [] => none
  | cs => cs.foldlM (fun n c => (digit? base c).map (n * base + ·)) 0

/-- Splits off a sign; the first part says whether it is a minus. -/
def splitSign : List Char → Bool × List Char
  | '-' :: cs => (true, cs)
  | '+' :: cs => (false, cs)
  | cs => (false, cs)

/-- The number with a sign, if it is a whole number of sixty-four bits. -/
def inWord? (negative : Bool) (n : Nat) : Option Int :=
  if negative then if n ≤ Nat.pow 2 63 then some (-(n : Int)) else none
  else if n < Nat.pow 2 64 then some n else none

/-- The base that a mark behind a zero stands for. -/
def base? : Char → Option Nat
  | 'x' => some 16
  | 'o' => some 8
  | 'b' => some 2
  | _ => none

/-- The whole number that a plain scalar writes.  Behind a mark a further plus sign may stand, unless
there is a minus sign in front. -/
def plainInt? (s : String) : Option Int :=
  match splitSign s.toList with
  | (negative, '0' :: c :: ds) => do
    let base ← base? c
    let n ← digits? base (if negative then ds else if ds.head? = some '+' then ds.drop 1 else ds)
    inWord? negative n
  | (negative, ds) => (digits? 10 ds).map fun n => if negative then -(n : Int) else n

/-- The scalar has two or more digits, of which the first is a zero, and nothing else but a sign. -/
def isPadded (s : String) : Bool :=
  let ds := (splitSign s.toList).2
  1 < ds.length && ds.head? == some '0' && ds.all Char.isDigit

/-- The bits of the floating-point number nearest to `n · 10 ^ e`. -/
def nearestFloat (negative : Bool) (n : Nat) (e : Int) : UInt64 :=
  let leading : Int := (Nat.toDigits 10 n).length + e
  let f : Float :=
    if n = 0 ∨ leading < -400 then 0.0
    else if 400 < leading then 1.0 / 0.0
    else Float.ofScientific n (e < 0) e.natAbs
  (if negative then -f else f).toBits

/-- The floating-point number that a decimal writes; there is a digit in front of the point or behind
it. -/
def decimalFloat? (s : String) : Option Number :=
  let (negative, cs) := splitSign s.toList
  let (whole, rest) := Numeral.spanDigits cs
  let (fraction, rest) := match rest with
    | '.' :: rest => Numeral.spanDigits rest
    | rest => ([], rest)
  match Numeral.spanExponent? rest with
  | some (exponent, []) =>
    if whole = [] ∧ fraction = [] then none
    else
      let size : Int := match exponent with
        | none => 0
        | some (below, ds) =>
          if below then -(Numeral.digitsValue ds : Int) else Numeral.digitsValue ds
      some (.float (nearestFloat negative (Numeral.digitsValue (whole ++ fraction))
        (size - fraction.length)))
  | _ => none

/-- An infinite number. -/
def infinity (negative : Bool) : Number :=
  .float (if negative then 0xfff0000000000000 else 0x7ff0000000000000)

/-- An undefined number. -/
def undefined : Number := .float 0x7ff8000000000000

/-- The infinite or undefined number that a plain scalar writes. -/
def plainSpecial? (s : String) : Option Number :=
  let cs := s.toList
  if [".inf", ".Inf", ".INF"].contains (String.ofList (cs.dropWhile (· == '+'))) then
    some (infinity false)
  else if ["-.inf", "-.Inf", "-.INF"].contains s then some (infinity true)
  else if [".nan", ".NaN", ".NAN"].contains s then some undefined
  else none

/-- The infinite or undefined number that a word writes, in letters of either case. -/
def wordSpecial? (s : String) : Option Number :=
  let (negative, cs) := splitSign s.toList
  let word := String.ofList (cs.map Char.toLower)
  if word == "inf" || word == "infinity" then some (infinity negative)
  else if word == "nan" then some undefined
  else none

/-- The scalar writes that there is no value. -/
def writesNull (s : String) : Bool := s == "~" || s == "null"

/-- A plain scalar in its own reading. -/
def settlePlain (s : String) : Datum :=
  if writesNull s then .null
  else if s == "true" then .bool true
  else if s == "false" then .bool false
  else
    let float := (plainSpecial? s).or ((decimalFloat? s).filter Number.isFinite)
    match plainInt? s with
    | some n =>
      if -Int.pow 2 63 ≤ n ∧ n < Int.pow 2 64 then .number (.whole n)
      else if -Int.pow 2 127 ≤ n ∧ n < Int.pow 2 128 then .unreadable
      else (float.map .number).getD (.text s)
    | none => if isPadded s then .text s else (float.map .number).getD (.text s)

/-- A tagged scalar in the reading that its tag asks for. -/
def settleTagged (tag : Tag) (s : String) : Datum :=
  match tag with
  | .core "bool" => if s == "true" then .bool true else if s == "false" then .bool false else .unreadable
  | .core "int" =>
    let (negative, ds) := splitSign s.toList
    match digits? 10 ds with
    | some n =>
      if n < Nat.pow 2 63 ∨ negative ∧ n = Nat.pow 2 63 then
        .number (.whole (if negative then -(n : Int) else n))
      else .unreadable
    | none => .unreadable
  | .core "float" => (((decimalFloat? s).or (wordSpecial? s)).map .number).getD .unreadable
  | .core "null" => if writesNull s then .null else .unreadable
  | _ => .text s

/-- A document that is not a list or a record, with the reading that it has by itself. -/
def settleScalar : Datum → Datum
  | .plain s => settlePlain s
  | .tagged tag _ s => settleTagged tag s
  | d => d

/-- Whether the document says that there is no value.  That is not decided by a scalar that is tagged
so and is not quoted, but writes something else. -/
def isAbsent? : Datum → Option Bool
  | .null => some true
  | .plain s => some (writesNull s)
  | .tagged (.core "null") false s => if writesNull s then some true else none
  | _ => some false

/-- A key of a mapping after settling: a text, a number that names a place, or nothing, which no
member is called.  A number that is tagged as one names no place. -/
def settledKey (raw settled : Datum) : Datum :=
  match settled with
  | .text s => .text s
  | .number (.whole n) => if n < 0 ∨ raw matches .tagged .. then .null else .number (.whole n)
  | _ => .null

mutual

/-- The document with every scalar in its own reading, if nothing in it is unreadable. -/
def settled? : Datum → Option Datum
  | .null => some .null
  | .bool b => some (.bool b)
  | .number n => some (.number n)
  | .text s => some (.text s)
  | .plain s =>
    match settlePlain s with
    | .unreadable => none
    | d => some d
  | .tagged tag _ s =>
    match settleTagged tag s with
    | .unreadable => none
    | d => some d
  | .list items => (settledItems? items).map .list
  | .record ms => (settledMembers? ms).map .record
  | .mapping es => (settledEntries? es).map .mapping
  | .unreadable => none

/-- The items of a list, settled. -/
def settledItems? : List Datum → Option (List Datum)
  | [] => some []
  | d :: ds => do
    let d ← settled? d
    let ds ← settledItems? ds
    some (d :: ds)

/-- The members of a record, settled, in the order in which they are written. -/
def settledMembers? : List (String × Datum) → Option (List (String × Datum))
  | [] => some []
  | (k, d) :: ms => do
    let d ← settled? d
    let ms ← settledMembers? ms
    some ((k, d) :: ms)

/-- The entries of a mapping, settled, in the order in which they are written. -/
def settledEntries? : List (Datum × Datum) → Option (List (Datum × Datum))
  | [] => some []
  | (k, d) :: es => do
    let key ← settled? k
    let d ← settled? d
    let es ← settledEntries? es
    some ((settledKey k key, d) :: es)

end

/-- A scalar as the text that it is to a field that wants one. -/
def toText? : Datum → Option String
  | .text s => some s
  | .plain s => some s
  | .tagged _ _ s => some s
  | _ => none

/-- A number that is carried along; one that is infinite or undefined is no value. -/
def ofFinite (n : Number) : Datum := if n.isFinite then .number n else .null

mutual

/-- The document made of values alone: every scalar in its own reading, and every mapping as a record,
if its keys are texts and nothing in it is unreadable. -/
def resolved? : Datum → Option Datum
  | .null => some .null
  | .bool b => some (.bool b)
  | .number n => some (ofFinite n)
  | .text s => some (.text s)
  | .plain s =>
    match settlePlain s with
    | .unreadable => none
    | .number n => some (ofFinite n)
    | d => some d
  | .tagged tag _ s =>
    match settleTagged tag s with
    | .unreadable => none
    | .number n => some (ofFinite n)
    | d => some d
  | .list items => (resolvedItems? items).map .list
  | .record ms => (resolvedMembers? ms).map .record
  | .mapping es => (resolvedEntries? es).map .record
  | .unreadable => none

/-- The items of a list, resolved. -/
def resolvedItems? : List Datum → Option (List Datum)
  | [] => some []
  | d :: ds => do
    let d ← resolved? d
    let ds ← resolvedItems? ds
    some (d :: ds)

/-- The members of a record, resolved. -/
def resolvedMembers? : List (String × Datum) → Option (List (String × Datum))
  | [] => some []
  | (k, d) :: ms => do
    let d ← resolved? d
    let ms ← resolvedMembers? ms
    some ((k, d) :: ms)

/-- The entries of a mapping as the members of a record. -/
def resolvedEntries? : List (Datum × Datum) → Option (List (String × Datum))
  | [] => some []
  | (k, d) :: es => do
    let k ← toText? k
    let d ← resolved? d
    let ms ← resolvedEntries? es
    some ((k, d) :: ms)

end

end SlashCommand.Datum
