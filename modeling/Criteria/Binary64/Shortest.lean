import Criteria.Binary64.Basic

/-!
# Shortest decimal text

Among the decimals that read back as a given double, the one with the fewest
digits is printed; of several with that many digits, the nearest; of two equally
near, the one with the even last digit.

For each number of digits the candidates are the two neighbours of the value on
that decimal grid: if any point of the grid reads back, one of them does.  All
arithmetic is on exact fractions, so no step rounds.
-/

namespace Criteria

/-- The decimal `digits · 10 ^ exponent`. -/
structure Decimal where
  /-- The digits, read as one number. -/
  digits : Nat
  /-- The power of ten of the last digit. -/
  exponent : Int
deriving DecidableEq, Repr

namespace Decimal

/-- Trailing zeros moved into the exponent, at most `fuel` of them. -/
def trim : Nat → Decimal → Decimal
  | 0, d => d
  | fuel + 1, d =>
    if d.digits ≠ 0 ∧ d.digits % 10 = 0 then trim fuel ⟨d.digits / 10, d.exponent + 1⟩ else d

end Decimal

/-- A non-negative fraction. -/
structure Fraction where
  /-- The numerator. -/
  num : Nat
  /-- The denominator. -/
  den : Nat
deriving DecidableEq

namespace Fraction

/-- `n · 2 ^ e`. -/
def dyadic (n : Nat) (e : Int) : Fraction := ⟨n <<< e.toNat, 1 <<< (-e).toNat⟩

/-- `n · 10 ^ e`. -/
def decimal (n : Nat) (e : Int) : Fraction := ⟨n * Nat.pow 10 e.toNat, Nat.pow 10 (-e).toNat⟩

/-- Comparison by cross multiplication. -/
def le (x y : Fraction) : Bool := x.num * y.den ≤ y.num * x.den

/-- Strict comparison by cross multiplication. -/
def lt (x y : Fraction) : Bool := x.num * y.den < y.num * x.den

/-- How many whole steps of size `step` fit into `x`. -/
def floorDiv (x step : Fraction) : Nat := (x.num * step.den) / (x.den * step.num)

end Fraction

namespace Binary64

/-- The value without its sign. -/
def abs (x : Binary64) : Fraction := .dyadic x.significand x.unit

/-- The least fraction that can round to the double. -/
def lowEnd (x : Binary64) : Fraction :=
  if x.significand = hiddenBit ∧ x.unit > -1074 then .dyadic (4 * x.significand - 1) (x.unit - 2)
  else .dyadic (2 * x.significand - 1) (x.unit - 1)

/-- The greatest fraction that can round to the double. -/
def highEnd (x : Binary64) : Fraction := .dyadic (2 * x.significand + 1) (x.unit - 1)

/-- Whether a fraction rounds to the double; the ends do iff the significand is
even. -/
def covers (x : Binary64) (f : Fraction) : Bool :=
  if x.significand % 2 = 0 then x.lowEnd.le f && f.le x.highEnd
  else x.lowEnd.lt f && f.lt x.highEnd

/-- The exponent of the leading decimal digit of a nonzero double. -/
def decimalExponent (x : Binary64) : Int :=
  let v := x.abs
  let guess := (Rounding.binaryExponent v.num v.den * 30103) / 100000 + 1
  if (Fraction.decimal 1 guess).le v then guess
  else if (Fraction.decimal 1 (guess - 1)).le v then guess - 1
  else guess - 2

/-- The better of the two neighbours on the grid of the given exponent that read
back, if any does. -/
def onGrid? (x : Binary64) (exponent : Int) : Option Nat :=
  let low := x.abs.floorDiv (.decimal 1 exponent)
  let lowOk := x.covers (.decimal low exponent)
  let highOk := x.covers (.decimal (low + 1) exponent)
  -- Both neighbours are compared with the value through the midpoint between them.
  let middle := Fraction.decimal (10 * low + 5) (exponent - 1)
  match lowOk, highOk with
  | true, true =>
    if x.abs.lt middle then some low
    else if middle.lt x.abs then some (low + 1)
    else some (if low % 2 = 0 then low else low + 1)
  | true, false => some low
  | false, true => some (low + 1)
  | false, false => none

/-- The first grid with a candidate, from the coarsest on. -/
def searchGrids (x : Binary64) : Nat → Int → Decimal
  | 0, exponent => ⟨x.abs.floorDiv (.decimal 1 exponent), exponent⟩
  | fuel + 1, exponent =>
    match x.onGrid? exponent with
    | some digits => ⟨digits, exponent⟩
    | none => searchGrids x fuel (exponent - 1)

/-- The shortest decimal that reads back as the double. -/
def shortest (x : Binary64) : Decimal :=
  if x.magnitude = 0 then ⟨0, 0⟩
  else (x.searchGrids 17 x.decimalExponent).trim 20

/-- Digits with a point after the first `places` of them. -/
def pointAfter (digits : List Char) (places : Nat) : List Char :=
  let whole := digits.take places ++ List.replicate (places - digits.length) '0'
  let rest := digits.drop places
  whole ++ '.' :: (if rest.isEmpty then ['0'] else rest)

/-- The digits of a decimal, positional when its leading exponent lies between
-5 and 15, scientific otherwise; a positional text always has a fraction. -/
def decimalChars (d : Decimal) : List Char :=
  let digits := (Nat.repr d.digits).toList
  let leading : Int := d.exponent + digits.length - 1
  if leading < -5 ∨ 16 ≤ leading then
    let rest := digits.drop 1
    digits.take 1 ++ (if rest.isEmpty then [] else '.' :: rest)
      ++ 'e' :: (if leading < 0 then '-' else '+') :: (Nat.repr leading.natAbs).toList
  else if leading < 0 then
    '0' :: '.' :: List.replicate (leading.natAbs - 1) '0' ++ digits
  else pointAfter digits (leading.toNat + 1)

/-- The text of a double. -/
def text (x : Binary64) : String :=
  (if x.negative then "-" else "") ++ String.ofList (decimalChars x.shortest)

end Binary64

end Criteria
