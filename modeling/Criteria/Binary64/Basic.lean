/-!
# Finite binary64 numbers

A finite double is a sign and a magnitude, the 63 low bits of its encoding.
Magnitudes are ordered as the values they encode, so comparing two doubles is
comparing two integers (`Binary64.order`), and both zeros sit at the same place.

Every magnitude is `position · 2 ^ 52 + digits`: adding one to the position
doubles the spacing of the grid.  This makes rounding one formula
(`Rounding.magnitude`) for subnormal, normal and overflowing results: a carry
out of the digits is the step to the next position.
-/

namespace Criteria

/-- A finite double. -/
structure Binary64 where
  /-- Whether the sign bit is set. -/
  negative : Bool
  /-- Exponent and fraction bits, read as one number. -/
  magnitude : Nat
  /-- Infinities and what lies above them are left out. -/
  finite : magnitude < 0x7FF0000000000000
deriving DecidableEq

namespace Binary64

/-- The least magnitude that is not a finite number. -/
def infinity : Nat := 0x7FF0000000000000

/-- The least magnitude whose significand has its full length; also the place of
the leading bit there, which the encoding leaves out. -/
def hiddenBit : Nat := 0x10000000000000

/-- Positive zero. -/
def zero : Binary64 := ⟨false, 0, by decide⟩

instance : Inhabited Binary64 := ⟨zero⟩

/-- The place of a double on the number line. -/
def order (x : Binary64) : Int :=
  if x.negative then -(x.magnitude : Int) else x.magnitude

/-- The 64 bits of the encoding. -/
def bits (x : Binary64) : Nat :=
  (if x.negative then 0x8000000000000000 else 0) + x.magnitude

/-- Numeric equality: the two zeros are equal. -/
def same (x y : Binary64) : Bool := x.order == y.order

/-- Numeric comparison. -/
def compare (x y : Binary64) : Ordering := Ord.compare x.order y.order

/-- A double with the given sign and magnitude, unless it overflows. -/
def ofMagnitude? (negative : Bool) (magnitude : Nat) : Option Binary64 :=
  if h : magnitude < infinity then some ⟨negative, magnitude, h⟩ else none

/-- The significand and the binary exponent of its unit: the value is
`significand · 2 ^ unit`. -/
def significand (x : Binary64) : Nat :=
  if x.magnitude < hiddenBit then x.magnitude else hiddenBit + x.magnitude % hiddenBit

/-- The exponent of the unit in the last place. -/
def unit (x : Binary64) : Int :=
  if x.magnitude < hiddenBit then -1074 else (x.magnitude / hiddenBit : Nat) - 1075

end Binary64

namespace Rounding

/-- The exponent of the leading binary digit of `num / den`. -/
def binaryExponent (num den : Nat) : Int :=
  let guess : Int := (Nat.log2 num : Int) - Nat.log2 den
  if den <<< guess.toNat ≤ num <<< (-guess).toNat then guess else guess - 1

/-- The exponent of the spacing of doubles around `num / den`. -/
def spacing (num den : Nat) : Int := max (-1074) (binaryExponent num den - 52)

/-- The quotient rounded to the nearest integer, a half to the even one. -/
def divideToEven (num den : Nat) : Nat :=
  let quotient := num / den
  let twice := 2 * (num % den)
  if twice < den ∨ (twice = den ∧ quotient % 2 = 0) then quotient else quotient + 1

/-- The magnitude of the double nearest to `num / den`, ties to even; too large
a quotient gives a magnitude beyond the finite ones. -/
def magnitude (num den : Nat) : Nat :=
  if num = 0 then 0
  else
    let exponent := spacing num den
    (exponent + 1074).toNat * Binary64.hiddenBit
      + divideToEven (num <<< (-exponent).toNat) (den <<< exponent.toNat)

theorem divideToEven_le (num den : Nat) : divideToEven num den ≤ num / den + 1 := by
  simp only [divideToEven]; split <;> omega

theorem binaryExponent_one {n : Nat} (hn : n ≠ 0) : binaryExponent n 1 = Nat.log2 n := by
  have h1 : Nat.log2 1 = 0 := by decide
  have h : 1 <<< Nat.log2 n ≤ n := by
    simpa [Nat.shiftLeft_eq] using Nat.log2_self_le hn
  simp [binaryExponent, h1, h]

/-- A whole number of at most 64 binary digits never overflows. -/
theorem magnitude_lt_infinity {n : Nat} (h : n < 0x10000000000000000) :
    magnitude n 1 < Binary64.infinity := by
  unfold magnitude
  by_cases hn : n = 0
  · simp [hn, Binary64.infinity]
  · have hlt : n < 2 ^ (Nat.log2 n + 1) := Nat.lt_log2_self
    have hL : Nat.log2 n < 64 := (Nat.log2_lt hn).2 h
    have hs : spacing n 1 = (Nat.log2 n : Int) - 52 := by
      simp only [spacing, binaryExponent_one hn]; omega
    simp only [if_neg hn, hs, Nat.shiftLeft_eq, Nat.one_mul]
    generalize Nat.log2 n = L at *
    have key : n * 2 ^ (-((L : Int) - 52)).toNat / 2 ^ ((L : Int) - 52).toNat < 2 ^ 53 := by
      by_cases hc : 52 ≤ L
      · have e1 : (-((L : Int) - 52)).toNat = 0 := by omega
        have e2 : ((L : Int) - 52).toNat = L - 52 := by omega
        rw [e1, e2, Nat.pow_zero, Nat.mul_one]
        apply Nat.div_lt_of_lt_mul
        rw [← Nat.pow_add]
        have : L - 52 + 53 = L + 1 := by omega
        rwa [this]
      · have e1 : (-((L : Int) - 52)).toNat = 52 - L := by omega
        have e2 : ((L : Int) - 52).toNat = 0 := by omega
        rw [e1, e2, Nat.pow_zero, Nat.div_one]
        have : (2 : Nat) ^ 53 = 2 ^ (L + 1) * 2 ^ (52 - L) := by
          rw [← Nat.pow_add]; congr 1; omega
        rw [this]
        exact Nat.mul_lt_mul_of_pos_right hlt (Nat.two_pow_pos _)
    have hd := divideToEven_le (n * 2 ^ (-((L : Int) - 52)).toNat) (2 ^ ((L : Int) - 52).toNat)
    have hp : ((L : Int) - 52 + 1074).toNat ≤ 1085 := by omega
    have : ((L : Int) - 52 + 1074).toNat * 2 ^ 52 ≤ 1085 * 2 ^ 52 := Nat.mul_le_mul_right _ hp
    simp only [Binary64.infinity, Binary64.hiddenBit]
    omega

end Rounding

namespace Binary64

/-- The double nearest to a whole number, ties to even. -/
def ofInt (i : Int) (h : i.natAbs < 0x10000000000000000) : Binary64 :=
  ⟨i < 0, Rounding.magnitude i.natAbs 1, Rounding.magnitude_lt_infinity h⟩

/-- The double nearest to `± num / den`, ties to even; nothing on overflow. -/
def nearest? (negative : Bool) (num den : Nat) : Option Binary64 :=
  ofMagnitude? negative (Rounding.magnitude num den)

/-- The double nearest to `± digits · 10 ^ exponent`; nothing on overflow.
Exponents far outside the range are decided without forming the power. -/
def ofDecimal? (negative : Bool) (digits : Nat) (exponent : Int) : Option Binary64 :=
  let leading : Int := exponent + (Nat.log2 digits : Int) / 4
  if digits = 0 then ofMagnitude? negative 0
  else if leading > 400 then none
  else if exponent + (Nat.log2 digits : Int) < -1200 then ofMagnitude? negative 0
  else if exponent ≥ 0 then nearest? negative (digits * Nat.pow 10 exponent.toNat) 1
  else nearest? negative digits (Nat.pow 10 (-exponent).toNat)

end Binary64

end Criteria
