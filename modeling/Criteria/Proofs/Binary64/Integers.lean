import Criteria.Json.Basic
import Criteria.Proofs.Binary64.Values

/-!
# Integers among doubles

With its sign, a double stands for a rational number.  Numbers grow with the place of the
double on the line, so doubles are equal when their numbers are.  An integer of fewer than 54
binary digits is one of these numbers: rounding it drops nothing.

* `Binary64.toRat`: the number that a double stands for.
* `Binary64.same_iff`: doubles are equal when they stand for the same number.
* `Binary64.toRat_ofInt`: the double nearest to an integer is that integer.
* `Number.same_toDouble_iff`: which numbers, in either representation, equal an integer as
  doubles.
-/

namespace Criteria

/-! ## Numbers in order -/

namespace Magnitude

/-- The number that a magnitude stands for. -/
def value (m : Nat) : ℚ := significand m * 2 ^ unit m

@[simp] theorem value_zero : value 0 = 0 := by
  have hzero : significand 0 = 0 := rfl
  rw [value, hzero, Nat.cast_zero, zero_mul]

theorem value_lt_succ (m : Nat) : value m < value (m + 1) := by
  have hunit : (0 : ℚ) < 2 ^ unit m := by positivity
  rw [value, value]
  rcases succ_cases m with ⟨hs, hu, -⟩ | ⟨hs, hs', hu, -⟩
  · rw [hs, hu]
    push_cast
    linarith
  · rw [hs, hs', hu, zpow_add_one₀ two_ne_zero]
    norm_num [Binary64.hiddenBit]
    linarith

theorem value_strictMono : StrictMono value := strictMono_nat_of_lt_succ value_lt_succ

end Magnitude

namespace Binary64

variable {x y : Binary64}

/-- The number that the double stands for. -/
def toRat (x : Binary64) : ℚ := if x.negative then -x.value else x.value

/-- The number at a place on the line. -/
def numberAt : Int → ℚ
  | .ofNat m => Magnitude.value m
  | .negSucc m => -Magnitude.value (m + 1)

theorem numberAt_lt_succ (place : Int) : numberAt place < numberAt (place + 1) := by
  cases place with
  | ofNat m => exact Magnitude.value_lt_succ m
  | negSucc m =>
      cases m with
      | zero =>
          have hstep := Magnitude.value_lt_succ 0
          have hzero := Magnitude.value_zero
          change -Magnitude.value (0 + 1) < Magnitude.value 0
          linarith
      | succ m => exact neg_lt_neg (Magnitude.value_lt_succ (m + 1))

theorem numberAt_injective : Function.Injective numberAt :=
  (strictMono_int_of_lt_succ numberAt_lt_succ).injective

theorem toRat_eq_numberAt (x : Binary64) : x.toRat = numberAt x.order := by
  have hvalue : x.value = Magnitude.value x.magnitude := rfl
  rw [toRat, order, hvalue]
  cases x.negative with
  | false => rfl
  | true =>
      cases x.magnitude with
      | zero =>
          change -Magnitude.value 0 = Magnitude.value 0
          rw [Magnitude.value_zero, neg_zero]
      | succ m => rfl

/-- Doubles are equal when they stand for the same number. -/
theorem same_iff : x.same y = true ↔ x.toRat = y.toRat := by
  rw [same, beq_iff_eq, toRat_eq_numberAt, toRat_eq_numberAt, numberAt_injective.eq_iff]

end Binary64

/-! ## Integers -/

namespace Rounding

variable {n : Nat}

/-- A whole number is brought to full length before it is rounded. -/
theorem magnitude_one (hn : n ≠ 0) :
    magnitude n 1 = (n.log2 + 1022) * Binary64.hiddenBit +
      divideToEven (n * 2 ^ (52 - n.log2)) (2 ^ (n.log2 - 52)) := by
  have hspacing : spacing n 1 = (n.log2 : Int) - 52 := by
    rw [spacing, binaryExponent_one hn]
    omega
  have hplace : ((n.log2 : Int) - 52 + 1074).toNat = n.log2 + 1022 := by omega
  have hleft : (-((n.log2 : Int) - 52)).toNat = 52 - n.log2 := by omega
  have hright : ((n.log2 : Int) - 52).toNat = n.log2 - 52 := by omega
  simp only [magnitude, if_neg hn, hspacing, hplace, hleft, hright, Nat.shiftLeft_eq, Nat.one_mul]

/-- Nothing is dropped of a whole number of fewer than 54 binary digits. -/
theorem magnitude_of_lt (hn : n ≠ 0) (h : n < 0x20000000000000) :
    magnitude n 1 = (n.log2 + 1022) * Binary64.hiddenBit + n * 2 ^ (52 - n.log2) := by
  have hlog : n.log2 < 53 := (Nat.log2_lt hn).2 h
  have hdrop : n.log2 - 52 = 0 := by omega
  rw [magnitude_one hn, hdrop, Nat.pow_zero]
  simp [divideToEven, Nat.mod_one]

theorem le_divideToEven (num den : Nat) : num / den ≤ divideToEven num den := by
  simp only [divideToEven]
  split <;> omega

/-- A whole number of more binary digits is not rounded to one of fewer. -/
theorem le_magnitude (h : 0x20000000000000 ≤ n) : 1076 * Binary64.hiddenBit ≤ magnitude n 1 := by
  have hn : n ≠ 0 := by omega
  have hlog : 53 ≤ n.log2 := (Nat.le_log2 hn).2 h
  have hshift : 52 - n.log2 = 0 := by omega
  have hquotient : Binary64.hiddenBit ≤ n / 2 ^ (n.log2 - 52) := by
    rw [Nat.le_div_iff_mul_le (Nat.two_pow_pos _)]
    calc Binary64.hiddenBit * 2 ^ (n.log2 - 52) = 2 ^ (52 + (n.log2 - 52)) :=
          (Nat.pow_add 2 52 (n.log2 - 52)).symm
      _ = 2 ^ n.log2 := by rw [Nat.add_sub_cancel' (by omega)]
      _ ≤ n := Nat.log2_self_le hn
  have hround := le_divideToEven n (2 ^ (n.log2 - 52))
  rw [magnitude_one hn, hshift, Nat.pow_zero, Nat.mul_one]
  rw [Binary64.hiddenBit] at *
  omega

/-- Shifted to full length, a whole number has its leading digit where the encoding leaves it
out. -/
theorem shifted_bounds (hn : n ≠ 0) (h : n < 0x20000000000000) :
    Binary64.hiddenBit ≤ n * 2 ^ (52 - n.log2) ∧
      n * 2 ^ (52 - n.log2) < 2 * Binary64.hiddenBit := by
  have hlog : n.log2 < 53 := (Nat.log2_lt hn).2 h
  have hsplit : ∀ d, 2 ^ (n.log2 + d) * 2 ^ (52 - n.log2) = 2 ^ (52 + d) := by
    intro d
    rw [← Nat.pow_add]
    congr 1
    omega
  constructor
  · calc Binary64.hiddenBit = 2 ^ n.log2 * 2 ^ (52 - n.log2) := (hsplit 0).symm
      _ ≤ n * 2 ^ (52 - n.log2) := Nat.mul_le_mul_right _ (Nat.log2_self_le hn)
  · calc n * 2 ^ (52 - n.log2) < 2 ^ (n.log2 + 1) * 2 ^ (52 - n.log2) :=
          Nat.mul_lt_mul_of_pos_right Nat.lt_log2_self (Nat.two_pow_pos _)
      _ = 2 * Binary64.hiddenBit := hsplit 1

end Rounding

namespace Magnitude

/-- A whole number of fewer than 54 binary digits is the number that its magnitude stands
for. -/
theorem value_magnitude {n : Nat} (h : n < 0x20000000000000) :
    value (Rounding.magnitude n 1) = n := by
  by_cases hn : n = 0
  · subst hn
    simp [Rounding.magnitude]
  · obtain ⟨hlow, hhigh⟩ := Rounding.shifted_bounds hn h
    have hlog : n.log2 < 53 := (Nat.log2_lt hn).2 h
    have hs : significand (Rounding.magnitude n 1) = n * 2 ^ (52 - n.log2) := by
      rw [significand, Rounding.magnitude_of_lt hn h]
      generalize n * 2 ^ (52 - n.log2) = shifted at hlow hhigh ⊢
      rw [Binary64.hiddenBit] at *
      rw [if_neg (by omega)]
      omega
    have hu : unit (Rounding.magnitude n 1) = -((52 - n.log2 : Nat) : Int) := by
      rw [unit, Rounding.magnitude_of_lt hn h]
      generalize n * 2 ^ (52 - n.log2) = shifted at hlow hhigh ⊢
      rw [Binary64.hiddenBit] at *
      rw [if_neg (by omega)]
      omega
    have hne : (2 : ℚ) ^ (52 - n.log2) ≠ 0 := by positivity
    rw [value, hs, hu, zpow_neg, zpow_natCast, Nat.cast_mul, Nat.cast_pow, Nat.cast_ofNat]
    exact mul_inv_cancel_right₀ hne _

/-- A whole number of more binary digits does not become one of fewer. -/
theorem le_value_magnitude {n : Nat} (h : 0x20000000000000 ≤ n) :
    (0x20000000000000 : ℚ) ≤ value (Rounding.magnitude n 1) := by
  have hs : significand (1076 * Binary64.hiddenBit) = Binary64.hiddenBit := by decide
  have hu : unit (1076 * Binary64.hiddenBit) = 1 := by decide
  have hvalue : value (1076 * Binary64.hiddenBit) = 0x20000000000000 := by
    rw [value, hs, hu]
    norm_num [Binary64.hiddenBit]
  rw [← hvalue]
  exact value_strictMono.monotone (Rounding.le_magnitude h)

end Magnitude

namespace Binary64

/-- The double nearest to an integer of fewer than 54 binary digits is that integer. -/
theorem toRat_ofInt {i : Int} (hi : i.natAbs < 0x10000000000000000)
    (h : i.natAbs < 0x20000000000000) : (ofInt i hi).toRat = i := by
  have hvalue : (ofInt i hi).value = i.natAbs := Magnitude.value_magnitude h
  have hsign : (ofInt i hi).negative = decide (i < 0) := rfl
  rw [toRat, hvalue, hsign]
  by_cases hneg : i < 0
  · have habs : (i.natAbs : Int) = -i := Int.ofNat_natAbs_of_nonpos hneg.le
    rw [if_pos (decide_eq_true hneg), ← Int.cast_natCast, habs, Int.cast_neg, neg_neg]
  · have habs : (i.natAbs : Int) = i := Int.natAbs_of_nonneg (not_lt.1 hneg)
    rw [if_neg (by simpa using hneg), ← Int.cast_natCast, habs]

end Binary64

namespace Integer

variable {i : Integer}

/-- An integer of fewer than 54 binary digits is left as it is by rounding. -/
theorem toRat_toDouble (h : i.val.natAbs < 0x20000000000000) : i.toDouble.toRat = i.val :=
  Binary64.toRat_ofInt _ h

/-- An integer of more binary digits is not rounded to one of fewer. -/
theorem le_abs_toRat_toDouble (h : 0x20000000000000 ≤ i.val.natAbs) :
    (0x20000000000000 : ℚ) ≤ |i.toDouble.toRat| := by
  have hvalue : (0x20000000000000 : ℚ) ≤ i.toDouble.value := Magnitude.le_value_magnitude h
  rw [Binary64.toRat]
  split
  · rw [abs_neg]
    exact hvalue.trans (le_abs_self _)
  · exact hvalue.trans (le_abs_self _)

end Integer

namespace Number

/-- The number that a JSON number stands for. -/
def toRat : Number → ℚ
  | .integer i => i.val
  | .double x => x.toRat

/-- Rounded to a double, a number equals an integer of fewer than 54 binary digits only when it
is that integer. -/
theorem same_toDouble_iff {n : Number} {i : Integer} (h : i.val.natAbs < 0x20000000000000) :
    n.toDouble.same i.toDouble = true ↔ n.toRat = i.val := by
  rw [Binary64.same_iff, Integer.toRat_toDouble h]
  cases n with
  | double x => rfl
  | integer j =>
      change j.toDouble.toRat = i.val ↔ (j.val : ℚ) = i.val
      by_cases hj : j.val.natAbs < 0x20000000000000
      · rw [Integer.toRat_toDouble hj]
      · have hlarge := Integer.le_abs_toRat_toDouble (not_lt.1 hj)
        constructor
        · intro heq
          rw [heq, ← Int.cast_abs, Int.abs_eq_natAbs] at hlarge
          have : (0x20000000000000 : Int) ≤ i.val.natAbs := by exact_mod_cast hlarge
          omega
        · intro heq
          have : j.val = i.val := Rat.intCast_inj.1 heq
          omega

end Number

end Criteria
