import Criteria.Proofs.Binary64.Values
import Mathlib.Tactic.NormNum

/-!
# The shortest decimal reads back

The decimal that is printed for a double is one that the double covers, so it rounds to
the double and to no other.  The search runs from the coarsest grid on, and the last of
its grids is fine enough to have a point that is covered, because its spacing is less than
that of the doubles.

* `Binary64.ten_zpow_decimalExponent_le`: the search starts no higher than the leading digit.
* `Binary64.exists_onGrid?`: a grid that is fine enough has a point that is covered.
* `Binary64.covers_shortest`: the shortest decimal is covered.
* `Binary64.magnitude_eq_of_shortest`: it determines the magnitude.
-/

namespace Criteria

/-! ## Leading digits -/

namespace Rounding

variable {num den : Nat}

/-- Shifting one of two numbers by an exponent compares them up to that power. -/
theorem shift_le_shift_iff (num den : Nat) (g : Int) :
    den <<< g.toNat ≤ num <<< (-g).toNat ↔ (den : ℚ) * 2 ^ g ≤ num := by
  obtain ⟨k, rfl | rfl⟩ := g.eq_nat_or_neg
  · simp only [Nat.shiftLeft_eq, Int.toNat_natCast, Int.toNat_neg_natCast, pow_zero, mul_one,
      zpow_natCast]
    exact_mod_cast Iff.rfl
  · rw [zpow_neg, ← div_eq_mul_inv, div_le_iff₀ (by positivity)]
    simp only [Nat.shiftLeft_eq, neg_neg, Int.toNat_natCast, Int.toNat_neg_natCast, pow_zero,
      mul_one, zpow_natCast]
    exact_mod_cast Iff.rfl

/-- A number lies between two powers of two. -/
theorem two_zpow_log2_le {n : Nat} (h : n ≠ 0) : (2 : ℚ) ^ (n.log2 : Int) ≤ n := by
  rw [zpow_natCast]
  exact_mod_cast Nat.log2_self_le h

theorem lt_two_zpow_log2 (n : Nat) : (n : ℚ) < 2 ^ (n.log2 + 1 : Int) := by
  have h : n < 2 ^ (n.log2 + 1) := Nat.lt_log2_self
  calc (n : ℚ) < ((2 ^ (n.log2 + 1) : ℕ) : ℚ) := Nat.cast_lt.mpr h
    _ = 2 ^ (n.log2 + 1 : Int) := by push_cast; rfl

/-- The leading binary digit stands for no more than the number. -/
theorem two_zpow_binaryExponent_le (hnum : num ≠ 0) (hden : den ≠ 0) :
    (2 : ℚ) ^ binaryExponent num den ≤ num / den := by
  rw [le_div_iff₀ (Nat.cast_pos.mpr (Nat.pos_of_ne_zero hden)), mul_comm, binaryExponent]
  split
  · rename_i h
    exact (shift_le_shift_iff num den _).mp h
  · calc (den : ℚ) * 2 ^ ((num.log2 : Int) - den.log2 - 1)
        ≤ 2 ^ (den.log2 + 1 : Int) * 2 ^ ((num.log2 : Int) - den.log2 - 1) :=
          mul_le_mul_of_nonneg_right (lt_two_zpow_log2 den).le (by positivity)
      _ = 2 ^ (num.log2 : Int) := by
          rw [← zpow_add₀ two_ne_zero]
          congr 1
          ring
      _ ≤ num := two_zpow_log2_le hnum

/-- One place higher it would exceed the number. -/
theorem lt_two_zpow_binaryExponent (num : Nat) (hden : den ≠ 0) :
    (num / den : ℚ) < 2 ^ (binaryExponent num den + 1) := by
  rw [div_lt_iff₀ (Nat.cast_pos.mpr (Nat.pos_of_ne_zero hden)), binaryExponent]
  split
  · calc (num : ℚ) < 2 ^ (num.log2 + 1 : Int) := lt_two_zpow_log2 num
      _ = 2 ^ ((num.log2 : Int) - den.log2 + 1) * 2 ^ (den.log2 : Int) := by
          rw [← zpow_add₀ two_ne_zero]
          congr 1
          ring
      _ ≤ 2 ^ ((num.log2 : Int) - den.log2 + 1) * den :=
          mul_le_mul_of_nonneg_left (two_zpow_log2_le hden) (by positivity)
  · rename_i h
    rw [shift_le_shift_iff, not_le] at h
    rwa [sub_add_cancel, mul_comm]

/-- Powers of ten below powers of two, for exponents in the proportion of two powers. -/
theorem ten_zpow_le_of_proportion {p q : Nat} {b k : Int} (hq : q ≠ 0) (hexp : q * k ≤ p * b)
    (hbase : ((10 : ℚ) ^ p) ^ b ≤ (2 ^ q) ^ b) : (10 : ℚ) ^ k ≤ 2 ^ b := by
  refine (pow_le_pow_iff_left₀ (by positivity) (by positivity) hq).mp ?_
  calc ((10 : ℚ) ^ k) ^ q = 10 ^ (q * k) := by rw [← zpow_natCast, ← zpow_mul, mul_comm]
    _ ≤ 10 ^ (p * b) := zpow_le_zpow_right₀ (by norm_num) hexp
    _ = (10 ^ p) ^ b := by rw [zpow_mul, zpow_natCast]
    _ ≤ (2 ^ q) ^ b := hbase
    _ = (2 ^ b) ^ q := by
        rw [← zpow_natCast, ← zpow_natCast, ← zpow_mul, ← zpow_mul, mul_comm]

/-- The leading decimal digit, guessed from the leading binary one by an approximation of
the logarithm, is at most one too high, and two below it is safe. -/
theorem ten_zpow_guess_le {b : Int} (hlow : -1075 ≤ b) (hhigh : b ≤ 1023) :
    (10 : ℚ) ^ (b * 30103 / 100000 - 1) ≤ 2 ^ b := by
  rcases lt_or_ge b 0 with hb | hb
  · -- `2 ^ 93` is just below `10 ^ 28`.
    refine ten_zpow_le_of_proportion (p := 28) (q := 93) (by norm_num) (by push_cast; omega) ?_
    obtain ⟨n, rfl⟩ : ∃ n : ℕ, b = -n := ⟨b.natAbs, by omega⟩
    rw [zpow_neg, zpow_neg, zpow_natCast, zpow_natCast]
    exact inv_anti₀ (by positivity) (pow_le_pow_left₀ (by norm_num) (by norm_num) n)
  · -- `10 ^ 31` is just below `2 ^ 103`.
    refine ten_zpow_le_of_proportion (p := 31) (q := 103) (by norm_num) (by push_cast; omega) ?_
    exact zpow_le_zpow_left₀ hb (by norm_num) (by norm_num)

end Rounding

namespace Binary64

variable {x : Binary64}

theorem significand_pos (hx : x.magnitude ≠ 0) : 0 < x.significand := Magnitude.significand_pos hx

theorem value_pos (hx : x.magnitude ≠ 0) : 0 < x.value := by
  have hs : (0 : ℚ) < x.significand := Nat.cast_pos.mpr (significand_pos hx)
  rw [value]
  positivity

theorem unit_le (x : Binary64) : x.unit ≤ 971 := by
  have hfinite := x.finite
  rw [unit, hiddenBit]
  split <;> omega

/-- The value lies in the range of finite doubles. -/
theorem value_lt (x : Binary64) : x.value < 2 ^ (1024 : Int) := by
  have hs : x.significand < 2 * hiddenBit := Magnitude.significand_lt _
  have hs' : (x.significand : ℚ) < 2 ^ (53 : Int) := by
    calc (x.significand : ℚ) < ((2 * hiddenBit : ℕ) : ℚ) := Nat.cast_lt.mpr hs
      _ = 2 ^ (53 : Int) := by norm_num [hiddenBit]
  have hu := unit_le x
  calc x.value < 2 ^ (53 : Int) * 2 ^ x.unit := mul_lt_mul_of_pos_right hs' (by positivity)
    _ = 2 ^ (53 + x.unit) := (zpow_add₀ two_ne_zero _ _).symm
    _ ≤ 2 ^ (1024 : Int) := zpow_le_zpow_right₀ one_le_two (by omega)

theorem two_zpow_unit_le_value (hx : x.magnitude ≠ 0) : (2 : ℚ) ^ x.unit ≤ x.value := by
  have hs : (1 : ℚ) ≤ x.significand := Nat.one_le_cast.mpr (significand_pos hx)
  rw [value]
  exact le_mul_of_one_le_left (by positivity) hs

theorem den_abs_pos (x : Binary64) : 0 < x.abs.den := Fraction.den_dyadic_pos _ _

theorem num_abs_ne_zero (hx : x.magnitude ≠ 0) : x.abs.num ≠ 0 := by
  intro hnum
  have hzero : x.value = 0 := by rw [← toRat_abs, Fraction.toRat, hnum, Nat.cast_zero, zero_div]
  exact (value_pos hx).ne' hzero

/-- The search for a decimal starts no higher than the leading digit. -/
theorem ten_zpow_decimalExponent_le (hx : x.magnitude ≠ 0) :
    (10 : ℚ) ^ x.decimalExponent ≤ x.value := by
  have hden : x.abs.den ≠ 0 := (den_abs_pos x).ne'
  have hle := Rounding.two_zpow_binaryExponent_le (num_abs_ne_zero hx) hden
  have hlt := Rounding.lt_two_zpow_binaryExponent x.abs.num hden
  change _ ≤ x.abs.toRat at hle
  change x.abs.toRat < _ at hlt
  rw [toRat_abs] at hle hlt
  rw [decimalExponent]
  generalize Rounding.binaryExponent x.abs.num x.abs.den = b at hle hlt
  have hhigh : b < 1024 := (zpow_lt_zpow_iff_right₀ one_lt_two).mp (hle.trans_lt (value_lt x))
  have hlow : x.unit < b + 1 :=
    (zpow_lt_zpow_iff_right₀ one_lt_two).mp ((two_zpow_unit_le_value hx).trans_lt hlt)
  have hunit : -1074 ≤ x.unit := Magnitude.unit_ge _
  have hpower : ∀ e, (Fraction.decimal 1 e).le x.abs = true → (10 : ℚ) ^ e ≤ x.value := by
    intro e he
    rw [Fraction.le_iff (Fraction.den_decimal_pos 1 e) (den_abs_pos x), Fraction.toRat_decimal,
      toRat_abs, Nat.cast_one, one_mul] at he
    exact he
  split
  · rename_i h
    exact hpower _ h
  · split
    · rename_i h
      exact hpower _ h
    · rw [show b * 30103 / 100000 + 1 - 2 = b * 30103 / 100000 - 1 by ring]
      exact (Rounding.ten_zpow_guess_le (by omega) (by omega)).trans hle

/-! ## Grids -/

/-- The boundaries around a double lie half a unit away from its value; below a power of
two, where the unit changes, a quarter. -/
theorem upper_eq (x : Binary64) :
    Magnitude.upper x.magnitude = x.value + 2 ^ (x.unit - 1) := by
  rw [← toRat_highEnd, highEnd, Fraction.toRat_dyadic, value, zpow_sub_one₀ two_ne_zero]
  push_cast
  ring

theorem lower_eq {m : Nat} (h : x.magnitude = m + 1) :
    Magnitude.upper m = x.value - 2 ^ (x.unit - 1) ∨
      (x.significand = hiddenBit ∧ Magnitude.upper m = x.value - 2 ^ (x.unit - 1) / 2) := by
  have hs : 0 < x.significand := significand_pos (by omega)
  rw [← toRat_lowEnd h, lowEnd]
  split
  · rename_i hpower
    refine .inr ⟨hpower.1, ?_⟩
    rw [Fraction.toRat_dyadic, value, Nat.cast_sub (by omega), zpow_sub_one₀ two_ne_zero,
      zpow_sub₀ two_ne_zero]
    push_cast
    ring
  · refine .inl ?_
    rw [Fraction.toRat_dyadic, value, Nat.cast_sub (by omega), zpow_sub_one₀ two_ne_zero]
    push_cast
    ring

/-- A grid has a candidate, which is covered, unless neither neighbour of the value is. -/
theorem onGrid?_cases (x : Binary64) (e : Int) :
    (∃ digits, x.onGrid? e = some digits ∧ x.covers (.decimal digits e) = true) ∨
      (x.onGrid? e = none ∧ x.covers (.decimal (x.abs.floorDiv (.decimal 1 e)) e) = false ∧
        x.covers (.decimal (x.abs.floorDiv (.decimal 1 e) + 1) e) = false) := by
  rw [onGrid?]
  split
  · rename_i hlow hhigh
    split
    · exact .inl ⟨_, rfl, hlow⟩
    · split
      · exact .inl ⟨_, rfl, hhigh⟩
      · refine .inl ⟨_, rfl, ?_⟩
        split
        · exact hlow
        · exact hhigh
  · rename_i hlow _
    exact .inl ⟨_, rfl, hlow⟩
  · rename_i _ hhigh
    exact .inl ⟨_, rfl, hhigh⟩
  · rename_i hlow hhigh
    exact .inr ⟨rfl, hlow, hhigh⟩

/-- The boundary below a double does not exceed its value. -/
theorem lower_le {m : Nat} (h : x.magnitude = m + 1) : Magnitude.upper m ≤ x.value := by
  have hw : (0 : ℚ) < 2 ^ (x.unit - 1) := by positivity
  rcases lower_eq h with h | ⟨-, h⟩
  · linarith
  · linarith

section Neighbours

variable {m digits : Nat} {e : Int} (hm : x.magnitude = m + 1)

include hm

/-- A point between the boundaries is covered. -/
theorem covers_between (hlow : Magnitude.upper m < digits * 10 ^ e)
    (hhigh : digits * 10 ^ e < Magnitude.upper x.magnitude) :
    x.covers (.decimal digits e) = true := by
  rw [covers_iff (hm ▸ Nat.succ_ne_zero m) (Fraction.den_decimal_pos _ _), Fraction.toRat_decimal,
    hm]
  exact Magnitude.covers_of_lt hlow (hm ▸ hhigh)

/-- A point below the value that is above the lower boundary is covered. -/
theorem covers_below (hlow : Magnitude.upper m < digits * 10 ^ e)
    (hvalue : digits * 10 ^ e ≤ x.value) : x.covers (.decimal digits e) = true := by
  have hw : (0 : ℚ) < 2 ^ (x.unit - 1) := by positivity
  refine covers_between hm hlow ?_
  rw [upper_eq]
  linarith

/-- A point above the value that is below the upper boundary is covered. -/
theorem covers_above (hvalue : x.value < digits * 10 ^ e)
    (hhigh : digits * 10 ^ e < x.value + 2 ^ (x.unit - 1)) :
    x.covers (.decimal digits e) = true := by
  refine covers_between hm ((lower_le hm).trans_lt hvalue) ?_
  rwa [upper_eq]

/-- Of two neighbouring points around the value one is covered, if the value has at least
seventeen digits on the grid. -/
theorem covers_below_or_above (he : (10 : ℚ) ^ 16 * 10 ^ e ≤ x.value)
    (hbelow : digits * 10 ^ e ≤ x.value) (habove : x.value < (digits + 1 : ℕ) * 10 ^ e) :
    x.covers (.decimal digits e) = true ∨ x.covers (.decimal (digits + 1) e) = true := by
  have hw : (0 : ℚ) < 2 ^ (x.unit - 1) := by positivity
  have hnext : ((digits + 1 : ℕ) : ℚ) * 10 ^ e = digits * 10 ^ e + 10 ^ e := by
    push_cast
    ring
  have hvalue : x.value = x.significand * (2 * 2 ^ (x.unit - 1)) := by
    rw [value, zpow_sub_one₀ two_ne_zero]
    ring
  rcases lower_eq hm with h | ⟨hs, h⟩
  · -- The spacing is less than a unit, so one of the neighbours is less than half away.
    have hlt : x.significand < 2 * hiddenBit := Magnitude.significand_lt x.magnitude
    have hs : (x.significand : ℚ) ≤ 2 ^ 53 := by
      norm_num [hiddenBit] at hlt
      exact_mod_cast hlt.le
    have hproduct := mul_le_mul_of_nonneg_right hs hw.le
    have hspacing : (10 : ℚ) ^ e < 2 * 2 ^ (x.unit - 1) := by
      rw [hvalue] at he
      norm_num at he hproduct
      linarith
    rcases lt_or_ge (x.value - digits * 10 ^ e) (2 ^ (x.unit - 1)) with hnear | hfar
    · exact .inl (covers_below hm (by linarith) hbelow)
    · exact .inr (covers_above hm habove (by linarith))
  · -- At a power of two the spacing is less than half a unit.
    have hspacing : (10 : ℚ) ^ e < 2 ^ (x.unit - 1) := by
      rw [hvalue, hs] at he
      norm_num [hiddenBit] at he
      linarith
    exact .inr (covers_above hm habove (by linarith))

end Neighbours

/-- A grid on which the value has at least seventeen digits has a candidate. -/
theorem exists_onGrid? (hx : x.magnitude ≠ 0) {e : Int} (he : (10 : ℚ) ^ 16 * 10 ^ e ≤ x.value) :
    ∃ digits, x.onGrid? e = some digits ∧ x.covers (.decimal digits e) = true := by
  refine (onGrid?_cases x e).resolve_right ?_
  rintro ⟨-, hmissed, hmissed'⟩
  obtain ⟨m, hm⟩ := Nat.exists_eq_succ_of_ne_zero hx
  have hstep : 0 < (Fraction.decimal 1 e).num := by simp [Fraction.decimal]
  have hbelow := Fraction.floorDiv_mul_le (den_abs_pos x) (Fraction.den_decimal_pos 1 e)
  have habove := Fraction.lt_floorDiv_add_one_mul (den_abs_pos x) (Fraction.den_decimal_pos 1 e)
    hstep
  rw [toRat_abs, Fraction.toRat_decimal, Nat.cast_one, one_mul] at hbelow habove
  rcases covers_below_or_above hm he hbelow (by exact_mod_cast habove) with h | h
  · rw [hmissed] at h
    exact absurd h Bool.false_ne_true
  · rw [hmissed'] at h
    exact absurd h Bool.false_ne_true

/-! ## The search -/

/-- The first grid with a candidate gives a decimal that is covered, if the last grid is
fine enough. -/
theorem covers_searchGrids (hx : x.magnitude ≠ 0) {fuel : Nat} {e : Int}
    (he : (10 : ℚ) ^ 16 * 10 ^ (e - fuel) ≤ x.value) :
    x.covers (.decimal (x.searchGrids (fuel + 1) e).digits
      (x.searchGrids (fuel + 1) e).exponent) = true := by
  induction fuel generalizing e with
  | zero =>
      rw [Nat.cast_zero, sub_zero] at he
      obtain ⟨digits, hdigits, hcovers⟩ := exists_onGrid? hx he
      rw [searchGrids, hdigits]
      exact hcovers
  | succ fuel ih =>
      rw [searchGrids]
      rcases onGrid?_cases x e with ⟨digits, hdigits, hcovers⟩ | ⟨hnone, -⟩
      · rw [hdigits]
        exact hcovers
      · rw [hnone]
        refine ih ?_
        rwa [show e - 1 - (fuel : Int) = e - (fuel + 1 : ℕ) by push_cast; ring]

end Binary64

namespace Decimal

/-- The number that the decimal stands for. -/
def toRat (d : Decimal) : ℚ := d.digits * 10 ^ d.exponent

/-- Zeros moved into the exponent leave the number as it is. -/
theorem toRat_trim (fuel : Nat) (d : Decimal) : (d.trim fuel).toRat = d.toRat := by
  induction fuel generalizing d with
  | zero => rfl
  | succ fuel ih =>
      rw [trim]
      split
      · rename_i h
        have hdigits : d.digits = d.digits / 10 * 10 := by omega
        rw [ih]
        calc ((d.digits / 10 : ℕ) : ℚ) * 10 ^ (d.exponent + 1)
            = ((d.digits / 10 * 10 : ℕ) : ℚ) * 10 ^ d.exponent := by
              rw [zpow_add_one₀ (by norm_num)]
              push_cast
              ring
          _ = d.toRat := by rw [← hdigits, toRat]
      · rfl

end Decimal

namespace Binary64

variable {x y : Binary64}

/-- The decimal that is printed for a double is covered by its magnitude. -/
theorem covers_shortest (x : Binary64) : Magnitude.Covers x.magnitude x.shortest.toRat := by
  rw [shortest]
  split
  · rename_i hx
    rw [hx, Decimal.toRat, Nat.cast_zero, zero_mul]
    exact (Magnitude.upper_pos 0).le
  · rename_i hx
    rw [Decimal.toRat_trim, Decimal.toRat, ← Fraction.toRat_decimal,
      ← covers_iff hx (Fraction.den_decimal_pos _ _)]
    refine covers_searchGrids hx ?_
    rw [← zpow_natCast, ← zpow_add₀ (by norm_num)]
    push_cast
    rw [show (16 : Int) + (x.decimalExponent - 16) = x.decimalExponent by ring]
    exact ten_zpow_decimalExponent_le hx

/-- The decimal that is printed determines the magnitude. -/
theorem magnitude_eq_of_shortest (h : x.shortest.toRat = y.shortest.toRat) :
    x.magnitude = y.magnitude :=
  (covers_shortest x).unique (h ▸ covers_shortest y)

/-- Zero is printed without an exponent. -/
theorem exponent_shortest (x : Binary64) (h : x.shortest.digits = 0) : x.shortest.exponent = 0 := by
  have hcovers : Magnitude.Covers 0 x.shortest.toRat := by
    rw [Decimal.toRat, h, Nat.cast_zero, zero_mul]
    exact (Magnitude.upper_pos 0).le
  rw [shortest, if_pos ((covers_shortest x).unique hcovers)]

end Binary64

end Criteria
