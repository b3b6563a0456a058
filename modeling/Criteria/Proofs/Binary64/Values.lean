import Criteria.Binary64.Shortest
import Mathlib.Algebra.Order.Field.Power
import Mathlib.Data.Rat.Cast.Order
import Mathlib.Tactic.FieldSimp
import Mathlib.Tactic.Linarith
import Mathlib.Tactic.Ring

/-!
# Values of doubles

Fractions stand for rational numbers, and so do magnitudes.  Between the values of two
neighbouring magnitudes lies the boundary of what rounds to either.  Boundaries grow with
the magnitude, and a magnitude covers what lies between its two, with the ends if it is
even; so no number is covered by two of them.

* `Fraction.toRat`: the number that a fraction stands for.
* `Magnitude.upper`: the boundary above a magnitude.
* `Magnitude.Covers.unique`: a number is covered by one magnitude only.
* `Binary64.covers_iff`: a double covers what its magnitude covers.
-/

namespace Criteria

/-! ## Fractions -/

namespace Fraction

/-- The number that the fraction stands for. -/
def toRat (x : Fraction) : ℚ := x.num / x.den

theorem toRat_dyadic (n : Nat) (e : Int) : (dyadic n e).toRat = n * 2 ^ e := by
  obtain ⟨k, rfl | rfl⟩ := e.eq_nat_or_neg
  · simp [toRat, dyadic, Nat.shiftLeft_eq]
  · simp [toRat, dyadic, Nat.shiftLeft_eq, div_eq_mul_inv]

theorem toRat_decimal (n : Nat) (e : Int) : (decimal n e).toRat = n * 10 ^ e := by
  obtain ⟨k, rfl | rfl⟩ := e.eq_nat_or_neg
  · simp [toRat, decimal]
  · simp [toRat, decimal, div_eq_mul_inv]

theorem den_dyadic_pos (n : Nat) (e : Int) : 0 < (dyadic n e).den := by
  simp [dyadic, Nat.shiftLeft_eq]

theorem den_decimal_pos (n : Nat) (e : Int) : 0 < (decimal n e).den := by
  simp [decimal]

variable {x y : Fraction}

/-- Cross multiplication compares the numbers. -/
theorem le_iff (hx : 0 < x.den) (hy : 0 < y.den) : x.le y = true ↔ x.toRat ≤ y.toRat := by
  rw [le, decide_eq_true_iff, toRat, toRat,
    div_le_div_iff₀ (Nat.cast_pos.mpr hx) (Nat.cast_pos.mpr hy)]
  exact_mod_cast Iff.rfl

theorem lt_iff (hx : 0 < x.den) (hy : 0 < y.den) : x.lt y = true ↔ x.toRat < y.toRat := by
  rw [lt, decide_eq_true_iff, toRat, toRat,
    div_lt_div_iff₀ (Nat.cast_pos.mpr hx) (Nat.cast_pos.mpr hy)]
  exact_mod_cast Iff.rfl

/-- The steps that fit into a number do not exceed it. -/
theorem floorDiv_mul_le (hx : 0 < x.den) (hy : 0 < y.den) :
    (x.floorDiv y : ℚ) * y.toRat ≤ x.toRat := by
  have hdiv : x.floorDiv y * (x.den * y.num) ≤ x.num * y.den := Nat.div_mul_le_self _ _
  rw [toRat, toRat, ← mul_div_assoc, div_le_div_iff₀ (Nat.cast_pos.mpr hy) (Nat.cast_pos.mpr hx)]
  calc (x.floorDiv y : ℚ) * y.num * x.den
      = ((x.floorDiv y * (x.den * y.num) : ℕ) : ℚ) := by push_cast; ring
    _ ≤ ((x.num * y.den : ℕ) : ℚ) := Nat.cast_le.mpr hdiv
    _ = x.num * y.den := by push_cast; ring

/-- One more step exceeds it. -/
theorem lt_floorDiv_add_one_mul (hx : 0 < x.den) (hy : 0 < y.den) (hstep : 0 < y.num) :
    x.toRat < (x.floorDiv y + 1 : ℚ) * y.toRat := by
  have hdiv : x.num * y.den < (x.den * y.num) * (x.floorDiv y + 1) :=
    Nat.lt_mul_div_succ _ (Nat.mul_pos hx hstep)
  rw [toRat, toRat, ← mul_div_assoc, div_lt_div_iff₀ (Nat.cast_pos.mpr hx) (Nat.cast_pos.mpr hy)]
  calc (x.num : ℚ) * y.den
      = ((x.num * y.den : ℕ) : ℚ) := by push_cast; ring
    _ < ((x.den * y.num * (x.floorDiv y + 1) : ℕ) : ℚ) := Nat.cast_lt.mpr hdiv
    _ = (x.floorDiv y + 1) * y.num * x.den := by push_cast; ring

end Fraction

/-! ## Magnitudes -/

namespace Magnitude

/-- The significand of a magnitude. -/
def significand (m : Nat) : Nat :=
  if m < Binary64.hiddenBit then m else Binary64.hiddenBit + m % Binary64.hiddenBit

/-- The exponent of the unit in the last place of a magnitude. -/
def unit (m : Nat) : Int :=
  if m < Binary64.hiddenBit then -1074 else (m / Binary64.hiddenBit : Nat) - 1075

/-- The number halfway between the values of a magnitude and the next one. -/
def upper (m : Nat) : ℚ := (2 * significand m + 1) * 2 ^ (unit m - 1)

theorem significand_lt (m : Nat) : significand m < 2 * Binary64.hiddenBit := by
  rw [significand, Binary64.hiddenBit]
  split <;> omega

theorem significand_mod_two (m : Nat) : significand m % 2 = m % 2 := by
  rw [significand, Binary64.hiddenBit]
  split <;> omega

theorem significand_pos {m : Nat} (h : m ≠ 0) : 0 < significand m := by
  rw [significand, Binary64.hiddenBit]
  split <;> omega

theorem unit_ge (m : Nat) : -1074 ≤ unit m := by
  rw [unit, Binary64.hiddenBit]
  split <;> omega

/-- The next magnitude has the next significand, or the least one with a greater
unit. -/
theorem succ_cases (m : Nat) :
    (significand (m + 1) = significand m + 1 ∧ unit (m + 1) = unit m ∧
      ¬ (significand (m + 1) = Binary64.hiddenBit ∧ -1074 < unit (m + 1))) ∨
    (significand m = 2 * Binary64.hiddenBit - 1 ∧ significand (m + 1) = Binary64.hiddenBit ∧
      unit (m + 1) = unit m + 1 ∧ -1074 < unit (m + 1)) := by
  have hparts : ∀ n, Binary64.hiddenBit ≤ n → significand n = Binary64.hiddenBit
      + n % Binary64.hiddenBit ∧ unit n = (n / Binary64.hiddenBit : Nat) - 1075 := fun n hn =>
    ⟨if_neg (Nat.not_lt.mpr hn), if_neg (Nat.not_lt.mpr hn)⟩
  have hsub : ∀ n, n < Binary64.hiddenBit → significand n = n ∧ unit n = -1074 := fun n hn =>
    ⟨if_pos hn, if_pos hn⟩
  rcases Nat.lt_or_ge m Binary64.hiddenBit with hm | hm
  · obtain ⟨hs, hu⟩ := hsub m hm
    rcases Nat.lt_or_ge (m + 1) Binary64.hiddenBit with hm' | hm'
    · obtain ⟨hs', hu'⟩ := hsub _ hm'
      omega
    · obtain ⟨hs', hu'⟩ := hparts _ hm'
      rw [Binary64.hiddenBit] at *
      omega
  · obtain ⟨hs, hu⟩ := hparts m hm
    obtain ⟨hs', hu'⟩ := hparts (m + 1) (Nat.le_succ_of_le hm)
    rw [Binary64.hiddenBit] at *
    omega

/-- A magnitude is a place and a significand, which is full unless there is no lower place. -/
theorem parts_of_place {place s : Nat} (hfull : place ≠ 0 → Binary64.hiddenBit ≤ s)
    (hs : s < 2 * Binary64.hiddenBit) :
    significand (place * Binary64.hiddenBit + s) = s ∧
      unit (place * Binary64.hiddenBit + s) = (place : Int) - 1074 := by
  rw [significand, unit, Binary64.hiddenBit] at *
  by_cases hplace : place = 0
  · subst hplace
    split <;> omega
  · have hge := hfull hplace
    rw [if_neg (by omega), if_neg (by omega)]
    omega

theorem upper_lt_succ (m : Nat) : upper m < upper (m + 1) := by
  have hunit : (0 : ℚ) < 2 ^ (unit m - 1) := by positivity
  rw [upper, upper]
  rcases succ_cases m with ⟨hs, hu, -⟩ | ⟨hs, hs', hu, -⟩
  · rw [hs, hu]
    push_cast
    nlinarith
  · rw [hs, hs', hu, show unit m + 1 - 1 = unit m - 1 + 1 by ring, zpow_add_one₀ two_ne_zero]
    norm_num [Binary64.hiddenBit]
    linarith

theorem upper_strictMono : StrictMono upper := strictMono_nat_of_lt_succ upper_lt_succ

theorem upper_pos (m : Nat) : 0 < upper m := by
  rw [upper]
  positivity

/-- The numbers that round to a magnitude: those between its boundaries, and the boundaries
themselves if it is even.  Nothing lies below zero. -/
def Covers : Nat → ℚ → Prop
  | 0, q => q ≤ upper 0
  | m + 1, q =>
    if (m + 1) % 2 = 0 then upper m ≤ q ∧ q ≤ upper (m + 1) else upper m < q ∧ q < upper (m + 1)

variable {m n : Nat} {q : ℚ}

theorem Covers.le_upper (h : Covers m q) : q ≤ upper m := by
  cases m with
  | zero => exact h
  | succ m =>
      rw [Covers] at h
      split at h
      · exact h.2
      · exact h.2.le

theorem Covers.upper_le (h : Covers (m + 1) q) : upper m ≤ q := by
  rw [Covers] at h
  split at h
  · exact h.1
  · exact h.1.le

theorem covers_of_lt (hlow : upper m < q) (hhigh : q < upper (m + 1)) : Covers (m + 1) q := by
  rw [Covers]
  split
  · exact ⟨hlow.le, hhigh.le⟩
  · exact ⟨hlow, hhigh⟩

/-- Where the ranges of two magnitudes meet, only the even one takes the boundary in. -/
theorem Covers.not_of_lt (h : Covers m q) (hlt : m < n) : ¬ Covers n q := by
  intro hn
  obtain ⟨n, rfl⟩ := Nat.exists_eq_succ_of_ne_zero (Nat.ne_zero_of_lt hlt)
  have hmono : upper m ≤ upper n := upper_strictMono.monotone (Nat.le_of_lt_succ hlt)
  have hmeet : upper m = upper n := le_antisymm hmono (hn.upper_le.trans h.le_upper)
  obtain rfl := upper_strictMono.injective hmeet
  have hq : q = upper m := le_antisymm h.le_upper hn.upper_le
  rw [Covers] at hn
  by_cases heven : m % 2 = 0
  · rw [if_neg (by omega)] at hn
    exact absurd hq hn.1.ne'
  · obtain ⟨k, rfl⟩ := Nat.exists_eq_succ_of_ne_zero (show m ≠ 0 by omega)
    rw [Covers, if_neg heven] at h
    exact absurd hq h.2.ne

/-- A number is covered by one magnitude only. -/
theorem Covers.unique (h : Covers m q) (h' : Covers n q) : m = n := by
  rcases Nat.lt_trichotomy m n with hlt | heq | hgt
  · exact absurd h' (h.not_of_lt hlt)
  · exact heq
  · exact absurd h (h'.not_of_lt hgt)

end Magnitude

namespace Binary64

variable {x : Binary64}

/-- The number without its sign. -/
def value (x : Binary64) : ℚ := x.significand * 2 ^ x.unit

theorem toRat_abs (x : Binary64) : x.abs.toRat = x.value := Fraction.toRat_dyadic _ _

theorem toRat_highEnd (x : Binary64) : x.highEnd.toRat = Magnitude.upper x.magnitude := by
  rw [highEnd, Fraction.toRat_dyadic]
  push_cast
  rfl

/-- What is below a double's lower end belongs to the magnitude before. -/
theorem toRat_lowEnd {m : Nat} (h : x.magnitude = m + 1) : x.lowEnd.toRat = Magnitude.upper m := by
  have hs : x.significand = Magnitude.significand (m + 1) := h ▸ rfl
  have hu : x.unit = Magnitude.unit (m + 1) := h ▸ rfl
  rw [lowEnd, hs, hu, Magnitude.upper]
  rcases Magnitude.succ_cases m with ⟨hs, hu, hplain⟩ | ⟨hs, hs', hu, hge⟩
  · rw [if_neg hplain, Fraction.toRat_dyadic, hs, hu,
      show 2 * (Magnitude.significand m + 1) - 1 = 2 * Magnitude.significand m + 1 by omega]
    push_cast
    rfl
  · rw [if_pos ⟨hs', hge⟩, Fraction.toRat_dyadic, hs, hs', hu,
      show Magnitude.unit m + 1 - 2 = Magnitude.unit m - 1 by ring]
    norm_num [hiddenBit]

/-- A double other than zero covers what its magnitude covers. -/
theorem covers_iff (hx : x.magnitude ≠ 0) {f : Fraction} (hf : 0 < f.den) :
    x.covers f = true ↔ Magnitude.Covers x.magnitude f.toRat := by
  obtain ⟨m, hm⟩ := Nat.exists_eq_add_one_of_ne_zero hx
  have hlow : 0 < x.lowEnd.den := by
    rw [lowEnd]
    split
    · exact Fraction.den_dyadic_pos _ _
    · exact Fraction.den_dyadic_pos _ _
  have hhigh : 0 < x.highEnd.den := Fraction.den_dyadic_pos _ _
  have hparity : x.significand % 2 = x.magnitude % 2 := Magnitude.significand_mod_two _
  rw [covers, hparity, hm, Magnitude.Covers, ← toRat_lowEnd hm, ← hm, ← toRat_highEnd]
  split
  · rw [Bool.and_eq_true, Fraction.le_iff hlow hf, Fraction.le_iff hf hhigh]
  · rw [Bool.and_eq_true, Fraction.lt_iff hlow hf, Fraction.lt_iff hf hhigh]

end Binary64

end Criteria
