import Criteria.Proofs.Binary64.Integers

/-!
# Nearest doubles

Comparing two doubles compares the numbers that they stand for.  A 64-bit integer of more than
53 binary digits lies between two neighbouring values, and rounding takes the nearer of them,
so no double is nearer to the integer than the one that it is rounded to.

* `Binary64.compare_eq`: the order of doubles is that of their numbers.
* `Magnitude.value_succ`: from one value to the next.
* `Magnitude.abs_value_sub_le`: no magnitude is nearer to a whole number than its own.
* `Integer.nearest_toDouble`: no double is nearer to an integer than its own.
-/

namespace Criteria

namespace Binary64

variable {x y : Binary64}

/-- Comparing doubles compares the numbers that they stand for. -/
theorem compare_eq (x y : Binary64) : x.compare y = Ord.compare x.toRat y.toRat := by
  have hmono : StrictMono numberAt := strictMono_int_of_lt_succ numberAt_lt_succ
  rw [compare, toRat_eq_numberAt, toRat_eq_numberAt]
  rcases lt_trichotomy x.order y.order with hlt | heq | hgt
  · rw [compare_lt_iff_lt.mpr hlt, compare_lt_iff_lt.mpr (hmono hlt)]
  · rw [compare_eq_iff_eq.mpr heq, compare_eq_iff_eq.mpr (congrArg numberAt heq)]
  · rw [compare_gt_iff_gt.mpr hgt, compare_gt_iff_gt.mpr (hmono hgt)]

end Binary64

/-! ## Neighbouring values -/

namespace Magnitude

theorem value_nonneg (m : Nat) : 0 ≤ value m := by
  rw [value]
  positivity

/-- The next value is one unit in the last place further. -/
theorem value_succ (m : Nat) : value (m + 1) = value m + 2 ^ unit m := by
  rw [value, value]
  rcases succ_cases m with ⟨hs, hu, -⟩ | ⟨hs, hs', hu, -⟩
  · rw [hs, hu]
    push_cast
    ring
  · rw [hs, hs', hu, zpow_add_one₀ two_ne_zero]
    norm_num [Binary64.hiddenBit]
    ring

/-- Where a significand of full length stands with its unit. -/
theorem value_of_significand (place : Nat) {s : Nat}
    (h : Binary64.hiddenBit ≤ s ∧ s < 2 * Binary64.hiddenBit) :
    value (place * Binary64.hiddenBit + s) = s * 2 ^ ((place : Int) - 1074) ∧
      unit (place * Binary64.hiddenBit + s) = (place : Int) - 1074 := by
  obtain ⟨hs, hu⟩ := parts_of_place (fun _ => h.1) h.2
  exact ⟨by rw [value, hs, hu], hu⟩

/-- No value lies between two neighbouring ones, so none is nearer to a number between them. -/
theorem neighbour_nearer (m other : Nat) (q : ℚ) :
    q - value m ≤ |value other - q| ∨ value (m + 1) - q ≤ |value other - q| := by
  rcases Nat.lt_or_ge m other with hlt | hge
  · have hnext : value (m + 1) ≤ value other := value_strictMono.monotone hlt
    exact .inr ((sub_le_sub_right hnext q).trans (le_abs_self _))
  · have hbelow : value other ≤ value m := value_strictMono.monotone hge
    refine .inl ?_
    rw [abs_sub_comm]
    exact (sub_le_sub_left hbelow q).trans (le_abs_self _)

end Magnitude

/-! ## Rounding -/

namespace Rounding

/-- The quotient is rounded down only if no more than half of the divisor is left, and up only
if no less is. -/
theorem divideToEven_cases (num den : Nat) :
    (divideToEven num den = num / den ∧ 2 * (num % den) ≤ den) ∨
      (divideToEven num den = num / den + 1 ∧ den ≤ 2 * (num % den)) := by
  simp only [divideToEven]
  split <;> omega

/-- The distance of neighbouring values around a whole number of at least 53 binary digits. -/
def step (n : Nat) : Nat := 2 ^ (n.log2 - 52)

theorem step_pos (n : Nat) : 0 < step n := Nat.two_pow_pos _

variable {n : Nat} (h : 0x20000000000000 ≤ n)

include h

/-- Counted in steps, a whole number of at least 53 binary digits has 53 of them. -/
theorem quotient_bounds :
    Binary64.hiddenBit ≤ n / step n ∧ n / step n < 2 * Binary64.hiddenBit := by
  have hn : n ≠ 0 := by omega
  have hlog : 53 ≤ n.log2 := (Nat.le_log2 hn).2 h
  have hsplit : ∀ d, 2 ^ (52 + d) * step n = 2 ^ (n.log2 + d) := by
    intro d
    rw [step, ← Nat.pow_add]
    congr 1
    omega
  constructor
  · rw [Nat.le_div_iff_mul_le (step_pos n)]
    exact (hsplit 0).trans_le (Nat.log2_self_le hn)
  · rw [Nat.div_lt_iff_lt_mul (step_pos n)]
    exact Nat.lt_log2_self.trans_eq (hsplit 1).symm

end Rounding

namespace Magnitude

/-- The magnitude of a whole number of at least 53 binary digits rounded down. -/
def floor (n : Nat) : Nat := (n.log2 + 1022) * Binary64.hiddenBit + n / Rounding.step n

section Floor

variable {n : Nat} (h : 0x20000000000000 ≤ n)

include h

theorem two_zpow_eq_step : (2 : ℚ) ^ (((n.log2 + 1022 : ℕ) : Int) - 1074) = Rounding.step n := by
  have hn : n ≠ 0 := by omega
  have hlog : 53 ≤ n.log2 := (Nat.le_log2 hn).2 h
  have hexponent : ((n.log2 + 1022 : ℕ) : Int) - 1074 = (n.log2 - 52 : ℕ) := by omega
  rw [hexponent, zpow_natCast, Rounding.step, Nat.cast_pow, Nat.cast_ofNat]

/-- The number lies above the value of its floor by the rest of the division. -/
theorem cast_eq_value_floor_add : (n : ℚ) = value (floor n) + (n % Rounding.step n : ℕ) := by
  rw [floor, (value_of_significand _ (Rounding.quotient_bounds h)).1, two_zpow_eq_step h]
  exact_mod_cast (Nat.div_add_mod' n (Rounding.step n)).symm

theorem value_floor_succ : value (floor n + 1) = value (floor n) + Rounding.step n := by
  rw [value_succ, floor, (value_of_significand _ (Rounding.quotient_bounds h)).2,
    two_zpow_eq_step h]

/-- Rounding takes the floor or the magnitude after it, whichever is nearer. -/
theorem magnitude_eq_floor_or_succ :
    (Rounding.magnitude n 1 = floor n ∧ 2 * (n % Rounding.step n) ≤ Rounding.step n) ∨
      (Rounding.magnitude n 1 = floor n + 1 ∧
        Rounding.step n ≤ 2 * (n % Rounding.step n)) := by
  have hn : n ≠ 0 := by omega
  have hlog : 53 ≤ n.log2 := (Nat.le_log2 hn).2 h
  have hrounded : Rounding.magnitude n 1 =
      (n.log2 + 1022) * Binary64.hiddenBit + Rounding.divideToEven n (Rounding.step n) := by
    have hshift : 52 - n.log2 = 0 := by omega
    rw [Rounding.magnitude_one hn, hshift, Nat.pow_zero, Nat.mul_one, Rounding.step]
  rcases Rounding.divideToEven_cases n (Rounding.step n) with ⟨hdown, hhalf⟩ | ⟨hup, hhalf⟩
  · exact .inl ⟨by rw [hrounded, hdown, floor], hhalf⟩
  · exact .inr ⟨by rw [hrounded, hup, floor, Nat.add_assoc], hhalf⟩

end Floor

/-- No magnitude is nearer to a whole number than the one that it is rounded to. -/
theorem abs_value_sub_le (n other : Nat) :
    |value (Rounding.magnitude n 1) - n| ≤ |value other - n| := by
  rcases Nat.lt_or_ge n 0x20000000000000 with hsmall | hlarge
  · rw [value_magnitude hsmall, sub_self, abs_zero]
    exact abs_nonneg _
  · have hsplit := cast_eq_value_floor_add hlarge
    have hnext := value_floor_succ hlarge
    have hnonneg : (0 : ℚ) ≤ (n % Rounding.step n : ℕ) := Nat.cast_nonneg _
    have hrest : ((n % Rounding.step n : ℕ) : ℚ) ≤ Rounding.step n :=
      Nat.cast_le.mpr (Nat.mod_lt n (Rounding.step_pos n)).le
    have hnear : n - value (floor n) ≤ |value other - n| ∨
        value (floor n + 1) - n ≤ |value other - n| :=
      neighbour_nearer (floor n) other n
    rcases magnitude_eq_floor_or_succ hlarge with ⟨hdown, hhalf⟩ | ⟨hup, hhalf⟩
    · have hhalf : 2 * ((n % Rounding.step n : ℕ) : ℚ) ≤ Rounding.step n := by
        exact_mod_cast hhalf
      rw [hdown, abs_sub_comm, abs_of_nonneg (by linarith)]
      rcases hnear with hnear | hnear
      · exact hnear
      · linarith
    · have hhalf : (Rounding.step n : ℚ) ≤ 2 * ((n % Rounding.step n : ℕ) : ℚ) := by
        exact_mod_cast hhalf
      rw [hup, abs_of_nonneg (by linarith)]
      rcases hnear with hnear | hnear
      · linarith
      · exact hnear

end Magnitude

/-! ## Integers and their doubles -/

namespace Binary64

/-- No double is nearer to the number. -/
def Nearest (x : Binary64) (q : ℚ) : Prop := ∀ y : Binary64, |x.toRat - q| ≤ |y.toRat - q|

theorem abs_toRat (x : Binary64) : |x.toRat| = Magnitude.value x.magnitude := by
  have hvalue : x.value = Magnitude.value x.magnitude := rfl
  rw [toRat, hvalue]
  split
  · rw [abs_neg, abs_of_nonneg (Magnitude.value_nonneg _)]
  · rw [abs_of_nonneg (Magnitude.value_nonneg _)]

/-- The double of an integer has its sign, so they are as far apart as their magnitudes. -/
theorem abs_toRat_ofInt_sub {i : Int} (hi : i.natAbs < 0x10000000000000000) :
    |(ofInt i hi).toRat - i| =
      |Magnitude.value (Rounding.magnitude i.natAbs 1) - i.natAbs| := by
  have hvalue : (ofInt i hi).value = Magnitude.value (Rounding.magnitude i.natAbs 1) := rfl
  have hsign : (ofInt i hi).negative = decide (i < 0) := rfl
  rw [toRat, hvalue, hsign]
  by_cases hneg : i < 0
  · have habs : (i.natAbs : Int) = -i := Int.ofNat_natAbs_of_nonpos hneg.le
    have hcast : (i.natAbs : ℚ) = -i := by rw [← Int.cast_natCast, habs, Int.cast_neg]
    rw [if_pos (decide_eq_true hneg), hcast, ← abs_neg]
    congr 1
    ring
  · have habs : (i.natAbs : Int) = i := Int.natAbs_of_nonneg (not_lt.1 hneg)
    have hcast : (i.natAbs : ℚ) = i := by rw [← Int.cast_natCast, habs]
    rw [if_neg (by simpa using hneg), hcast]

end Binary64

/-- No double is nearer to an integer than the one that it is rounded to. -/
theorem Integer.nearest_toDouble (i : Integer) : i.toDouble.Nearest i.val := by
  intro y
  have habs : |(i.val : ℚ)| = i.val.natAbs := by
    rw [← Int.cast_abs, Int.abs_eq_natAbs, Int.cast_natCast]
  calc |i.toDouble.toRat - i.val|
      = |Magnitude.value (Rounding.magnitude i.val.natAbs 1) - i.val.natAbs| :=
        Binary64.abs_toRat_ofInt_sub _
    _ ≤ |Magnitude.value y.magnitude - i.val.natAbs| := Magnitude.abs_value_sub_le _ _
    _ = |(|y.toRat| - |(i.val : ℚ)|)| := by rw [Binary64.abs_toRat, habs]
    _ ≤ |y.toRat - i.val| := abs_abs_sub_abs_le _ _

end Criteria
