import Criteria.Proofs.Binary64.Shortest

/-!
# Decimals read as doubles

A quotient is counted in the unit of its place and the count is rounded to the nearest
integer, a half to the even one.  The magnitude that comes out covers the quotient, also where
the count is carried to the next place, where the place below has a smaller unit, and beyond
the finite doubles.  As a number is covered by one magnitude only, a decimal is read as the
double that covers it, and the shortest decimal of a double as the double.

* `Magnitude.upper_place`: the boundary above a count in the unit of a place.
* `Rounding.covers_magnitude`: a quotient is covered by the magnitude it is rounded to.
* `Binary64.ofDecimal?_of_covers`: a decimal is read as the double that covers it.
* `Binary64.ofDecimal?_shortest`: the shortest decimal of a double is read as the double.
-/

namespace Criteria

/-! ## Boundaries by place -/

namespace Magnitude

variable {place s m : Nat}

theorem two_zpow_place_succ (place : Nat) :
    (2 : ℚ) ^ (((place + 1 : ℕ) : Int) - 1074) = 2 ^ ((place : Int) - 1074) * 2 := by
  rw [← zpow_add_one₀ two_ne_zero]
  congr 1
  push_cast
  ring

/-- The boundary above a significand is half a unit away. -/
theorem upper_place (hfull : place ≠ 0 → Binary64.hiddenBit ≤ s)
    (hs : s < 2 * Binary64.hiddenBit) :
    upper (place * Binary64.hiddenBit + s) = (s + 1 / 2) * 2 ^ ((place : Int) - 1074) := by
  obtain ⟨hsignificand, hunit⟩ := parts_of_place hfull hs
  rw [upper, hsignificand, hunit, zpow_sub_one₀ two_ne_zero]
  ring

/-- A count that is carried to the next place has its boundary no nearer. -/
theorem le_upper_place (hfull : place ≠ 0 → Binary64.hiddenBit ≤ s)
    (hs : s ≤ 2 * Binary64.hiddenBit) :
    (s + 1 / 2) * 2 ^ ((place : Int) - 1074) ≤ upper (place * Binary64.hiddenBit + s) := by
  rcases hs.lt_or_eq with hlt | rfl
  · exact (upper_place hfull hlt).ge
  · have hcarry : place * Binary64.hiddenBit + 2 * Binary64.hiddenBit =
        (place + 1) * Binary64.hiddenBit + Binary64.hiddenBit := by ring
    have hunit : (0 : ℚ) < 2 ^ ((place : Int) - 1074) := by positivity
    rw [hcarry, upper_place (fun _ => le_rfl) (by decide), two_zpow_place_succ]
    push_cast
    linarith

/-- The boundary below a count is half a unit away, but nearer where the place below has a
smaller unit. -/
theorem upper_place_pred (hfull : place ≠ 0 → Binary64.hiddenBit ≤ s)
    (hs : s ≤ 2 * Binary64.hiddenBit) (hm : place * Binary64.hiddenBit + s = m + 1) :
    upper m = (s - 1 / 2) * 2 ^ ((place : Int) - 1074) ∨
      (place ≠ 0 ∧ upper m < Binary64.hiddenBit * 2 ^ ((place : Int) - 1074)) := by
  have hpos : 0 < Binary64.hiddenBit := by decide
  have hs0 : s ≠ 0 := by
    rintro rfl
    by_cases hplace : place = 0
    · subst hplace
      omega
    · exact absurd (hfull hplace) (by omega)
  obtain ⟨t, rfl⟩ := Nat.exists_eq_add_one_of_ne_zero hs0
  obtain rfl : place * Binary64.hiddenBit + t = m := by omega
  by_cases hplace : place ≠ 0 → Binary64.hiddenBit ≤ t
  · refine .inl ?_
    rw [upper_place hplace (by omega)]
    push_cast
    ring
  · obtain ⟨hplace, hlt⟩ := Classical.not_imp.mp hplace
    refine .inr ⟨hplace, ?_⟩
    obtain ⟨p, rfl⟩ := Nat.exists_eq_add_one_of_ne_zero hplace
    have hborrow : (p + 1) * Binary64.hiddenBit + t =
        p * Binary64.hiddenBit + (2 * Binary64.hiddenBit - 1) := by
      have hle := hfull hplace
      rw [Nat.succ_mul]
      omega
    have hunit : (0 : ℚ) < 2 ^ ((p : Int) - 1074) := by positivity
    rw [hborrow, upper_place (fun _ => by omega) (by omega), two_zpow_place_succ,
      Nat.cast_sub (by decide)]
    push_cast
    linarith

end Magnitude

/-! ## Rounding quotients -/

namespace Rounding

open Magnitude

/-- An integer is nearest to a number if it is no more than half away, and less if it is
odd. -/
def NearestEven (s : Nat) (r : ℚ) : Prop :=
  if s % 2 = 0 then s - 1 / 2 ≤ r ∧ r ≤ s + 1 / 2 else s - 1 / 2 < r ∧ r < s + 1 / 2

variable {place s n : Nat} {r : ℚ}

theorem NearestEven.bounds (h : NearestEven s r) : s - 1 / 2 ≤ r ∧ r ≤ s + 1 / 2 := by
  rw [NearestEven] at h
  split at h
  · exact h
  · exact ⟨h.1.le, h.2.le⟩

theorem NearestEven.le_of_lt (h : NearestEven s r) (hr : r < n) : s ≤ n := by
  have hlow := h.bounds.1
  have hlt : (s : ℚ) < (n + 1 : ℕ) := by
    push_cast
    linarith
  exact Nat.lt_succ_iff.mp (Nat.cast_lt.mp hlt)

theorem NearestEven.le_of_le (h : NearestEven s r) (hr : n ≤ r) : n ≤ s := by
  have hhigh := h.bounds.2
  have hlt : (n : ℚ) < (s + 1 : ℕ) := by
    push_cast
    linarith
  exact Nat.lt_succ_iff.mp (Nat.cast_lt.mp hlt)

/-- Division takes the nearest integer. -/
theorem nearestEven_divideToEven (num : Nat) {den : Nat} (hden : den ≠ 0) :
    NearestEven (divideToEven num den) (num / den) := by
  have hpos : (0 : ℚ) < den := Nat.cast_pos.mpr (Nat.pos_of_ne_zero hden)
  have hsplit : (num : ℚ) = (num / den : ℕ) * den + (num % den : ℕ) := by
    exact_mod_cast (Nat.div_add_mod' num den).symm
  have hrest : ((num % den : ℕ) : ℚ) < den :=
    Nat.cast_lt.mpr (Nat.mod_lt num (Nat.pos_of_ne_zero hden))
  have hnonneg : (0 : ℚ) ≤ (num % den : ℕ) := Nat.cast_nonneg _
  rw [NearestEven, le_div_iff₀ hpos, div_le_iff₀ hpos, lt_div_iff₀ hpos, div_lt_iff₀ hpos,
    divideToEven]
  generalize num % den = rest at *
  generalize num / den = quotient at *
  split
  · rename_i hdown
    have hle : (2 * rest : ℚ) ≤ den := by
      exact_mod_cast show 2 * rest ≤ den by omega
    split
    · constructor <;> linarith
    · rename_i hodd
      have hlt : (2 * rest : ℚ) < den := by
        exact_mod_cast show 2 * rest < den by omega
      constructor <;> linarith
  · rename_i hup
    have hge : (den : ℚ) ≤ 2 * rest := by
      exact_mod_cast show den ≤ 2 * rest by omega
    push_cast
    split
    · constructor <;> linarith
    · rename_i hodd
      have hlt : (den : ℚ) < 2 * rest := by
        exact_mod_cast show den < 2 * rest by omega
      constructor <;> linarith

/-- Shifted by the spacing, the quotient is counted in its units. -/
theorem shifted_div (num den : Nat) (e : Int) :
    ((num <<< (-e).toNat : ℕ) : ℚ) / (den <<< e.toNat : ℕ) = num / den / 2 ^ e := by
  obtain ⟨k, rfl | rfl⟩ := e.eq_nat_or_neg
  · simp [Nat.shiftLeft_eq, div_div]
  · simp [Nat.shiftLeft_eq, div_mul_eq_mul_div]

/-- A number that is counted in the unit of a place is covered by the place and the nearest
count. -/
theorem covers_of_nearestEven (hs : NearestEven s r)
    (hfull : place ≠ 0 → (Binary64.hiddenBit : ℚ) ≤ r) (hr : r < 2 * Binary64.hiddenBit) :
    Covers (place * Binary64.hiddenBit + s) (r * 2 ^ ((place : Int) - 1074)) := by
  have hunit : (0 : ℚ) < 2 ^ ((place : Int) - 1074) := by positivity
  have hcount : s ≤ 2 * Binary64.hiddenBit := hs.le_of_lt (by exact_mod_cast hr)
  have hcountFull : place ≠ 0 → Binary64.hiddenBit ≤ s := fun h => hs.le_of_le (hfull h)
  have hparity : (place * Binary64.hiddenBit + s) % 2 = s % 2 := by
    rw [Binary64.hiddenBit]
    omega
  have habove := le_upper_place hcountFull hcount
  cases hm : place * Binary64.hiddenBit + s with
  | zero =>
      rw [hm] at habove
      exact (mul_le_mul_of_nonneg_right hs.bounds.2 hunit.le).trans habove
  | succ m =>
      have hbelow : upper m = (s - 1 / 2) * 2 ^ ((place : Int) - 1074) ∨
          upper m < r * 2 ^ ((place : Int) - 1074) := by
        refine (upper_place_pred hcountFull hcount hm).imp_right fun h => ?_
        exact h.2.trans_le (mul_le_mul_of_nonneg_right (hfull h.1) hunit.le)
      rw [hm] at habove hparity
      rw [NearestEven] at hs
      rw [Covers, hparity]
      split
      · rename_i heven
        rw [if_pos heven] at hs
        refine ⟨?_, (mul_le_mul_of_nonneg_right hs.2 hunit.le).trans habove⟩
        rcases hbelow with h | h
        · exact h.trans_le (mul_le_mul_of_nonneg_right hs.1 hunit.le)
        · exact h.le
      · rename_i hodd
        rw [if_neg hodd] at hs
        refine ⟨?_, (mul_lt_mul_of_pos_right hs.2 hunit).trans_le habove⟩
        rcases hbelow with h | h
        · exact h.trans_lt (mul_lt_mul_of_pos_right hs.1 hunit)
        · exact h

/-- A quotient is covered by the magnitude that it is rounded to. -/
theorem covers_magnitude (num : Nat) {den : Nat} (hden : den ≠ 0) :
    Covers (magnitude num den) (num / den) := by
  by_cases hnum : num = 0
  · subst hnum
    rw [Nat.cast_zero, zero_div]
    exact (upper_pos 0).le
  · have hlow := two_zpow_binaryExponent_le hnum hden
    have hhigh := lt_two_zpow_binaryExponent num hden
    have hspacing : spacing num den = max (-1074) (binaryExponent num den - 52) := rfl
    rw [magnitude, if_neg hnum]
    dsimp only
    generalize binaryExponent num den = b at *
    generalize spacing num den = e at *
    obtain ⟨place, rfl⟩ : ∃ place : ℕ, e = place - 1074 := ⟨(e + 1074).toNat, by omega⟩
    have hplace : ((place : Int) - 1074 + 1074).toNat = place := by omega
    have hunit : (0 : ℚ) < 2 ^ ((place : Int) - 1074) := by positivity
    have hshifted : den <<< ((place : Int) - 1074).toNat ≠ 0 := by
      rw [Nat.shiftLeft_eq]
      exact Nat.mul_ne_zero hden (Nat.two_pow_pos _).ne'
    have hround := nearestEven_divideToEven (num <<< (-((place : Int) - 1074)).toNat) hshifted
    rw [shifted_div] at hround
    rw [hplace, ← div_mul_cancel₀ (num / den : ℚ) hunit.ne']
    refine covers_of_nearestEven hround (fun hne => ?_) ?_
    · rw [le_div_iff₀ hunit]
      calc (Binary64.hiddenBit : ℚ) * 2 ^ ((place : Int) - 1074)
          = 2 ^ (52 + ((place : Int) - 1074)) := by
            rw [zpow_add₀ two_ne_zero]
            norm_num [Binary64.hiddenBit]
        _ = 2 ^ b := by
            congr 1
            omega
        _ ≤ num / den := hlow
    · rw [div_lt_iff₀ hunit]
      calc (num / den : ℚ) < 2 ^ (b + 1) := hhigh
        _ ≤ 2 ^ (53 + ((place : Int) - 1074)) := zpow_le_zpow_right₀ one_le_two (by omega)
        _ = 2 * Binary64.hiddenBit * 2 ^ ((place : Int) - 1074) := by
            rw [zpow_add₀ two_ne_zero]
            norm_num [Binary64.hiddenBit]

end Rounding

/-! ## Reading decimals -/

namespace Binary64

variable {x : Binary64} {n : Nat} {e : Int} {q : ℚ}

theorem ofMagnitude?_self (x : Binary64) : ofMagnitude? x.negative x.magnitude = some x :=
  dif_pos x.finite

/-- What a double covers lies in the range of finite doubles. -/
theorem lt_of_covers (h : Magnitude.Covers x.magnitude q) : q < 2 ^ (1024 : Int) := by
  have hunit : x.unit ≤ 971 := unit_le x
  have hs : x.significand < 2 * hiddenBit := Magnitude.significand_lt _
  have hs' : (2 * x.significand + 1 : ℚ) < 2 ^ (54 : Int) := by
    have hlt : ((2 * x.significand + 1 : ℕ) : ℚ) < (4 * hiddenBit : ℕ) :=
      Nat.cast_lt.mpr (by omega)
    norm_num [hiddenBit] at hlt ⊢
    exact hlt
  calc q ≤ (2 * x.significand + 1) * 2 ^ (x.unit - 1) := h.le_upper
    _ < 2 ^ (54 : Int) * 2 ^ (x.unit - 1) := mul_lt_mul_of_pos_right hs' (by positivity)
    _ = 2 ^ (54 + (x.unit - 1)) := (zpow_add₀ two_ne_zero _ _).symm
    _ ≤ 2 ^ (1024 : Int) := zpow_le_zpow_right₀ one_le_two (by omega)

/-- A decimal with a leading digit far above those of doubles. -/
theorem lt_of_leading (hn : n ≠ 0) (h : 400 < e + (n.log2 : Int) / 4) :
    (2 : ℚ) ^ (1024 : Int) < n * 10 ^ e := by
  have hdigits : (10 : ℚ) ^ ((n.log2 : Int) / 4) ≤ n := by
    have hquarter : (n.log2 : Int) / 4 = (n.log2 / 4 : ℕ) := rfl
    rw [hquarter, zpow_natCast]
    calc (10 : ℚ) ^ (n.log2 / 4) ≤ (2 ^ 4) ^ (n.log2 / 4) :=
          pow_le_pow_left₀ (by norm_num) (by norm_num) _
      _ = 2 ^ (4 * (n.log2 / 4)) := (pow_mul _ _ _).symm
      _ ≤ 2 ^ n.log2 := pow_le_pow_right₀ one_le_two (Nat.mul_div_le _ _)
      _ ≤ n := by exact_mod_cast Nat.log2_self_le hn
  calc (2 : ℚ) ^ (1024 : Int) < 2 ^ (3 * 400 : Int) :=
        zpow_lt_zpow_right₀ one_lt_two (by norm_num)
    _ = (2 ^ (3 : Int)) ^ (400 : Int) := zpow_mul _ _ _
    _ ≤ 10 ^ (400 : Int) := zpow_le_zpow_left₀ (by norm_num) (by norm_num) (by norm_num)
    _ ≤ 10 ^ ((n.log2 : Int) / 4 + e) := zpow_le_zpow_right₀ (by norm_num) (by omega)
    _ = 10 ^ ((n.log2 : Int) / 4) * 10 ^ e := zpow_add₀ (by norm_num) _ _
    _ ≤ n * 10 ^ e := mul_le_mul_of_nonneg_right hdigits (by positivity)

/-- A decimal with digits far below those of doubles. -/
theorem lt_of_vanishing (h : e + (n.log2 : Int) < -1200) : n * 10 ^ e < Magnitude.upper 0 := by
  have hpower : (10 : ℚ) ^ e ≤ 2 ^ e := by
    obtain ⟨k, rfl⟩ : ∃ k : ℕ, e = -k := ⟨e.natAbs, by omega⟩
    rw [zpow_neg, zpow_neg, zpow_natCast, zpow_natCast]
    exact inv_anti₀ (by positivity) (pow_le_pow_left₀ (by norm_num) (by norm_num) k)
  have hupper : Magnitude.upper 0 = 2 ^ (-1075 : Int) := by
    have hs : Magnitude.significand 0 = 0 := rfl
    have hu : Magnitude.unit 0 = -1074 := rfl
    rw [Magnitude.upper, hs, hu]
    norm_num
  calc (n : ℚ) * 10 ^ e ≤ n * 2 ^ e := mul_le_mul_of_nonneg_left hpower (Nat.cast_nonneg n)
    _ < 2 ^ (n.log2 + 1 : Int) * 2 ^ e :=
        mul_lt_mul_of_pos_right (Rounding.lt_two_zpow_log2 n) (by positivity)
    _ = 2 ^ (n.log2 + 1 + e : Int) := (zpow_add₀ two_ne_zero _ _).symm
    _ ≤ 2 ^ (-1075 : Int) := zpow_le_zpow_right₀ one_le_two (by omega)
    _ = Magnitude.upper 0 := hupper.symm

/-- A decimal is read as the double that covers it. -/
theorem ofDecimal?_of_covers (h : Magnitude.Covers x.magnitude (n * 10 ^ e)) :
    ofDecimal? x.negative n e = some x := by
  have hzero : ∀ q, q ≤ Magnitude.upper 0 → Magnitude.Covers 0 q := fun _ hq => hq
  have hnearest : ∀ num den : Nat, den ≠ 0 → (num / den : ℚ) = n * 10 ^ e →
      nearest? x.negative num den = some x := by
    intro num den hden hq
    have hround := Rounding.covers_magnitude num hden
    rw [hq] at hround
    rw [nearest?, hround.unique h, ofMagnitude?_self]
  have hsmall : n * 10 ^ e ≤ Magnitude.upper 0 → ofMagnitude? x.negative 0 = some x := by
    intro hq
    rw [← (h.unique (hzero _ hq)), ofMagnitude?_self]
  rw [ofDecimal?]
  split
  · rename_i hn
    subst hn
    refine hsmall ?_
    rw [Nat.cast_zero, zero_mul]
    exact (Magnitude.upper_pos 0).le
  · split
    · rename_i hn hleading
      exact absurd (lt_of_covers h) (lt_of_leading hn hleading).le.not_gt
    · split
      · rename_i hvanishing
        exact hsmall (lt_of_vanishing hvanishing).le
      · split
        · rename_i he
          refine hnearest _ _ one_ne_zero ?_
          obtain ⟨k, rfl⟩ := Int.eq_ofNat_of_zero_le he
          simp
        · rename_i he
          refine hnearest _ _ (Nat.pow_pos (by norm_num)).ne' ?_
          obtain ⟨k, rfl⟩ : ∃ k : ℕ, e = -k := ⟨e.natAbs, by omega⟩
          simp [div_eq_mul_inv]

/-- The shortest decimal of a double is read as the double, whatever zeros it is written with. -/
theorem ofDecimal?_shortest (h : n * 10 ^ e = x.shortest.toRat) :
    ofDecimal? x.negative n e = some x :=
  ofDecimal?_of_covers (h ▸ covers_shortest x)

end Binary64

end Criteria
