import Criteria.Json.Printer
import Criteria.Proofs.Binary64.Shortest
import Mathlib.Data.List.TakeWhile

/-!
# Texts of numbers

The text of a number can be read back.  Digits, a point and an exponent stand for a
rational number, which for the text of a decimal is the decimal itself, and the shortest
decimal of a double determines its magnitude.  Integers are written without a point and
without an exponent, doubles never are.

* `Numeral.value`: the number that a text of digits, a point and an exponent stands for.
* `Numeral.Plain`, `Numeral.plain_iff`: the texts that are written for natural numbers.
* `Numeral.value_decimalChars`: the text of a decimal stands for the decimal.
* `Number.text_injective`: the text of a number determines the number.
-/

namespace Criteria

namespace Numeral

/-! ## Reading -/

/-- The number that digits with a point stand for. -/
def pointed (cs : List Char) : ℚ :=
  (Nat.ofDigitChars 10 (cs.filter (· ≠ '.')) 0 : ℕ)
    * 10 ^ (-(((cs.dropWhile (· ≠ '.')).length - 1 : ℕ) : Int))

/-- The exponent behind the digits. -/
def exponent : List Char → Int
  | 'e' :: '-' :: digits => -(Nat.ofDigitChars 10 digits 0 : ℕ)
  | 'e' :: _ :: digits => (Nat.ofDigitChars 10 digits 0 : ℕ)
  | _ => 0

/-- The number that digits with a point and an exponent stand for. -/
def value (cs : List Char) : ℚ :=
  pointed (cs.takeWhile (· ≠ 'e')) * 10 ^ exponent (cs.dropWhile (· ≠ 'e'))

/-- The text consists of digits. -/
def Digits (cs : List Char) : Prop := ∀ c ∈ cs, c.isDigit = true

variable {cs whole fraction : List Char}

theorem digits_toDigits (n : Nat) : Digits (Nat.toDigits 10 n) := fun _ h =>
  Nat.isDigit_of_mem_toDigits (by decide) (by decide) h

theorem digits_replicate (n : Nat) : Digits (List.replicate n '0') := fun _ h =>
  List.eq_of_mem_replicate h ▸ rfl

theorem Digits.append (h : Digits whole) (h' : Digits fraction) : Digits (whole ++ fraction) :=
  List.forall_mem_append.mpr ⟨h, h'⟩

theorem Digits.ne (h : Digits cs) {c d : Char} (hd : d.isDigit = false) (hc : c ∈ cs) : c ≠ d := by
  rintro rfl
  rw [h c hc] at hd
  exact nomatch hd

/-- Digits alone stand for their number. -/
theorem pointed_digits (h : Digits cs) : pointed cs = (Nat.ofDigitChars 10 cs 0 : ℕ) := by
  have hall : ∀ c ∈ cs, (decide (c ≠ '.')) = true := fun c hc =>
    decide_eq_true (h.ne rfl hc)
  rw [pointed, List.filter_eq_self.mpr hall, List.dropWhile_eq_nil_iff.mpr hall]
  simp

/-- Digits behind a point count as so many places. -/
theorem pointed_append (h : Digits whole) (h' : Digits fraction) :
    pointed (whole ++ '.' :: fraction) =
      (Nat.ofDigitChars 10 (whole ++ fraction) 0 : ℕ) * 10 ^ (-(fraction.length : Int)) := by
  have hwhole : ∀ c ∈ whole, (decide (c ≠ '.')) = true := fun c hc =>
    decide_eq_true (h.ne rfl hc)
  have hfraction : ∀ c ∈ fraction, (decide (c ≠ '.')) = true := fun c hc =>
    decide_eq_true (h'.ne rfl hc)
  rw [pointed, List.filter_append, List.filter_eq_self.mpr hwhole,
    List.filter_cons_of_neg (by simp), List.filter_eq_self.mpr hfraction,
    List.dropWhile_append_of_pos hwhole, List.dropWhile_cons_of_neg (by simp), List.length_cons, Nat.add_sub_cancel]

/-- Without an exponent the digits and the point are all. -/
theorem value_of_forall (h : ∀ c ∈ cs, c ≠ 'e') : value cs = pointed cs := by
  have hall : ∀ c ∈ cs, (decide (c ≠ 'e')) = true := fun c hc => decide_eq_true (h c hc)
  rw [value, List.takeWhile_eq_self_iff.mpr hall, List.dropWhile_eq_nil_iff.mpr hall]
  simp [exponent]

theorem value_append (h : ∀ c ∈ cs, c ≠ 'e') (rest : List Char) :
    value (cs ++ 'e' :: rest) = pointed cs * 10 ^ exponent ('e' :: rest) := by
  have hall : ∀ c ∈ cs, (decide (c ≠ 'e')) = true := fun c hc => decide_eq_true (h c hc)
  rw [value, List.takeWhile_append_of_pos hall, List.dropWhile_append_of_pos hall,
    List.takeWhile_cons_of_neg (by simp), List.dropWhile_cons_of_neg (by simp), List.append_nil]

/-- An exponent is written with its sign. -/
theorem exponent_written (e : Int) :
    exponent ('e' :: (if e < 0 then '-' else '+') :: (Nat.repr e.natAbs).toList) = e := by
  rw [Nat.toList_repr]
  split
  · rw [exponent, Nat.ofDigitChars_ten_toDigits]
    omega
  · change ((Nat.ofDigitChars 10 (Nat.toDigits 10 e.natAbs) 0 : ℕ) : Int) = e
    rw [Nat.ofDigitChars_ten_toDigits]
    omega

/-! ## Plain numbers -/

/-- Digits are read from the left. -/
theorem foldl_digits (cs : List Char) :
    cs.foldl (fun n c => n * 10 + (c.toNat - 48)) 0 = Nat.ofDigitChars 10 cs 0 := by
  rw [Nat.ofDigitChars_eq_foldl]
  congr 1
  funext n c
  rw [Nat.mul_comm]
  rfl

section Plain

variable {n : Nat}

/-- The text is a number in decimal digits, without sign, blank or leading zero. -/
structure Plain (cs : List Char) : Prop where
  /-- There is a digit. -/
  nonempty : cs ≠ []
  /-- There is nothing but digits. -/
  digits : Digits cs
  /-- A zero in front is the whole number. -/
  leading : cs.head? = some '0' → cs = ['0']

/-- A digit is written for its value. -/
theorem digitChar_value {c : Char} (h : c.isDigit = true) :
    c.toNat - 48 < 10 ∧ (c.toNat - 48).digitChar = c := by
  have hrange : 48 ≤ c.toNat ∧ c.toNat ≤ 57 := Char.isDigit_iff_toNat.mp h
  have hlt : c.toNat - 48 < 10 := by omega
  refine ⟨hlt, Char.toNat_inj.mp ?_⟩
  rw [Nat.toNat_digitChar_of_lt_ten hlt]
  omega

/-- Digits behind a number that is not zero lengthen its text. -/
theorem toDigits_append (hn : 0 < n) (h : Digits cs) :
    Nat.toDigits 10 n ++ cs = Nat.toDigits 10 (Nat.ofDigitChars 10 cs n) := by
  induction cs generalizing n with
  | nil => exact List.append_nil _
  | cons c rest ih =>
      obtain ⟨hc, hrest⟩ := List.forall_mem_cons.mp h
      obtain ⟨hlt, hchar⟩ := digitChar_value hc
      calc Nat.toDigits 10 n ++ c :: rest
          = (Nat.toDigits 10 n ++ Nat.toDigits 10 (c.toNat - 48)) ++ rest := by
            rw [Nat.toDigits_of_lt_base hlt, hchar, List.append_assoc, List.singleton_append]
        _ = Nat.toDigits 10 (10 * n + (c.toNat - 48)) ++ rest := by
            rw [Nat.toDigits_append_toDigits (by decide) hn hlt]
        _ = Nat.toDigits 10 (Nat.ofDigitChars 10 (c :: rest) n) := by
            rw [ih (by omega) hrest, Nat.ofDigitChars_cons]
            rfl

/-- A plain text is what is written for its number. -/
theorem Plain.toDigits (h : Plain cs) : Nat.toDigits 10 (Nat.ofDigitChars 10 cs 0) = cs := by
  cases cs with
  | nil => exact absurd rfl h.nonempty
  | cons c rest =>
      obtain ⟨hc, hrest⟩ := List.forall_mem_cons.mp h.digits
      obtain ⟨hlt, hchar⟩ := digitChar_value hc
      by_cases hzero : c.toNat - 48 = 0
      · have hleading : c :: rest = ['0'] := h.leading (by rw [← hchar, hzero]; rfl)
        rw [hleading]
        rfl
      · have hvalue : Nat.ofDigitChars 10 (c :: rest) 0 =
            Nat.ofDigitChars 10 rest (c.toNat - 48) := by
          rw [Nat.ofDigitChars_cons, Nat.mul_zero, Nat.zero_add]
          rfl
        rw [hvalue, ← toDigits_append (Nat.pos_of_ne_zero hzero) hrest,
          Nat.toDigits_of_lt_base hlt, hchar, List.singleton_append]

/-- Only the text of zero begins with a zero. -/
theorem head?_toDigits_ne (hn : 0 < n) : (Nat.toDigits 10 n).head? ≠ some '0' := by
  induction n using Nat.strongRecOn with
  | ind n ih =>
      rw [Nat.toDigits_eq_if (by decide)]
      split
      · rename_i hlt
        intro hhead
        have hchar : n.digitChar = '0' := Option.some.inj hhead
        have hvalue : n.digitChar.toNat = 48 + n := Nat.toNat_digitChar_of_lt_ten hlt
        rw [hchar] at hvalue
        change 48 = 48 + n at hvalue
        omega
      · have hdiv : 0 < n / 10 := Nat.div_pos (by omega) (by decide)
        rw [List.head?_append_of_ne_nil _ Nat.toDigits_ne_nil]
        exact ih (n / 10) (by omega) hdiv

theorem plain_toDigits (n : Nat) : Plain (Nat.toDigits 10 n) where
  nonempty := Nat.toDigits_ne_nil
  digits := digits_toDigits n
  leading hhead := by
    rcases Nat.eq_zero_or_pos n with rfl | hn
    · rfl
    · exact absurd hhead (head?_toDigits_ne hn)

/-- The texts that are written for a number. -/
theorem plain_iff : Plain cs ∧ Nat.ofDigitChars 10 cs 0 = n ↔ cs = Nat.toDigits 10 n := by
  constructor
  · rintro ⟨hplain, rfl⟩
    exact hplain.toDigits.symm
  · rintro rfl
    exact ⟨plain_toDigits n, Nat.ofDigitChars_ten_toDigits⟩

end Plain

/-! ## Texts of decimals -/

section Shapes

variable {digits : List Char} (h : Digits digits)

include h

theorem digits_take (n : Nat) : Digits (digits.take n) := fun c hc => h c (List.mem_of_mem_take hc)

theorem digits_drop (n : Nat) : Digits (digits.drop n) := fun c hc => h c (List.mem_of_mem_drop hc)

/-- Digits with a point after the first one. -/
theorem pointed_scientific (hlength : 0 < digits.length) :
    pointed (digits.take 1 ++ if (digits.drop 1).isEmpty then [] else '.' :: digits.drop 1) =
      (Nat.ofDigitChars 10 digits 0 : ℕ) * 10 ^ (1 - (digits.length : Int)) := by
  split
  · rename_i hrest
    have hone : digits.length = 1 := by
      rw [List.isEmpty_iff, List.drop_eq_nil_iff] at hrest
      omega
    rw [List.append_nil, List.take_of_length_le hone.le, pointed_digits h, hone]
    simp
  · rw [pointed_append (digits_take h 1) (digits_drop h 1), List.take_append_drop, List.length_drop,
      Nat.cast_sub hlength]
    congr 2
    ring

/-- A scientific text stands for its digits, moved by the exponent. -/
theorem value_scientific (hlength : 0 < digits.length) (leading : Int) :
    value (digits.take 1 ++ (if (digits.drop 1).isEmpty then [] else '.' :: digits.drop 1)
        ++ 'e' :: (if leading < 0 then '-' else '+') :: (Nat.repr leading.natAbs).toList) =
      (Nat.ofDigitChars 10 digits 0 : ℕ) * 10 ^ (leading + 1 - digits.length) := by
  have hplain : ∀ c ∈ digits.take 1 ++ (if (digits.drop 1).isEmpty then [] else
      '.' :: digits.drop 1), c ≠ 'e' := by
    refine List.forall_mem_append.mpr ⟨fun c hc => (digits_take h 1).ne rfl hc, ?_⟩
    split
    · exact fun c hc => absurd hc List.not_mem_nil
    · exact List.forall_mem_cons.mpr ⟨by decide, fun c hc => (digits_drop h 1).ne rfl hc⟩
  rw [value_append hplain, pointed_scientific h hlength, exponent_written, mul_assoc,
    ← zpow_add₀ (by norm_num)]
  congr 2
  ring

/-- Zeros between the point and the digits move them. -/
theorem value_leadingZeros (zeros : Nat) :
    value ('0' :: '.' :: List.replicate zeros '0' ++ digits) =
      (Nat.ofDigitChars 10 digits 0 : ℕ) * 10 ^ (-(zeros + digits.length : Int)) := by
  have hzero : Digits ['0'] := digits_replicate 1
  have hfraction : Digits (List.replicate zeros '0' ++ digits) := (digits_replicate zeros).append h
  change value (['0'] ++ '.' :: (List.replicate zeros '0' ++ digits)) = _
  rw [value_of_forall, pointed_append hzero hfraction, List.length_append, List.length_replicate]
  · simp [Nat.ofDigitChars_cons, Nat.ofDigitChars_append]
  · refine List.forall_mem_append.mpr ⟨fun c hc => hzero.ne rfl hc, ?_⟩
    exact List.forall_mem_cons.mpr ⟨by decide, fun c hc => hfraction.ne rfl hc⟩

/-- A point after some of the digits, or after zeros that are added to them, moves
them. -/
theorem value_pointAfter (places : Nat) :
    value (Binary64.pointAfter digits places) =
      (Nat.ofDigitChars 10 digits 0 : ℕ) * 10 ^ (places - (digits.length : Int)) := by
  have hwhole : Digits (digits.take places ++ List.replicate (places - digits.length) '0') :=
    (digits_take h places).append (digits_replicate _)
  have hrest : Digits (if (digits.drop places).isEmpty then ['0'] else digits.drop places) := by
    split
    · exact digits_replicate 1
    · exact digits_drop h places
  rw [Binary64.pointAfter, value_of_forall, pointed_append hwhole hrest]
  · split
    · rename_i hnone
      have hle : digits.length ≤ places := by
        rwa [List.isEmpty_iff, List.drop_eq_nil_iff] at hnone
      have hzeros : (places : Int) - digits.length = (places - digits.length : Nat) :=
        (Nat.cast_sub hle).symm
      rw [List.take_of_length_le hle, List.append_assoc, Nat.ofDigitChars_append,
        Nat.ofDigitChars_append, Nat.ofDigitChars_replicate_zero, hzeros, zpow_natCast]
      simp [Nat.ofDigitChars_cons]
      ring
    · rename_i hsome
      have hlt : places < digits.length := by
        rwa [List.isEmpty_iff, List.drop_eq_nil_iff, Nat.not_le] at hsome
      rw [Nat.sub_eq_zero_of_le hlt.le, List.replicate_zero, List.append_nil,
        List.take_append_drop, List.length_drop, Nat.cast_sub hlt.le]
      congr 2
      ring
  · refine List.forall_mem_append.mpr ⟨fun c hc => hwhole.ne rfl hc, ?_⟩
    exact List.forall_mem_cons.mpr ⟨by decide, fun c hc => hrest.ne rfl hc⟩

end Shapes

/-- The text of a decimal stands for the decimal. -/
theorem value_decimalChars (d : Decimal) : value (Binary64.decimalChars d) = d.toRat := by
  have hdigits := digits_toDigits d.digits
  have hread : Nat.ofDigitChars 10 (Nat.toDigits 10 d.digits) 0 = d.digits :=
    Nat.ofDigitChars_ten_toDigits
  have hlength : 0 < (Nat.toDigits 10 d.digits).length := Nat.length_toDigits_pos
  rw [Binary64.decimalChars, Nat.toList_repr]
  generalize Nat.toDigits 10 d.digits = digits at hdigits hread hlength ⊢
  rw [Decimal.toRat, ← hread]
  dsimp only
  split
  · rw [value_scientific hdigits hlength]
    congr 2
    ring
  · split
    · rw [value_leadingZeros hdigits]
      congr 2
      omega
    · rw [value_pointAfter hdigits]
      congr 2
      omega

/-! ## Characters -/

/-- The characters that texts of numbers are made of. -/
def isNumeral (c : Char) : Bool := c.isDigit || ['.', 'e', '+', '-'].contains c

/-- A text of such characters, the first of which is a digit. -/
def Unsigned (cs : List Char) : Prop :=
  (∃ first rest, cs = first :: rest ∧ first.isDigit = true) ∧ ∀ c ∈ cs, isNumeral c = true

theorem Digits.isNumeral (h : Digits cs) : ∀ c ∈ cs, isNumeral c = true := fun c hc => by
  rw [Numeral.isNumeral, h c hc, Bool.true_or]

theorem Digits.unsigned (h : Digits cs) (hne : cs ≠ []) : Unsigned cs := by
  refine ⟨?_, h.isNumeral⟩
  cases cs with
  | nil => exact absurd rfl hne
  | cons first rest => exact ⟨first, rest, rfl, h first List.mem_cons_self⟩

theorem Unsigned.append {more : List Char} (h : Unsigned cs)
    (hmore : ∀ c ∈ more, isNumeral c = true) : Unsigned (cs ++ more) := by
  obtain ⟨⟨first, rest, rfl, hfirst⟩, hall⟩ := h
  exact ⟨⟨first, rest ++ more, rfl, hfirst⟩, List.forall_mem_append.mpr ⟨hall, hmore⟩⟩

theorem Unsigned.ne_sign (h : Unsigned cs) (rest : List Char) : cs ≠ '-' :: rest := by
  obtain ⟨⟨first, others, rfl, hfirst⟩, -⟩ := h
  rintro hsign
  obtain ⟨rfl, -⟩ := List.cons.inj hsign
  exact nomatch hfirst

theorem unsigned_toDigits (n : Nat) : Unsigned (Nat.toDigits 10 n) :=
  (digits_toDigits n).unsigned Nat.toDigits_ne_nil

/-- The text of a decimal begins with a digit, and a point or an exponent follows. -/
theorem unsigned_decimalChars (d : Decimal) :
    Unsigned (Binary64.decimalChars d) ∧
      ∃ c ∈ Binary64.decimalChars d, c.isDigit = false := by
  have hdigits := digits_toDigits d.digits
  have hne : Nat.toDigits 10 d.digits ≠ [] := Nat.toDigits_ne_nil
  rw [Binary64.decimalChars, Nat.toList_repr]
  generalize Nat.toDigits 10 d.digits = digits at hdigits hne ⊢
  have htake : ∀ n, Unsigned (digits.take (n + 1)) := fun n =>
    (digits_take hdigits _).unsigned fun h => by
      rcases List.take_eq_nil_iff.mp h with h | h
      · exact absurd h (Nat.succ_ne_zero n)
      · exact hne h
  dsimp only
  split
  · refine ⟨((htake 0).append ?_).append ?_, 'e', by simp, rfl⟩
    · split
      · exact fun c hc => absurd hc List.not_mem_nil
      · exact List.forall_mem_cons.mpr ⟨rfl, (digits_drop hdigits 1).isNumeral⟩
    · refine List.forall_mem_cons.mpr ⟨rfl, List.forall_mem_cons.mpr ⟨?_, ?_⟩⟩
      · split <;> rfl
      · rw [Nat.toList_repr]
        exact (digits_toDigits _).isNumeral
  · split
    · refine ⟨((digits_replicate 1).unsigned (List.cons_ne_nil _ _)).append
        (List.forall_mem_cons.mpr ⟨rfl, ?_⟩), '.', by simp, rfl⟩
      exact ((digits_replicate _).append hdigits).isNumeral
    · refine ⟨((htake _).append (digits_replicate _).isNumeral).append
        (List.forall_mem_cons.mpr ⟨rfl, ?_⟩), '.', by simp [Binary64.pointAfter], rfl⟩
      split
      · exact (digits_replicate 1).isNumeral
      · exact (digits_drop hdigits _).isNumeral

end Numeral

/-! ## Numbers -/

namespace Number

/-- Whether the text of the number has a sign. -/
def isNegative : Number → Bool
  | .integer i => i.val < 0
  | .double x => x.negative

/-- The text of the number without its sign. -/
def unsigned : Number → List Char
  | .integer i => Nat.toDigits 10 i.val.natAbs
  | .double x => Binary64.decimalChars x.shortest

theorem toList_text (n : Number) :
    n.text.toList = (if n.isNegative then ['-'] else []) ++ n.unsigned := by
  cases n with
  | integer i =>
      have hrepr := Int.repr_eq_if (a := i.val)
      rw [text, Int.toString_eq_repr, hrepr, isNegative, unsigned]
      by_cases h : 0 ≤ i.val
      · rw [if_pos h, if_neg (by simpa using h), Nat.toList_repr,
          show i.val.toNat = i.val.natAbs by omega]
        rfl
      · rw [if_neg h, if_pos (by simpa using h), String.toList_append, Nat.toList_repr,
          show (-i.val).toNat = i.val.natAbs by omega]
        rfl
  | double x =>
      rw [text, Binary64.text, String.toList_append, String.toList_ofList, isNegative, unsigned]
      split <;> rfl

theorem unsigned_unsigned (n : Number) : Numeral.Unsigned n.unsigned := by
  cases n with
  | integer i => exact Numeral.unsigned_toDigits _
  | double x => exact (Numeral.unsigned_decimalChars _).1

/-- The text of a number is made of characters of numbers. -/
theorem isNumeral_text (n : Number) : ∀ c ∈ n.text.toList, Numeral.isNumeral c = true := by
  rw [toList_text]
  refine List.forall_mem_append.mpr ⟨?_, (unsigned_unsigned n).2⟩
  split
  · exact List.forall_mem_singleton.mpr rfl
  · exact fun c hc => absurd hc List.not_mem_nil

/-- An integer and a double are never written alike, as only doubles have a point or
an exponent. -/
theorem unsigned_integer_ne (i : Integer) (x : Binary64) :
    unsigned (.integer i) ≠ unsigned (.double x) := by
  intro h
  obtain ⟨c, hc, hmark⟩ := (Numeral.unsigned_decimalChars x.shortest).2
  have hdigit : c.isDigit = true := Numeral.digits_toDigits i.val.natAbs c (by
    change Nat.toDigits 10 i.val.natAbs = _ at h
    rw [h]
    exact hc)
  rw [hdigit] at hmark
  exact nomatch hmark

/-- Numbers with the same sign that are written alike are the same. -/
theorem eq_of_unsigned_eq {m n : Number} (hsign : m.isNegative = n.isNegative)
    (h : m.unsigned = n.unsigned) : m = n := by
  cases m with
  | integer i =>
      cases n with
      | integer j =>
          have hread := congrArg (Nat.ofDigitChars 10 · 0) h
          simp only [unsigned, Nat.ofDigitChars_ten_toDigits] at hread
          have hval : i.val = j.val := by
            have hneg : i.val < 0 ↔ j.val < 0 := decide_eq_decide.mp hsign
            omega
          cases i
          cases j
          cases hval
          rfl
      | double y => exact absurd h (unsigned_integer_ne i y)
  | double x =>
      cases n with
      | integer j => exact absurd h.symm (unsigned_integer_ne j x)
      | double y =>
          have hvalue := congrArg Numeral.value h
          simp only [unsigned, Numeral.value_decimalChars] at hvalue
          have hmagnitude := Binary64.magnitude_eq_of_shortest hvalue
          cases x
          cases y
          cases hsign
          cases hmagnitude
          rfl

/-- The text of a number determines the number. -/
theorem text_injective : Function.Injective Number.text := by
  intro m n h
  have hchars := congrArg String.toList h
  rw [toList_text, toList_text] at hchars
  have hm := (unsigned_unsigned m).ne_sign
  have hn := (unsigned_unsigned n).ne_sign
  cases hsign : m.isNegative <;> cases hsign' : n.isNegative <;> rw [hsign, hsign'] at hchars
  · exact eq_of_unsigned_eq (hsign.trans hsign'.symm) hchars
  · exact absurd hchars (hm _)
  · exact absurd hchars.symm (hn _)
  · exact eq_of_unsigned_eq (hsign.trans hsign'.symm) (List.append_cancel_left hchars)

end Number

end Criteria
