import Criteria.Proofs.Binary64.Rounding
import Criteria.Proofs.Json.Text

/-!
# Numbers are read back

The text of a number has a sign, digits without a leading zero, perhaps a point and digits, and
perhaps an exponent.  Each part is read up to where the next one begins.  Without point and
exponent the digits are an integer; otherwise they are a decimal, and for the text of a double
that is its shortest decimal, which is read as the double.

* `Numeral.Parts`: the parts of a text, with the decimal that they stand for.
* `Numeral.exists_parts`: the text of a decimal has such parts.
* `Json.number?_chars`: a text is read part by part.
* `Json.number?_text`: a number is read back from its text.
-/

namespace Criteria

/-! ## Texts in parts -/

namespace Numeral

/-- The parts of a text of a number without its sign. -/
structure Parts where
  /-- The digits before the point. -/
  whole : List Char
  /-- The digits behind the point, if there is one. -/
  fraction : Option (List Char)
  /-- The exponent, if there is one. -/
  exponent : Option Int
  /-- The digits before the point have no leading zero. -/
  plain : Plain whole
  /-- There are digits behind a point. -/
  digits : ∀ ds ∈ fraction, Digits ds ∧ ds ≠ []

/-- A point and the digits behind it. -/
def fractionChars : Option (List Char) → List Char
  | none => []
  | some ds => '.' :: ds

/-- An exponent with its sign. -/
def exponentChars : Option Int → List Char
  | none => []
  | some e => 'e' :: (if e < 0 then '-' else '+') :: (Nat.repr e.natAbs).toList

namespace Parts

variable (p : Parts)

/-- The text. -/
def chars : List Char := p.whole ++ (fractionChars p.fraction ++ exponentChars p.exponent)

/-- The digits behind the point, none if there is no point. -/
def places : List Char := p.fraction.getD []

/-- The power of ten of the last digit. -/
def scale : Int := p.exponent.getD 0 - p.places.length

theorem digits_places : Digits p.places := by
  obtain ⟨whole, fraction, exponent, plain, digits⟩ := p
  cases fraction with
  | none => exact fun c hc => absurd hc List.not_mem_nil
  | some ds => exact (digits ds rfl).1

theorem pointed_body :
    pointed (p.whole ++ fractionChars p.fraction) =
      (Nat.ofDigitChars 10 (p.whole ++ p.places) 0 : ℕ) * 10 ^ (-(p.places.length : Int)) := by
  have hdigits := p.digits_places
  rw [places] at *
  cases hfraction : p.fraction with
  | none => simp [fractionChars, pointed_digits p.plain.digits]
  | some ds =>
      rw [hfraction] at hdigits
      exact pointed_append p.plain.digits hdigits

/-- The text stands for its digits, moved by the places and the exponent. -/
theorem value_chars :
    value p.chars = (Nat.ofDigitChars 10 (p.whole ++ p.places) 0 : ℕ) * 10 ^ p.scale := by
  have hdigits := p.digits
  have hbody : ∀ c ∈ p.whole ++ fractionChars p.fraction, c ≠ 'e' := by
    refine List.forall_mem_append.mpr ⟨fun c hc => p.plain.digits.ne rfl hc, ?_⟩
    cases hfraction : p.fraction with
    | none => exact fun c hc => absurd hc List.not_mem_nil
    | some ds =>
        have hds : Digits ds := (hdigits ds hfraction).1
        exact List.forall_mem_cons.mpr ⟨by decide, fun c hc => hds.ne rfl hc⟩
  rw [chars, scale, ← List.append_assoc]
  cases p.exponent with
  | none =>
      rw [exponentChars, List.append_nil, value_of_forall hbody, pointed_body, Option.getD_none,
        zero_sub]
  | some e =>
      rw [exponentChars, value_append hbody, pointed_body, exponent_written, mul_assoc,
        ← zpow_add₀ (by norm_num), Option.getD_some, neg_add_eq_sub]

end Parts

/-! ## Texts of decimals in parts -/

section Shapes

variable {ds : List Char} (h : Plain ds)

include h

/-- The first digit alone has no digit behind it. -/
theorem plain_take_one : Plain (ds.take 1) := by
  have hdigits := digits_take h.digits 1
  obtain ⟨c, ds, rfl⟩ := List.exists_cons_of_ne_nil h.nonempty
  refine ⟨List.cons_ne_nil _ _, hdigits, fun hzero => ?_⟩
  rw [List.take_succ_cons, List.head?_cons] at hzero
  rw [List.take_succ_cons, Option.some.inj hzero, List.take_zero]

/-- Cut off or filled up with zeros, digits do not get a leading zero unless they are zero. -/
theorem plain_take_append (places : Nat) (hzero : ds = ['0'] → places = 0) :
    Plain (ds.take (places + 1) ++ List.replicate (places + 1 - ds.length) '0') := by
  have hdigits :=
    (digits_take h.digits (places + 1)).append (digits_replicate (places + 1 - ds.length))
  obtain ⟨c, ds, rfl⟩ := List.exists_cons_of_ne_nil h.nonempty
  refine ⟨List.cons_ne_nil _ _, hdigits, fun hhead => ?_⟩
  have hds : c :: ds = ['0'] := h.leading hhead
  rw [hzero hds, hds]
  rfl

/-- A point after the first digit, if there are others, and an exponent. -/
def Parts.scientific (leading : Int) : Parts where
  whole := ds.take 1
  fraction := if (ds.drop 1).isEmpty then none else some (ds.drop 1)
  exponent := some leading
  plain := plain_take_one h
  digits := by
    split
    · simp
    · rename_i hrest
      rintro _ ⟨⟩
      exact ⟨digits_drop h.digits 1, by simpa using hrest⟩

/-- Zeros between the point and the digits. -/
def Parts.leadingZeros (zeros : Nat) : Parts where
  whole := ['0']
  fraction := some (List.replicate zeros '0' ++ ds)
  exponent := none
  plain := plain_toDigits 0
  digits := by
    rintro _ ⟨⟩
    exact ⟨(digits_replicate zeros).append h.digits, by simp [h.nonempty]⟩

/-- A point after some of the digits, or after zeros that are added to them. -/
def Parts.pointAfter (places : Nat) (hzero : ds = ['0'] → places = 0) : Parts where
  whole := ds.take (places + 1) ++ List.replicate (places + 1 - ds.length) '0'
  fraction := some (if (ds.drop (places + 1)).isEmpty then ['0'] else ds.drop (places + 1))
  exponent := none
  plain := plain_take_append h places hzero
  digits := by
    rintro _ ⟨⟩
    split
    · exact ⟨digits_replicate 1, List.cons_ne_nil _ _⟩
    · rename_i hrest
      exact ⟨digits_drop h.digits (places + 1), by simpa using hrest⟩

theorem Parts.chars_scientific (leading : Int) :
    (Parts.scientific h leading).chars =
      ds.take 1 ++ (if (ds.drop 1).isEmpty then [] else '.' :: ds.drop 1) ++
        'e' :: (if leading < 0 then '-' else '+') :: (Nat.repr leading.natAbs).toList := by
  rw [chars, scientific, List.append_assoc]
  split
  · rfl
  · rfl

theorem Parts.chars_leadingZeros (zeros : Nat) :
    (Parts.leadingZeros h zeros).chars = '0' :: '.' :: List.replicate zeros '0' ++ ds := by
  rw [chars, leadingZeros, exponentChars, List.append_nil]
  rfl

theorem Parts.chars_pointAfter (places : Nat) (hzero : ds = ['0'] → places = 0) :
    (Parts.pointAfter h places hzero).chars = Binary64.pointAfter ds (places + 1) := by
  rw [chars, pointAfter, exponentChars, List.append_nil]
  rfl

end Shapes

/-- The text of a decimal has a point or an exponent.  A zero has no other digits. -/
theorem exists_parts {d : Decimal} (h : d.digits = 0 → d.exponent = 0) :
    ∃ p : Parts, p.chars = Binary64.decimalChars d ∧ (p.fraction.isSome ∨ p.exponent.isSome) := by
  have hplain := plain_toDigits d.digits
  have hzero : Nat.toDigits 10 d.digits = ['0'] → d.exponent = 0 := by
    intro hdigits
    refine h ?_
    rw [← Nat.ofDigitChars_ten_toDigits (n := d.digits), hdigits]
    rfl
  rw [Binary64.decimalChars, Nat.toList_repr]
  generalize Nat.toDigits 10 d.digits = ds at hplain hzero ⊢
  dsimp only
  split
  · exact ⟨_, Parts.chars_scientific hplain _, .inr rfl⟩
  · split
    · exact ⟨_, Parts.chars_leadingZeros hplain _, .inl rfl⟩
    · refine ⟨_, Parts.chars_pointAfter hplain _ fun hds => ?_, .inl rfl⟩
      rw [hzero hds, hds]
      rfl

end Numeral

/-! ## Reading -/

namespace Json

open Numeral

theorem decimalValue_eq (cs : List Char) : decimalValue cs = Nat.ofDigitChars 10 cs 0 :=
  foldl_digits cs

variable {ds rest : List Char}

/-- A run of digits is read up to what is no digit. -/
theorem digits?_append (hds : Digits ds) (hne : ds ≠ [])
    (hrest : ∀ c ∈ rest.head?, c.isDigit = false) : digits? (ds ++ rest) = some (ds, rest) := by
  obtain ⟨htake, hdrop⟩ := span_append (p := isDigit) hds hrest
  rw [digits?, htake, hdrop]
  split
  · exact absurd rfl hne
  · rfl

theorem wholePart?_append (h : Plain ds) (hrest : ∀ c ∈ rest.head?, c.isDigit = false) :
    wholePart? (ds ++ rest) = some (ds, rest) := by
  rw [wholePart?, digits?_append h.digits h.nonempty hrest]
  refine if_neg ?_
  rintro ⟨hzero, hlength⟩
  rw [h.leading hzero] at hlength
  exact hlength rfl

theorem fractionPart?_append {fraction : Option (List Char)}
    (hdigits : ∀ ds ∈ fraction, Digits ds ∧ ds ≠ [])
    (hrest : ∀ c ∈ rest.head?, c.isDigit = false ∧ c ≠ '.') :
    fractionPart? (fractionChars fraction ++ rest) = some (fraction, rest) := by
  cases fraction with
  | none =>
      rw [fractionChars, List.nil_append, fractionPart?]
      rintro cs rfl
      exact (hrest '.' rfl).2 rfl
  | some ds =>
      obtain ⟨hds, hne⟩ := hdigits ds rfl
      rw [fractionChars, List.cons_append, fractionPart?,
        digits?_append hds hne fun c hc => (hrest c hc).1]
      rfl

theorem exponentPart?_append (exponent : Option Int) (hrest : Closes rest) :
    exponentPart? (exponentChars exponent ++ rest) = some (exponent, rest) := by
  cases exponent with
  | none =>
      rw [exponentChars, List.nil_append]
      cases rest with
      | nil => rfl
      | cons c rest =>
          have hall : ∀ c ∈ [',', ']', '\x7d'], ¬ (c = 'e' ∨ c = 'E') := by simp
          exact if_neg (hall c (hrest c rfl))
  | some e =>
      have hdigits : digits? ((Nat.repr e.natAbs).toList ++ rest) =
          some (Nat.toDigits 10 e.natAbs, rest) := by
        rw [Nat.toList_repr]
        refine digits?_append (digits_toDigits _) Nat.toDigits_ne_nil fun c hc => ?_
        exact (Bool.or_eq_false_iff.mp (hrest.isNumeral c hc)).1
      have hvalue : decimalValue (Nat.toDigits 10 e.natAbs) = e.natAbs := by
        rw [decimalValue_eq, Nat.ofDigitChars_ten_toDigits]
      rw [exponentChars, List.cons_append, List.cons_append, exponentPart?, if_pos (.inl rfl)]
      split_ifs with hneg
      · have he : -(e.natAbs : Int) = e := by omega
        simp only [takeSign, hdigits, Option.map_some, hvalue, if_true, he]
      · have he : (e.natAbs : Int) = e := by omega
        simp only [takeSign, hdigits, Option.map_some, hvalue, Bool.false_eq_true, if_false, he]

/-- What comes after a fraction neither lengthens it nor begins one. -/
theorem head?_exponentChars (exponent : Option Int) (hrest : Closes rest) :
    ∀ c ∈ (exponentChars exponent ++ rest).head?, c.isDigit = false ∧ c ≠ '.' := by
  cases exponent with
  | none =>
      have hall : ∀ c ∈ [',', ']', '\x7d'], c.isDigit = false ∧ c ≠ '.' := by simp [Char.isDigit]
      exact fun c hc => hall c (hrest c hc)
  | some e =>
      rintro c ⟨⟩
      exact ⟨rfl, by decide⟩

/-- What comes after the whole part does not lengthen it. -/
theorem head?_fractionChars (fraction : Option (List Char))
    (hrest : ∀ c ∈ rest.head?, c.isDigit = false ∧ c ≠ '.') :
    ∀ c ∈ (fractionChars fraction ++ rest).head?, c.isDigit = false := by
  cases fraction with
  | none => exact fun c hc => (hrest c hc).1
  | some ds =>
      rintro c ⟨⟩
      rfl

/-- The number that parts stand for: an integer where it is whole and fits. -/
def ofParts? (negative : Bool) (whole : List Char) :
    Option (List Char) → Option Int → Option Number
  | none, none => wholeNumber? negative (decimalValue whole)
  | fraction, exponent =>
    let places := fraction.getD []
    (Binary64.ofDecimal? negative (decimalValue (whole ++ places))
      (exponent.getD 0 - places.length)).map .double

/-- A number is read part by part. -/
theorem number?_of_parts {negative : Bool} {cs afterWhole afterFraction whole : List Char}
    {fraction : Option (List Char)} {exponent : Option Int} (hsign : ∀ others, cs ≠ '-' :: others)
    (hwhole : wholePart? cs = some (whole, afterWhole))
    (hfraction : fractionPart? afterWhole = some (fraction, afterFraction))
    (hexponent : exponentPart? afterFraction = some (exponent, rest)) :
    number? ((if negative then ['-'] else []) ++ cs) =
      (ofParts? negative whole fraction exponent).map fun n => (n, rest) := by
  rw [Option.map_eq_bind]
  unfold number?
  cases negative with
  | true =>
      simp only [if_true, List.singleton_append, hwhole, hfraction, hexponent,
        Option.bind_eq_bind, Option.bind_some]
      cases fraction <;> cases exponent <;> rfl
  | false =>
      simp only [Bool.false_eq_true, if_false, List.nil_append, hwhole, hfraction, hexponent,
        Option.bind_eq_bind, Option.bind_some]
      cases fraction <;> cases exponent <;> rfl

/-- The text of parts is read as the number that they stand for. -/
theorem number?_chars (p : Parts) (negative : Bool) (hrest : Closes rest) :
    number? ((if negative then ['-'] else []) ++ (p.chars ++ rest)) =
      (ofParts? negative p.whole p.fraction p.exponent).map fun n => (n, rest) := by
  have hexponent := head?_exponentChars p.exponent hrest
  have hsign : ∀ others, p.chars ++ rest ≠ '-' :: others := by
    intro others h
    obtain ⟨c, ds, hwhole⟩ := List.exists_cons_of_ne_nil p.plain.nonempty
    rw [Parts.chars, hwhole] at h
    obtain ⟨rfl, -⟩ := List.cons.inj h
    have hdigit : '-'.isDigit = true := p.plain.digits '-' (hwhole ▸ List.mem_cons_self)
    exact nomatch hdigit
  refine number?_of_parts hsign ?_ (fractionPart?_append p.digits hexponent)
    (exponentPart?_append p.exponent hrest)
  rw [Parts.chars, List.append_assoc, List.append_assoc]
  exact wholePart?_append p.plain (head?_fractionChars p.fraction hexponent)

/-- Digits alone are the integer, as it fits. -/
theorem wholeNumber?_natAbs (i : Integer) :
    wholeNumber? (i.val < 0) i.val.natAbs = some (.integer i) := by
  have hof : Integer.ofInt? i.val = some i := dif_pos ⟨i.lower, i.upper⟩
  rw [wholeNumber?]
  by_cases hneg : i.val < 0
  · have hval : -(i.val.natAbs : Int) = i.val := by omega
    have hne : i.val.natAbs ≠ 0 := by omega
    simp only [hneg, decide_true, if_true, if_neg hne, hval, hof]
  · have hval : (i.val.natAbs : Int) = i.val := by omega
    simp only [hneg, decide_false, Bool.false_eq_true, if_false, hval, hof]

/-- With a point or an exponent the parts are a double if they stand for its shortest decimal. -/
theorem ofParts?_shortest {p : Parts} {x : Binary64} (hp : p.fraction.isSome ∨ p.exponent.isSome)
    (hx : p.chars = Binary64.decimalChars x.shortest) :
    ofParts? x.negative p.whole p.fraction p.exponent = some (.double x) := by
  have hread : Binary64.ofDecimal? x.negative (decimalValue (p.whole ++ p.places)) p.scale =
      some x := by
    refine Binary64.ofDecimal?_shortest ?_
    rw [decimalValue_eq, ← p.value_chars, hx, value_decimalChars]
  have hdecimal : ofParts? x.negative p.whole p.fraction p.exponent =
      (Binary64.ofDecimal? x.negative (decimalValue (p.whole ++ p.places)) p.scale).map
        .double := by
    rw [Parts.scale, Parts.places]
    cases hfraction : p.fraction with
    | some ds => rfl
    | none =>
        cases hexponent : p.exponent with
        | some e => rfl
        | none =>
            rw [hfraction, hexponent] at hp
            exact nomatch hp
  rw [hdecimal, hread]
  rfl

/-- A number is read back from its text. -/
theorem number?_text (n : Number) (hrest : Closes rest) :
    number? (n.text.toList ++ rest) = some (n, rest) := by
  rw [Number.toList_text, List.append_assoc]
  cases n with
  | integer i =>
      have hread := number?_chars ⟨_, none, none, plain_toDigits i.val.natAbs, by simp⟩
        (i.val < 0) hrest
      rw [ofParts?, decimalValue_eq, Nat.ofDigitChars_ten_toDigits, wholeNumber?_natAbs,
        Parts.chars, fractionChars, exponentChars, List.append_nil, List.append_nil] at hread
      exact hread
  | double x =>
      obtain ⟨p, hchars, hp⟩ := exists_parts x.exponent_shortest
      have hread := number?_chars p x.negative hrest
      rw [ofParts?_shortest hp hchars, hchars] at hread
      exact hread

end Json

end Criteria
