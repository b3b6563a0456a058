import Criteria.Proofs.Json.Number
import Criteria.Scope

/-!
# Keys and paths

A path is walked key by key, so it can be walked in parts.  An object is entered by any of its
keys.  An array is entered by the decimal text of an index, in the one way in which it is written
without sign, blank or leading zero, and by nothing else: each element has one key.

The index could also be read more generously, with a sign and zeros in front, as long as it is
then written again and compared with the key; that comes to the same.

* `Scope.resolve_descend`: a path walked in two parts.
* `arrayIndex?_eq_some_iff`, `arrayIndex?_eq_filter`: the keys of arrays, and the generous reading.
* `Scope.resolve_singleton`, `Scope.resolve_array_eq_some_iff`: one step, and one from an array.
* `Scope.LeadsTo`, `Scope.leadsTo_iff`: which key leads to which element.
* `Scope.addresses`: all of it.
-/

namespace Criteria

/-! ## Paths -/

namespace Scope

theorem resolve_none (s : Scope) : s.resolve none = none := by
  obtain ⟨root, keys⟩ := s
  rw [resolve]
  induction keys with
  | nil => rfl
  | cons key rest ih => exact ih

/-- Walking a longer path is walking the rest from where the first part leads. -/
theorem resolve_descend (s : Scope) (path : List String) (input : Option Json) :
    (s.descend path).resolve input = (Scope.mk s.root path).resolve (s.resolve input) :=
  List.foldl_append

end Scope

/-! ## Keys of arrays -/

variable {key : String} {items : List Json} {i : Nat}

theorem digitsValue_eq (cs : List Char) : digitsValue cs = Nat.ofDigitChars 10 cs 0 :=
  Numeral.foldl_digits cs

/-- A key names an element when it is what is written for the index, within the range of a
machine word. -/
theorem arrayIndex?_eq_some_iff :
    arrayIndex? key = some i ↔ key = Nat.repr i ∧ i < UInt64.size := by
  simp only [arrayIndex?]
  constructor
  · intro h
    obtain ⟨⟨hkey, hlt⟩, hi⟩ := Option.ite_none_right_eq_some.mp h
    obtain rfl := Option.some.inj hi
    exact ⟨hkey.symm, hlt⟩
  · rintro ⟨rfl, hlt⟩
    have hvalue : digitsValue (Nat.repr i).toList = i := by
      rw [digitsValue_eq, Nat.toList_repr, Nat.ofDigitChars_ten_toDigits]
    rw [hvalue]
    exact if_pos ⟨rfl, hlt⟩

/-- A path of one key is one step. -/
theorem Scope.resolve_singleton (root key : String) (v : Json) :
    (Scope.mk root [key]).resolve (some v) = Json.child? key v := rfl

/-- One step from an array leads to the element at the index that the key is written for. -/
theorem Scope.resolve_array_eq_some_iff {root : String} {v : Json} :
    (Scope.mk root [key]).resolve (some (.array items)) = some v ↔
      ∃ i, key = Nat.repr i ∧ i < UInt64.size ∧ items[i]? = some v := by
  rw [resolve_singleton, Json.child?, Option.bind_eq_some_iff]
  constructor
  · rintro ⟨i, hi, hv⟩
    obtain ⟨hkey, hlt⟩ := arrayIndex?_eq_some_iff.mp hi
    exact ⟨i, hkey, hlt, hv⟩
  · rintro ⟨i, hkey, hlt, hv⟩
    exact ⟨i, arrayIndex?_eq_some_iff.mpr ⟨hkey, hlt⟩, hv⟩

/-- The text of a number as a string. -/
theorem Numeral.eq_repr_iff :
    key = Nat.repr i ↔ Plain key.toList ∧ Nat.ofDigitChars 10 key.toList 0 = i := by
  rw [plain_iff, ← Nat.toList_repr, String.toList_inj]

/-! ### The generous reading -/

/-- Digits read behind a number, up to the range of a machine word. -/
def readDigits? : Nat → List Char → Option Nat
  | n, [] => some n
  | n, c :: rest =>
    if c.isDigit ∧ n * 10 + (c.toNat - 48) < UInt64.size then
      readDigits? (n * 10 + (c.toNat - 48)) rest
    else none

/-- A machine word read from a text that may have a plus sign and zeros in front. -/
def readWord? : List Char → Option Nat
  | [] => none
  | ['+'] => none
  | '+' :: rest => readDigits? 0 rest
  | cs => readDigits? 0 cs

theorem readDigits?_lt {n : Nat} (hn : n < UInt64.size) {cs : List Char}
    (h : readDigits? n cs = some i) : i < UInt64.size := by
  induction cs generalizing n with
  | nil =>
      obtain rfl := Option.some.inj h
      exact hn
  | cons c rest ih =>
      obtain ⟨⟨-, hnext⟩, hrest⟩ := Option.ite_none_right_eq_some.mp h
      exact ih hnext hrest

theorem readWord?_lt {cs : List Char} (h : readWord? cs = some i) : i < UInt64.size := by
  rw [readWord?.eq_def] at h
  split at h
  · exact nomatch h
  · exact nomatch h
  · exact readDigits?_lt (by decide) h
  · exact readDigits?_lt (by decide) h

/-- Reading on never makes a number smaller, so it is in range all the way if it is at the
end. -/
theorem readDigits?_of_digits {n : Nat} {cs : List Char} (h : Numeral.Digits cs)
    (hlt : Nat.ofDigitChars 10 cs n < UInt64.size) :
    readDigits? n cs = some (Nat.ofDigitChars 10 cs n) := by
  induction cs generalizing n with
  | nil => rfl
  | cons c rest ih =>
      obtain ⟨hc, hrest⟩ := List.forall_mem_cons.mp h
      have hnext : Nat.ofDigitChars 10 (c :: rest) n =
          Nat.ofDigitChars 10 rest (n * 10 + (c.toNat - 48)) := by
        rw [Nat.ofDigitChars_cons, Nat.mul_comm]
        rfl
      rw [hnext] at hlt ⊢
      have hgrows : n * 10 + (c.toNat - 48) ≤
          Nat.ofDigitChars 10 rest (n * 10 + (c.toNat - 48)) := by
        rw [Nat.ofDigitChars_eq_ofDigitChars_zero]
        exact (Nat.le_mul_of_pos_left _ (Nat.pow_pos (by decide))).trans (Nat.le_add_right _ _)
      rw [readDigits?, if_pos ⟨hc, hgrows.trans_lt hlt⟩]
      exact ih hrest hlt

theorem readWord?_of_digits {cs : List Char} (h : Numeral.Digits cs) (hne : cs ≠ []) :
    readWord? cs = readDigits? 0 cs := by
  have hplus : ∀ rest, cs ≠ '+' :: rest := by
    rintro rest rfl
    exact h.ne (d := '+') rfl List.mem_cons_self rfl
  rw [readWord?.eq_def]
  split
  · exact absurd rfl hne
  · exact absurd rfl (hplus [])
  · exact absurd rfl (hplus _)
  · rfl

/-- Keeping of the generous reading only what is written as it was read comes to the same. -/
theorem arrayIndex?_eq_filter (key : String) :
    arrayIndex? key = (readWord? key.toList).filter fun i => Nat.repr i == key := by
  ext i
  rw [arrayIndex?_eq_some_iff, Option.filter_eq_some_iff, beq_iff_eq]
  constructor
  · rintro ⟨rfl, hlt⟩
    have hvalue : Nat.ofDigitChars 10 (Nat.toDigits 10 i) 0 = i := Nat.ofDigitChars_ten_toDigits
    have hdigits := Numeral.digits_toDigits i
    rw [Nat.toList_repr, readWord?_of_digits hdigits Nat.toDigits_ne_nil,
      readDigits?_of_digits hdigits (hvalue.symm ▸ hlt), hvalue]
    exact ⟨rfl, rfl⟩
  · rintro ⟨hread, hkey⟩
    exact ⟨hkey.symm, readWord?_lt hread⟩

/-! ### Elements and their keys -/

namespace Scope

/-- In arrays of a size, one step under the key leads to the element at a place, whatever stands
there. -/
def LeadsTo (key : String) (size place : Nat) : Prop :=
  ∀ (root : String) (items : List Json), items.length = size →
    (Scope.mk root [key]).resolve (some (.array items)) = items[place]?

/-- An array of a size that holds something at one place only. -/
def marked (size place : Nat) : List Json := (List.replicate size .null).set place (.bool true)

/-- The key that leads to an element is what is written for its index. -/
theorem leadsTo_iff {size place : Nat} (hplace : place < size) (hlt : place < UInt64.size) :
    LeadsTo key size place ↔ key = Nat.repr place := by
  constructor
  · intro h
    have hlength : (marked size place).length = size := by
      rw [marked, List.length_set, List.length_replicate]
    have hmark : (marked size place)[place]? = some (.bool true) := by
      rw [marked, List.getElem?_set_self (by rwa [List.length_replicate])]
    obtain ⟨i, hkey, -, hi⟩ :=
      resolve_array_eq_some_iff.mp ((h "entry" _ hlength).trans hmark)
    by_cases heq : place = i
    · rw [hkey, heq]
    · rw [marked, List.getElem?_set_ne heq, List.getElem?_replicate] at hi
      obtain ⟨-, hnull⟩ := Option.ite_none_right_eq_some.mp hi
      exact nomatch Option.some.inj hnull
  · rintro rfl root items hlength
    have hindex : arrayIndex? (Nat.repr place) = some place :=
      arrayIndex?_eq_some_iff.mpr ⟨rfl, hlt⟩
    rw [resolve_singleton, Json.child?, hindex]
    rfl

end Scope

/-- Paths compose: walking a longer path is walking its rest from where the first part leads, and
nowhere if that leads nowhere.  A path of one key is one step, and one step from an array leads somewhere exactly when the key is the
number of an index below its length, within the range of a machine word, in decimal digits
without sign, blank or leading zero; it leads to the element at that index.  Reading a sign and
zeros as well, and keeping what is written as it was read, gives no other index.  So there is
exactly one key that leads to each element, which is what is written for its index. -/
theorem Scope.addresses :
    (∀ (s : Scope) (path : List String) (input : Option Json),
      (s.descend path).resolve input = (Scope.mk s.root path).resolve (s.resolve input) ∧
        (Scope.mk s.root path).resolve none = none) ∧
    (∀ (root key : String) (v : Json),
      (Scope.mk root [key]).resolve (some v) = Json.child? key v) ∧
    (∀ (root key : String) (items : List Json) (v : Json),
      (Scope.mk root [key]).resolve (some (.array items)) = some v ↔
        ∃ i, Numeral.Plain key.toList ∧ Nat.ofDigitChars 10 key.toList 0 = i ∧
          i < UInt64.size ∧ items[i]? = some v) ∧
    (∀ key, arrayIndex? key = (readWord? key.toList).filter fun i => Nat.repr i == key) ∧
    ∀ size place, place < size → place < UInt64.size →
      (∃! key, Scope.LeadsTo key size place) ∧ Scope.LeadsTo (Nat.repr place) size place := by
  refine ⟨fun s path input => ⟨s.resolve_descend path input, resolve_none _⟩,
    resolve_singleton, fun root key items v => ?_, arrayIndex?_eq_filter,
    fun size place hplace hlt => ?_⟩
  · rw [resolve_array_eq_some_iff]
    refine exists_congr fun i => ?_
    rw [Numeral.eq_repr_iff, and_assoc]
  · have hkey : ∀ key, Scope.LeadsTo key size place ↔ key = Nat.repr place := fun _ =>
      leadsTo_iff hplace hlt
    exact ⟨⟨Nat.repr place, (hkey _).mpr rfl, fun key => (hkey key).mp⟩, (hkey _).mpr rfl⟩

/-- The second of two elements has the key `1` and no other one. -/
theorem Scope.addresses_second :
    1 < 2 ∧ 1 < UInt64.size ∧ Scope.LeadsTo "1" 2 1 ∧ ¬ Scope.LeadsTo "01" 2 1 ∧
      ¬ Scope.LeadsTo "+1" 2 1 := by
  have hplace : 1 < 2 := by decide
  have hlt : 1 < UInt64.size := by decide
  obtain ⟨⟨key, -, hunique⟩, hone⟩ := addresses.2.2.2.2 2 1 hplace hlt
  have hkey : key = "1" := (hunique _ hone).symm
  refine ⟨hplace, hlt, hone, fun h => ?_, fun h => ?_⟩
  · exact absurd ((hunique _ h).trans hkey) (by decide)
  · exact absurd ((hunique _ h).trans hkey) (by decide)

end Criteria
