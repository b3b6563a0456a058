import Criteria.Operator.Stock
import Criteria.Proofs.Binary64.Nearest
import Criteria.Proofs.Json.Equality

/-!
# The order of values

Values of one kind are compared through a linear order: numbers through their doubles, texts
and truth values through their own.  Lists and objects are only ever found equal, and values of
different kinds are not compared at all.  Together this is a partial order up to equivalence,
and equal values are equivalent.

* `Json.Compared`: the values that compare, and how.
* `Json.compare?_self`, `Json.compare?_swap`, `Json.compare?_trans`, `Json.compare?_congr`,
  `Json.compare?_of_same`: the laws, one by one.
* `Stock.countP_comparingTest`: no value meets two comparisons with one argument.
* `Json.partialOrder_compare?`: all of it for three values.
-/

namespace Criteria

/-! ## Linear orders -/

instance : Std.TransCmp Binary64.compare :=
  inferInstanceAs (Std.TransCmp (compareOn Binary64.order))

/-- Two steps that do not go down do not go down together, and go up unless both stay level. -/
theorem compare_of_isLE {α : Type} {cmp : α → α → Ordering} [Std.TransCmp cmp] {a b c : α}
    (h : (cmp a b).isLE = true) (h' : (cmp b c).isLE = true) :
    cmp a c = if cmp a b = .eq ∧ cmp b c = .eq then .eq else .lt := by
  rcases Ordering.isLE_iff_eq_lt_or_eq_eq.mp h with hlt | heq
  · have hne : ¬ (cmp a b = .eq ∧ cmp b c = .eq) := fun hboth => by
      rw [hlt] at hboth
      exact nomatch hboth.1
    rw [if_neg hne]
    exact Std.TransCmp.lt_of_lt_of_isLE hlt h'
  · rw [Std.TransCmp.congr_left heq]
    rcases Ordering.isLE_iff_eq_lt_or_eq_eq.mp h' with hlt' | heq'
    · have hne : ¬ (cmp a b = .eq ∧ cmp b c = .eq) := fun hboth => by
        rw [hlt'] at hboth
        exact nomatch hboth.2
      rw [if_neg hne, hlt']
    · rw [if_pos ⟨heq, heq'⟩, heq']

namespace Number

/-- Equal numbers have doubles at one place. -/
theorem compare_toDouble_of_same {m n : Number} (h : m.place = n.place) :
    m.toDouble.compare n.toDouble = .eq := by
  cases m with
  | integer i =>
      cases n with
      | integer j =>
          have hval : i.val = j.val := Sum.inl_injective h
          have hij : i = j := by
            cases i
            cases j
            cases hval
            rfl
          rw [hij]
          exact Std.ReflCmp.compare_self
      | double y => exact absurd h Sum.inl_ne_inr
  | double x =>
      cases n with
      | integer j => exact absurd h Sum.inr_ne_inl
      | double y => exact compare_eq_iff_eq.mpr (Sum.inr_injective h)

/-- No double is nearer to a number than the one that it is compared through. -/
theorem nearest_toDouble (n : Number) : n.toDouble.Nearest n.toRat := by
  cases n with
  | integer i => exact i.nearest_toDouble
  | double x =>
      intro y
      change |x.toRat - x.toRat| ≤ _
      rw [sub_self, abs_zero]
      exact abs_nonneg _

end Number

/-! ## Values -/

namespace Json

variable {a b c : Json} {o o' : Ordering}

/-- The values that compare, kind by kind. -/
inductive Compared : Json → Json → Ordering → Prop where
  | null : Compared .null .null .eq
  | bool (p q : Bool) : Compared (.bool p) (.bool q) (Ord.compare p q)
  | number (m n : Number) : Compared (.number m) (.number n) (m.toDouble.compare n.toDouble)
  | string (s t : String) : Compared (.string s) (.string t) (Ord.compare s t)
  | array {xs ys : List Json} (equal : (Json.array xs).same (.array ys) = true) :
    Compared (.array xs) (.array ys) .eq
  | object {ms ns : List (String × Json)} (equal : (Json.object ms).same (.object ns) = true) :
    Compared (.object ms) (.object ns) .eq

theorem Compared.compare? (h : Compared a b o) : a.compare? b = some o := by
  cases h with
  | null | bool | number | string => rfl
  | array equal => exact if_pos equal
  | object equal => exact if_pos equal

theorem compared_of_compare? (h : a.compare? b = some o) : Compared a b o := by
  rw [compare?.eq_def] at h
  split at h
  · obtain rfl := Option.some.inj h
    exact .number _ _
  · obtain rfl := Option.some.inj h
    exact .string _ _
  · obtain rfl := Option.some.inj h
    exact .bool _ _
  · obtain rfl := Option.some.inj h
    exact .null
  · obtain ⟨hsame, heq⟩ := Option.ite_none_right_eq_some.mp h
    obtain rfl := Option.some.inj heq
    exact .array hsame
  · obtain ⟨hsame, heq⟩ := Option.ite_none_right_eq_some.mp h
    obtain rfl := Option.some.inj heq
    exact .object hsame
  · exact nomatch h

/-- Equal values are equivalent. -/
theorem compare?_of_same (h : a.same b = true) : a.compare? b = some .eq := by
  refine Compared.compare? ?_
  cases alike_of_same h with
  | null => exact .null
  | bool p =>
      have hself : Ord.compare p p = .eq := Std.ReflCmp.compare_self
      exact hself ▸ .bool p p
  | number places => exact Number.compare_toDouble_of_same places ▸ .number _ _
  | string s =>
      have hself : Ord.compare s s = .eq := Std.ReflCmp.compare_self
      exact hself ▸ .string s s
  | array => exact .array h
  | object => exact .object h

theorem compare?_self (h : a.DistinctKeys) : a.compare? a = some .eq :=
  compare?_of_same (same_refl h)

/-- Comparing the other way round gives the reverse. -/
theorem compare?_of_compare? (ha : a.DistinctKeys) (hb : b.DistinctKeys)
    (h : a.compare? b = some o) : b.compare? a = some o.swap := by
  refine Compared.compare? ?_
  cases compared_of_compare? h with
  | null => exact .null
  | bool p q =>
      have hswap : Ord.compare q p = (Ord.compare p q).swap := Std.OrientedCmp.eq_swap
      exact hswap ▸ .bool q p
  | number m n =>
      have hswap : n.toDouble.compare m.toDouble = (m.toDouble.compare n.toDouble).swap :=
        Std.OrientedCmp.eq_swap
      exact hswap ▸ .number n m
  | string s t =>
      have hswap : Ord.compare t s = (Ord.compare s t).swap := Std.OrientedCmp.eq_swap
      exact hswap ▸ .string t s
  | array equal => exact .array (same_symm ha hb equal)
  | object equal => exact .object (same_symm ha hb equal)

theorem compare?_swap (ha : a.DistinctKeys) (hb : b.DistinctKeys) :
    b.compare? a = (a.compare? b).map Ordering.swap := by
  cases hab : a.compare? b with
  | some o => exact compare?_of_compare? ha hb hab
  | none =>
      cases hba : b.compare? a with
      | none => rfl
      | some o => exact nomatch (compare?_of_compare? hb ha hba).symm.trans hab

/-- Two steps that do not go down can be made at once, and go up unless both stay level. -/
theorem compare?_trans (hab : a.compare? b = some o) (hbc : b.compare? c = some o')
    (ho : o.isLE = true) (ho' : o'.isLE = true) :
    a.compare? c = some (if o = .eq ∧ o' = .eq then .eq else .lt) := by
  cases compared_of_compare? hab with
  | null =>
      cases compared_of_compare? hbc
      rfl
  | bool p q =>
      cases compared_of_compare? hbc with
      | bool q r => exact congrArg some (compare_of_isLE ho ho')
  | number l m =>
      cases compared_of_compare? hbc with
      | number m n => exact congrArg some (compare_of_isLE ho ho')
  | string s t =>
      cases compared_of_compare? hbc with
      | string t u => exact congrArg some (compare_of_isLE ho ho')
  | array equal =>
      cases compared_of_compare? hbc with
      | array equal' => exact if_pos (same_trans equal equal')
  | object equal =>
      cases compared_of_compare? hbc with
      | object equal' => exact if_pos (same_trans equal equal')

/-- Equal values are equal to the same values. -/
theorem same_congr (ha : a.DistinctKeys) (hb : b.DistinctKeys) (h : a.same b = true) :
    a.same c = b.same c :=
  Bool.eq_iff_iff.mpr ⟨same_trans (same_symm ha hb h), same_trans h⟩

/-- Equivalent values compare alike to every value. -/
theorem compare?_congr (ha : a.DistinctKeys) (hb : b.DistinctKeys)
    (h : a.compare? b = some .eq) : a.compare? c = b.compare? c := by
  have hcompared := compared_of_compare? h
  generalize ho : Ordering.eq = o at hcompared
  cases hcompared with
  | null => rfl
  | bool p q => rw [Std.LawfulEqCmp.eq_of_compare ho.symm]
  | number m n =>
      cases c with
      | number k => exact congrArg some (Std.TransCmp.congr_left ho.symm)
      | _ => rfl
  | string s t => rw [Std.LawfulEqCmp.eq_of_compare ho.symm]
  | array equal =>
      cases c with
      | array zs => rw [compare?, compare?, same_congr ha hb equal]
      | _ => rfl
  | object equal =>
      cases c with
      | object os => rw [compare?, compare?, same_congr ha hb equal]
      | _ => rfl

end Json

/-! ## Operators that compare -/

namespace Stock

/-- What a comparison makes of an argument at a place. -/
def comparingTest (symbol : String) (wanted : Ordering) (expected : Json) (site : Site) : Test :=
  ⟨site.scope, site.scope.text ++ " " ++ symbol ++ " " ++ expected.text,
    .ofValue fun value => value.bind (Json.compare? · expected) == some wanted⟩

theorem comparingTest_holds_iff {symbol : String} {wanted : Ordering} {expected value : Json}
    {site : Site} {context : Context} :
    ((comparingTest symbol wanted expected site).check (some value) context).1 = true ↔
      value.compare? expected = some wanted := beq_iff_eq

/-- A value compares to the argument in one way at most. -/
theorem countP_comparingTest (expected : Json) (s t u : Site) (value : Option Json)
    (context : Context) :
    [comparingTest "===" .eq expected s, comparingTest ">" .gt expected t,
      comparingTest "<" .lt expected u].countP (fun test => (test.check value context).1) ≤ 1 := by
  change [Ordering.eq, .gt, .lt].countP
    (fun wanted => value.bind (Json.compare? · expected) == some wanted) ≤ 1
  cases value.bind (Json.compare? · expected) with
  | none => decide
  | some o =>
      cases o with
      | lt | eq | gt => decide

end Stock

namespace Json

/-- The order of values, for any three of them.

Each value is level with itself; the other way round the answer is the reverse, or there is
none; two steps that do not go down can be made at once; values that are level compare alike to
a third, and equal values are level.  Numbers compare as the numbers that their doubles stand
for do, and no double is nearer to a number than its own.  So no value meets two of the three
comparisons with one argument, wherever these are written.

In the first two of the values no object repeats a key, as in every value read from text. -/
theorem partialOrder_compare? (a b c : Json) (ha : a.DistinctKeys) (hb : b.DistinctKeys) :
    a.compare? a = some .eq ∧
    b.compare? a = (a.compare? b).map Ordering.swap ∧
    (∀ o o' : Ordering, a.compare? b = some o → b.compare? c = some o' → o.isLE = true →
      o'.isLE = true → a.compare? c = some (if o = .eq ∧ o' = .eq then .eq else .lt)) ∧
    (a.compare? b = some .eq → a.compare? c = b.compare? c) ∧
    (a.same b = true → a.compare? b = some .eq) ∧
    (∀ m n : Number, (number m).compare? (number n) =
        some (Ord.compare m.toDouble.toRat n.toDouble.toRat) ∧
      m.toDouble.Nearest m.toRat) ∧
    ∀ s t u : Site, ∃ equal greater less : Test,
      Stock.equals (.literal b) s = .give (.test equal) ∧ equal.scope = s.scope ∧
      Stock.greaterThan (.literal b) t = .give (.test greater) ∧ greater.scope = t.scope ∧
      Stock.lessThan (.literal b) u = .give (.test less) ∧ less.scope = u.scope ∧
      ∀ context,
        ((equal.check (some a) context).1 = true ↔ a.compare? b = some .eq) ∧
        ((greater.check (some a) context).1 = true ↔ a.compare? b = some .gt) ∧
        ((less.check (some a) context).1 = true ↔ a.compare? b = some .lt) ∧
        ∀ value, [equal, greater, less].countP (fun t => (t.check value context).1) ≤ 1 := by
  refine ⟨compare?_self ha, compare?_swap ha hb, fun _ _ => compare?_trans,
    compare?_congr ha hb, compare?_of_same, fun m n => ⟨?_, m.nearest_toDouble⟩, fun s t u => ?_⟩
  · rw [compare?, Binary64.compare_eq]
  · exact ⟨Stock.comparingTest "===" .eq b s, Stock.comparingTest ">" .gt b t,
      Stock.comparingTest "<" .lt b u, rfl, rfl, rfl, rfl, rfl, rfl, fun context =>
        ⟨Stock.comparingTest_holds_iff, Stock.comparingTest_holds_iff,
          Stock.comparingTest_holds_iff,
          fun value => Stock.countP_comparingTest b s t u value context⟩⟩

/-- An object with a number and a list. -/
def countFirst : Json := .object [("count", .ofInt 1), ("items", .array [.ofInt 2, .null])]

/-- The same object with its members the other way round. -/
def countLast : Json := .object [("items", .array [.ofInt 2, .null]), ("count", .ofInt 1)]

/-- The object with its number as a double. -/
def countRounded : Json :=
  .object [("count", .number (.double (.ofInt 1 (by decide)))), ("items", .array [.ofInt 2, .null])]

theorem partialOrder_compare?_reordered :
    countFirst.DistinctKeys ∧ countLast.DistinctKeys ∧
    countFirst.compare? countLast = some .eq ∧ countLast.compare? countFirst = some .eq ∧
    countFirst.compare? countRounded = none ∧ countLast.compare? countRounded = none := by
  have hfirst : countFirst.DistinctKeys :=
    ⟨by decide, trivial, ⟨trivial, trivial, trivial⟩, trivial⟩
  have hlast : countLast.DistinctKeys := ⟨by decide, ⟨trivial, trivial, trivial⟩, trivial, trivial⟩
  obtain ⟨-, hswap, -, hcongr, hsame, -⟩ :=
    partialOrder_compare? countFirst countLast countRounded hfirst hlast
  have hlevel : countFirst.compare? countLast = some .eq := hsame rfl
  have hapart : countFirst.compare? countRounded = none := rfl
  exact ⟨hfirst, hlast, hlevel, by rw [hswap, hlevel]; rfl, hapart, hcongr hlevel ▸ hapart⟩

end Json

end Criteria
