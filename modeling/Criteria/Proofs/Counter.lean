import Criteria.Proofs.Binary64.Integers
import Criteria.Proofs.Composition
import Criteria.Proofs.Relocation
import Criteria.Proofs.Session

/-!
# Counting evaluations

The operator `counter` asks whether the value under test is the number of evaluations so far.
It counts every evaluation in the context, whatever the value is and whatever the answer.  So a
list filtered by it keeps the values that are the number of their place, counted on from where
the context stood, and leaves the context as many steps further.

* `Context.withCount`: a context whose counter stands at a number.
* `Json.isInteger`: the values that are an integer, in either representation.
* `Stock.tally_some`: one evaluation.
* `BoundPredicate.filter_tally`: a run of evaluations.
* `Compiler.result_compilePredicate_shorthand`: the predicate of an operator written by itself.
* `Compiler.filter_counter`: the operator from the query to what a filter keeps and leaves.
-/

namespace Criteria

/-! ## Counters in a context -/

/-- Nothing is clamped within the signed 64-bit range. -/
theorem Integer.val_clamp {i : Int} (hlow : -0x8000000000000000 ≤ i)
    (hhigh : i < 0x8000000000000000) : (clamp i).val = i := by
  simp only [clamp]
  omega

namespace Context

variable {context : Context} {key : String}

/-- The context with a counter at a number. -/
def withCount (context : Context) (key : String) (i : Int) : Context :=
  context.insert key (.ofInt i)

/-- Adding to a counter sets it to the sum. -/
theorem increment_eq (context : Context) (key : String) (step : Int) :
    context.increment key step =
      (.clamp (context.count key + step), context.withCount key (context.count key + step)) := rfl

/-- What is found after a counter is set. -/
theorem get?_withCount (k : String) (i : Int) :
    (context.withCount key i).get? k = if k = key then some (.ofInt i) else context.get? k :=
  OrderedMap.get?_insert context.vars key k (.ofInt i)

/-- A counter stands where it was set last. -/
theorem withCount_withCount (i j : Int) :
    (context.withCount key i).withCount key j = context.withCount key j :=
  congrArg Context.mk (OrderedMap.insert_insert context.vars key (.ofInt i) (.ofInt j))

theorem count_withCount {i : Int} (hlow : -0x8000000000000000 ≤ i)
    (hhigh : i < 0x8000000000000000) : (context.withCount key i).count key = i := by
  rw [count, get?_withCount, if_pos rfl]
  change (Integer.signed? (.clamp i)).getD 0 = i
  rw [Integer.signed?, Integer.val_clamp hlow hhigh, if_pos hhigh, Option.getD_some]

/-- The context after a counter has gone up by one so many times. -/
def advance (context : Context) (key : String) : Nat → Context
  | 0 => context
  | n + 1 => advance (context.withCount key (context.count key + 1)) key n

/-- Steps of one add up. -/
theorem advance_eq {n : Nat} (hn : n ≠ 0) (hlow : -0x8000000000000000 ≤ context.count key)
    (hhigh : context.count key + n < 0x8000000000000000) :
    context.advance key n = context.withCount key (context.count key + n) := by
  induction n generalizing context with
  | zero => exact absurd rfl hn
  | succ n ih =>
      have hstep : (context.withCount key (context.count key + 1)).count key =
          context.count key + 1 := count_withCount (by omega) (by omega)
      rw [advance]
      by_cases hlast : n = 0
      · subst hlast
        rfl
      · rw [ih hlast (by omega) (by omega), hstep, withCount_withCount]
        congr 1
        omega

end Context

/-! ## One evaluation -/

/-- Whether a value is this integer, in either representation. -/
def Json.isInteger (i : Int) : Json → Bool
  | .number n => decide (n.toRat = i)
  | _ => false

namespace Stock

variable {context : Context}

/-- The check of `counter`: one more evaluation is counted, and the value is compared to the
new count as a double. -/
def tally : Check := fun value context =>
  let (count, after) := context.increment counterKey 1
  ((value.bind Json.asDouble?).any (Binary64.same · count.toDouble), after)

/-- The condition of `counter` at a scope. -/
def countingTest (scope : Scope) : Test := ⟨scope, scope.text ++ " === (this.foo+=1)", tally⟩

/-- One evaluation accepts the integer that comes next and counts up, whatever the value. -/
theorem tally_some (hlow : -0x20000000000000 < context.count counterKey)
    (hhigh : context.count counterKey + 1 < 0x20000000000000) (v : Json) :
    tally (some v) context =
      (v.isInteger (context.count counterKey + 1),
        context.withCount counterKey (context.count counterKey + 1)) := by
  have hval : (Integer.clamp (context.count counterKey + 1)).val =
      context.count counterKey + 1 := Integer.val_clamp (by omega) (by omega)
  rw [tally, Context.increment_eq]
  refine Prod.ext ?_ rfl
  cases v with
  | number n =>
      change n.toDouble.same _ = decide _
      rw [Bool.eq_iff_iff, decide_eq_true_iff, Number.same_toDouble_iff (by omega), hval]
  | _ => rfl

end Stock

/-! ## A run of evaluations -/

namespace BoundPredicate

open Stock

variable {p : Predicate} {context : Context}

/-- Evaluations one after another accept the values that are the number of their place, counted
on from where the context stands, and take the counter as many steps further. -/
theorem filter_tally (hp : p.evaluate = tally) (start : Int) (place : Nat)
    (hstart : context.count counterKey = start + place) (values : List Json)
    (hlow : -0x20000000000000 < start)
    (hhigh : start + place + values.length < 0x20000000000000) :
    (p.bind context).filter values =
      (((values.zipIdx (place + 1)).filter fun (v, i) => v.isInteger (start + i)).map Prod.fst,
        p.bind (context.advance counterKey values.length)) := by
  induction values generalizing context place with
  | nil => rfl
  | cons v rest ih =>
      rw [List.length_cons] at hhigh
      have hstep : tally (some v) context = _ := tally_some (by omega) (by omega) v
      have hnext : (context.withCount counterKey (context.count counterKey + 1)).count counterKey =
          start + (place + 1 : Nat) := by
        rw [Context.count_withCount (by omega) (by omega)]
        omega
      have hplace : context.count counterKey + 1 = start + (place + 1 : Nat) := by omega
      rw [filter_cons, hp, hstep, ih _ hnext (by omega), List.zipIdx_cons, List.filter_cons,
        List.length_cons, Context.advance, hplace]
      dsimp only
      by_cases hv : v.isInteger (start + (place + 1 : Nat)) = true
      · rw [if_pos hv, if_pos hv, List.map_cons]
      · rw [if_neg hv, if_neg hv]

end BoundPredicate

/-! ## From the query -/

/-- Joining a single test leaves it as it is, with factoring and without. -/
theorem Plan.join_test (optimize : Bool) (c : Connective) (t : Test) :
    Plan.join optimize c [.test t] = some (.test t) := by
  cases optimize <;> cases c <;> rfl

namespace Stock

/-- `counter` gives its condition on the value under test, whatever its argument. -/
theorem result_resolve_counter (limit : Nat) (q : Query) (field : Option String)
    (enclosing : Scope) :
    (runtime.resolve limit "_" q field enclosing).result =
      .ok (.test (countingTest (Site.scope ⟨"_", enclosing, field, 0⟩))) := by
  have hget : runtime.get? "_" = some counter := rfl
  have hleaf : counter.IsLeaf := fun _ _ => ⟨_, rfl⟩
  obtain ⟨result, hresult, hchecked⟩ : ∃ result,
      counter (.ofQuery q) ⟨"_", enclosing, field, 0⟩ = .done result ∧
        (runtime.resolveWithin limit limit ⟨"_", enclosing, field, 0⟩ q).result =
          Dictionary.checked "_" result :=
    Dictionary.result_resolveWithin_leaf hget hleaf limit q
  rw [Dictionary.resolve, hchecked]
  obtain rfl := Generation.done.inj hresult
  rfl

end Stock

namespace Compiler

/-- An operator written by itself, next to nothing else, is the whole predicate if it gives a
single test. -/
theorem result_compilePredicate_shorthand {c : Compiler} {name : String}
    (hname : name ≠ c.options.negationKey) {argument : Json} {t : Test}
    (ht : (c.dictionary.resolve c.options.maxDepth.toNat name (.scalar argument) none
      c.compilation.root).result = .ok (.test t)) :
    (c.compilePredicate (.all [(name, .scalar argument)])).result =
      .ok ⟨some (.test t), c.options.entryName⟩ := by
  have hplan : c.compilation.plan (.all [(name, .scalar argument)]) =
      .joined .and [.bare name (.scalar argument)] := Query.plan_singleton hname _
  have hresult : (c.compilation.answerTo ⟨name, .scalar argument, none, c.compilation.root⟩).result
      = .ok (.test t) := ht
  have hanswer := Compilation.answer_of_result_eq_ok hresult
  rw [result_compilePredicate_eq_ok_iff, hplan]
  refine ⟨List.forall_mem_singleton.mpr (by rw [hanswer, hresult]), ?_⟩
  rw [Plan.assemble, Plan.assembleAll, Plan.assembleAll, Plan.assemble, hanswer]
  exact congrArg (Predicate.mk · _) (Plan.join_test _ _ _)

/-- The counting operator, whatever its argument and with factoring or without.  Filtering keeps
the values that are the integer of their place, counted on from where the context stands: the
first value one further, the next one further again, whether or not those before are kept.
Afterwards the counter is as many steps further as there were values, and no other variable has
changed. -/
theorem filter_counter (c : Compiler) (hdictionary : c.dictionary = Stock.runtime)
    (hkey : c.options.negationKey ≠ "_") (argument : Json) :
    ∃ p, (c.compilePredicate (.all [("_", .scalar argument)])).result = .ok p ∧
      ∀ (context : Context) (values : List Json),
        -0x20000000000000 < context.count Stock.counterKey →
        context.count Stock.counterKey + values.length < 0x20000000000000 →
        ((p.bind context).filter values).1 =
            ((values.zipIdx 1).filter fun (v, i) =>
              v.isInteger (context.count Stock.counterKey + i)).map Prod.fst ∧
          (values = [] → ((p.bind context).filter values).2.context = context) ∧
          (values ≠ [] → ∃ total : Integer,
            total.val = context.count Stock.counterKey + values.length ∧
            ((p.bind context).filter values).2.context =
              context.insert Stock.counterKey (.number (.integer total)) ∧
            ((p.bind context).filter values).2.context.get? Stock.counterKey =
              some (.number (.integer total)) ∧
            ∀ key ≠ Stock.counterKey,
              ((p.bind context).filter values).2.context.get? key = context.get? key) := by
  have hresult : (c.dictionary.resolve c.options.maxDepth.toNat "_" (.scalar argument) none
      c.compilation.root).result = .ok (.test (Stock.countingTest c.compilation.root)) := by
    rw [hdictionary, Stock.result_resolve_counter]
    rfl
  refine ⟨_, result_compilePredicate_shorthand hkey.symm hresult, ?_⟩
  intro context values hlow hhigh
  rw [BoundPredicate.filter_tally rfl (context.count Stock.counterKey) 0 (by omega) values hlow
    (by omega)]
  refine ⟨rfl, ?_, fun hvalues => ?_⟩
  · rintro rfl
    rfl
  · have hcontext : context.advance Stock.counterKey values.length =
        context.withCount Stock.counterKey (context.count Stock.counterKey + values.length) :=
      Context.advance_eq (mt List.length_eq_zero_iff.mp hvalues) (by omega) (by omega)
    refine ⟨.clamp (context.count Stock.counterKey + values.length),
      Integer.val_clamp (by omega) (by omega), hcontext, ?_, fun key hother => ?_⟩
    · change (context.advance Stock.counterKey values.length).get? _ = _
      rw [hcontext, Context.get?_withCount, if_pos rfl]
      rfl
    · change (context.advance Stock.counterKey values.length).get? _ = _
      rw [hcontext, Context.get?_withCount, if_neg hother]

/-- A compiler for the operators that use the context. -/
def tallying : Compiler := ⟨Stock.runtime, .standard, fault?_standard⟩

/-- A context that is one short of zero, with another variable in front. -/
def oneShort : Context := .ofList [("bar", .bool true), ("foo", .ofInt (-1))]

/-- Integers in both representations, among them one that comes a place too late, and values
that are no numbers. -/
def mixedValues : List Json :=
  [.ofInt 0, .string "1", .number (.double (.ofInt 2 (by decide))), .ofInt 2, .null, .ofInt 5]

theorem filter_counter_mixedValues :
    tallying.dictionary = Stock.runtime ∧ tallying.options.negationKey ≠ "_" ∧
    -0x20000000000000 < oneShort.count Stock.counterKey ∧
    oneShort.count Stock.counterKey + mixedValues.length < 0x20000000000000 ∧
    ∃ p, (tallying.compilePredicate (.all [("_", .scalar (.string ""))])).result = .ok p ∧
      ((p.bind oneShort).filter mixedValues).1 =
        [.ofInt 0, .number (.double (.ofInt 2 (by decide))), .ofInt 5] ∧
      ∃ total : Integer, total.val = 5 ∧
        ((p.bind oneShort).filter mixedValues).2.context =
          oneShort.insert "foo" (.number (.integer total)) := by
  have hcount : oneShort.count Stock.counterKey = -1 := by decide
  have hlow : -0x20000000000000 < oneShort.count Stock.counterKey := by decide
  have hhigh : oneShort.count Stock.counterKey + mixedValues.length < 0x20000000000000 := by decide
  obtain ⟨p, hp, hfilter⟩ := filter_counter tallying rfl (by decide) (.string "")
  obtain ⟨hkept, -, hleft⟩ := hfilter oneShort mixedValues hlow hhigh
  obtain ⟨total, htotal, hcontext, -⟩ := hleft (List.cons_ne_nil _ _)
  refine ⟨rfl, by decide, hlow, hhigh, p, hp, ?_, total, ?_, hcontext⟩
  · rw [hkept, hcount]
    norm_num [mixedValues, List.zipIdx_cons, Json.isInteger, Number.toRat, Json.ofInt,
      Integer.clamp, Binary64.toRat_ofInt]
  · rw [htotal, hcount]
    rfl

end Compiler

end Criteria
