import Criteria.Operator.Combinators
import Criteria.Proofs.Expr.Counting
import Criteria.Proofs.FirstError
import Criteria.Proofs.Vacuity

/-!
# Factoring loses and invents no conditions

A query compiled with factoring has the conditions of the same query compiled without
it, each perhaps less often.  This holds for any operators: whatever their tests do,
conditions are only compared.  Where operators give no empty conjunctions and
disjunctions, the number of connectives is one less than the number of atoms, so the
factored expression is not the larger one.

* `Plan.thins_assemble`: the conditions of a plan's expression, with factoring and
  without.
* `Compiler.thinned_compilePredicate`: the two predicates of a query.
-/

namespace Criteria

open Criteria.Expr

namespace Expr

/-! ## Guards -/

theorem conditions_guarded (scope child : Scope) (e : Expr) :
    (Compilation.guarded scope child e).conditions =
      conditionsOfAll [.truthy scope, .truthy child, .isObject child] + e.conditions := by
  rw [Compilation.guarded, conditions_all, ← conditionsOfAll_singleton e,
    ← conditionsOfAll_append]
  rfl

end Expr

namespace Plan

/-! ## Plans with factoring and without -/

variable {T : Test → Prop} {optimize : Bool} {answer : Request → Expr}

/-- A join has the conditions of what is joined. -/
theorem conditionsOfAll_combine? (c : Connective) (parts : List Expr) :
    conditionsOfAll (c.combine? parts).toList = conditionsOfAll parts := by
  cases parts with
  | nil => rfl
  | cons e rest =>
      change conditionsOfAll [c.combine (e :: rest)] = _
      rw [conditionsOfAll_singleton, conditions_combine]

/-- With factoring and without, a plan has an expression or has none. -/
theorem assemble_eq_none_or_some {p : Plan} {scope : Scope}
    (ha : ∀ r ∈ p.requests scope, (answer r).Fit T) :
    (p.assemble true answer scope = none ∧ p.assemble false answer scope = none) ∨
      ∃ d e, p.assemble true answer scope = some d ∧ p.assemble false answer scope = some e := by
  by_cases hv : p.isVacuous = true
  · exact .inl ⟨(assemble_eq_none_iff ha).mpr hv, (assemble_eq_none_iff ha).mpr hv⟩
  · have hsome : ∀ on, ∃ e, p.assemble on answer scope = some e := fun on =>
      Option.ne_none_iff_exists'.mp (mt (assemble_eq_none_iff ha).mp hv)
    obtain ⟨d, hd⟩ := hsome true
    obtain ⟨e, he⟩ := hsome false
    exact .inr ⟨d, e, hd, he⟩

/-- The conditions of several parts are thinned if those of each are. -/
theorem thins_assembleAll {scope : Scope} {parts : List Plan}
    (h : ∀ p ∈ parts, Thins (conditionsOfAll (p.assemble true answer scope).toList)
      (conditionsOfAll (p.assemble false answer scope).toList)) :
    Thins (conditionsOfAll (assembleAll true answer scope parts))
      (conditionsOfAll (assembleAll false answer scope parts)) := by
  induction parts with
  | nil => exact .refl _
  | cons p rest ih =>
      rw [assembleAll, assembleAll, conditionsOfAll_append, conditionsOfAll_append]
      exact (h p List.mem_cons_self).add (ih fun p hp => h p (List.mem_cons_of_mem _ hp))

/-- Factoring thins the conditions of a plan's expression. -/
theorem thins_assemble {p : Plan} {scope : Scope}
    (ha : ∀ r ∈ p.requests scope, (answer r).Fit T) :
    Thins (conditionsOfAll (p.assemble true answer scope).toList)
      (conditionsOfAll (p.assemble false answer scope).toList) := by
  induction p generalizing scope with
  | bare operator argument => exact .refl _
  | onField field operator argument => exact .refl _
  | within field inner ih =>
      have hfit : ∀ r ∈ inner.requests (scope.child field), (answer r).Fit T := ha
      have hinner := ih hfit
      rw [assemble, assemble]
      rcases assemble_eq_none_or_some hfit with ⟨hd, he⟩ | ⟨d, e, hd, he⟩
      · rw [hd, he]
        exact .refl _
      · rw [hd, he, Option.toList_some, Option.toList_some, conditionsOfAll_singleton,
          conditionsOfAll_singleton] at hinner
        rw [hd, he, Option.map_some, Option.map_some, Option.toList_some, Option.toList_some,
          conditionsOfAll_singleton, conditionsOfAll_singleton, conditions_guarded,
          conditions_guarded]
        exact (Thins.refl _).add hinner
  | negated inner ih =>
      have hnot : ∀ o : Option Expr,
          conditionsOfAll (o.map .not).toList = conditionsOfAll o.toList := by
        rintro (_ | e)
        · rfl
        · rfl
      rw [assemble, assemble, hnot, hnot]
      exact ih ha
  | joined c parts ih =>
      rw [assemble, assemble, join, join, conditionsOfAll_combine?, conditionsOfAll_combine?]
      exact (thins_factor _ c _).trans (thins_assembleAll fun p hp =>
        ih p hp fun r hr => ha r (mem_requestsOfAll.mpr ⟨p, hp, hr⟩))

end Plan

/-- Truthiness of the value under test and of variables, and of neither. -/
def Stock.readers : Dictionary :=
  .ofList
    [("show", showScope), ("var", contextVariable), ("neither", Generator.noneOf ["show", "var"])]

namespace Compiler

/-- A query that compiles does so with factoring and without.  Either it has no condition,
or the atoms of the factored expression are among those of the plain one, as often as they
occur, and none is missing altogether.  Where no operator of the query gives an empty
conjunction or disjunction, the factored expression has no more connectives. -/
theorem thinned_compilePredicate (c : Compiler) {q : Query} {p : Predicate}
    (h : (c.compilePredicate q).result = .ok p) :
    ∃ factored plain, ((c.withOptimizer true).compilePredicate q).result = .ok factored ∧
      ((c.withOptimizer false).compilePredicate q).result = .ok plain ∧
      ((factored.expr = none ∧ plain.expr = none) ∨
        ∃ d e, factored.expr = some d ∧ plain.expr = some e ∧
          (∀ a, d.atoms.count a ≤ e.atoms.count a) ∧
          (∀ a ∈ e.atoms, d.atoms.contains a = true) ∧
          ((∀ leaf ∈ q.operands c.options.negationKey, ∀ f,
              (c.compilation.resolution leaf).result = .ok f → f.isFull = true) →
            d.connectives ≤ e.connectives)) := by
  obtain ⟨ha, -⟩ := result_compilePredicate_eq_ok_iff.mp h
  have hfit := fun r hr => Compilation.fit_answer hr (ha r hr)
  refine ⟨_, _, result_compilePredicate_eq_ok_iff.mpr ⟨ha, rfl⟩,
    result_compilePredicate_eq_ok_iff.mpr ⟨ha, rfl⟩, ?_⟩
  rcases Plan.assemble_eq_none_or_some hfit with hnone | ⟨d, e, hd, he⟩
  · exact .inl hnone
  · refine .inr ⟨d, e, hd, he, ?_⟩
    have hthins := Plan.thins_assemble hfit
    rw [hd, he, Option.toList_some, Option.toList_some, conditionsOfAll_singleton,
      conditionsOfAll_singleton] at hthins
    refine ⟨fun a => ?_, fun a hatom => ?_, fun hfull => ?_⟩
    · classical
      rw [count_atoms, count_atoms]
      exact Multiset.countP_le_of_le _ hthins.le
    · have hmem : a.unchecked ∈ e.conditions := Multiset.mem_coe.mpr (List.mem_map_of_mem hatom)
      exact contains_atoms_iff.mpr (hthins.subset hmem)
    · have hanswers : ∀ r ∈ (c.compilation.plan q).requests c.compilation.root,
          (c.compilation.answer r).isFull = true := by
        intro r hr
        obtain ⟨leaf, hleaf, heq⟩ := Compilation.exists_operand hr
        exact hfull leaf hleaf _ (heq ▸ ha r hr)
      have hlength : d.atoms.length ≤ e.atoms.length := by
        simpa [conditions] using Multiset.card_le_card hthins.le
      have hfactored := connectives_add_one (Plan.stable_of_assemble stable_isFull hanswers hd)
      have hplain := connectives_add_one (Plan.stable_of_assemble stable_isFull hanswers he)
      omega

/-- A compiler for readers with standard options. -/
def readers : Compiler := ⟨Stock.readers, .standard, fault?_standard⟩

/-- Two fields behind the same guards, as an alternative to a negation of one of
them, next to a third field. -/
def repeatedGuards : Query := .ofJson (.object
  [("a", .array
    [.object [("x", .object [("var", .string "u")]), ("y", .object [("neither", .string "v")])],
     .object [("!not", .object [("x", .object [("var", .string "u")])])]]),
   ("b", .object [("show", .null)])])

theorem thinned_compilePredicate_repeatedGuards :
    ∃ factored plain d e,
      ((readers.withOptimizer true).compilePredicate repeatedGuards).result = .ok factored ∧
      ((readers.withOptimizer false).compilePredicate repeatedGuards).result = .ok plain ∧
      factored.expr = some d ∧ plain.expr = some e ∧
      (∀ a, d.atoms.count a ≤ e.atoms.count a) ∧
      (∀ a ∈ e.atoms, d.atoms.contains a = true) ∧
      d.connectives ≤ e.connectives := by
  obtain ⟨p, hp⟩ : ∃ p, (readers.compilePredicate repeatedGuards).result = .ok p :=
    Traced.exists_result_eq_ok (by decide)
  obtain ⟨factored, plain, hfactored, hplain, hexpr⟩ := thinned_compilePredicate readers hp
  have hoperand : repeatedGuards.operands readers.options.negationKey ≠ [] := by decide
  rcases hexpr with ⟨-, hnone⟩ | ⟨d, e, hd, he, hcount, hcontains, hconnectives⟩
  · exact absurd ((expr_eq_none_iff hplain).mp hnone) hoperand
  · refine ⟨factored, plain, d, e, hfactored, hplain, hd, he, hcount, hcontains, ?_⟩
    have hfull : ∀ leaf ∈ repeatedGuards.operands readers.options.negationKey,
        ((readers.compilation.resolution leaf).result.map Expr.isFull).toOption ≠ some false := by
      decide
    refine hconnectives fun leaf hleaf f hf => ?_
    have hleaf := hfull leaf hleaf
    rw [hf] at hleaf
    simpa [Except.map, Except.toOption] using hleaf

end Compiler

end Criteria
