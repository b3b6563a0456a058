import Criteria.Proofs.Places

/-!
# Queries without conditions

Whether a query has any condition is written in the query: it has none when no value
in it is handed to an operator.  A condition that an operator gives is never lost on
the way.  Operators do not give empty expressions, and neither joining nor factoring
drops the last atom of a fragment, so what is put together for a query with a
condition is not empty, even where an operator's own expression has empty parts.

* `Plan.isVacuous_iff_requests_eq_nil`: a vacuous plan is one without requests.
* `Query.operands_eq_nil_iff`: only a query without operands has a vacuous plan.
* `Compiler.vacuous_compilePredicate`: the predicates of queries without conditions.
-/

namespace Criteria

namespace Plan

theorem requestsOfAll_eq_nil_iff {scope : Scope} {parts : List Plan} :
    requestsOfAll scope parts = [] ↔ ∀ p ∈ parts, p.requests scope = [] := by
  induction parts with
  | nil => simp [requestsOfAll]
  | cons p rest ih => simp [requestsOfAll, ih]

/-- A plan is vacuous when it makes no request. -/
theorem isVacuous_iff_requests_eq_nil {p : Plan} (scope : Scope) :
    p.isVacuous = true ↔ p.requests scope = [] := by
  induction p generalizing scope with
  | bare operator argument => simp [isVacuous, requests]
  | onField field operator argument => simp [isVacuous, requests]
  | within field inner ih => exact ih (scope.child field)
  | negated inner ih => exact ih scope
  | joined c parts ih =>
      rw [isVacuous, allVacuous_iff, requests, requestsOfAll_eq_nil_iff]
      exact forall₂_congr fun p hp => ih p hp scope

end Plan

/-- A query's plan is vacuous when nothing in the query is handed to an operator. -/
theorem Query.operands_eq_nil_iff (negation : String) (q : Query) :
    q.operands negation = [] ↔ (q.plan negation).isVacuous = true := by
  have hask : List.Forall₂ _ (q.operands negation) ((q.plan negation).requests (.ofRoot "")) :=
    Query.asks negation q [] "" rfl
  rw [Plan.isVacuous_iff_requests_eq_nil (.ofRoot ""), ← List.length_eq_zero_iff, hask.length_eq,
    List.length_eq_zero_iff]

/-- An expression that fits is not empty. -/
theorem Expr.Fit.isEmpty_eq_false {T : Test → Prop} {e : Expr} (h : e.Fit T) :
    e.isEmpty = false :=
  Bool.eq_false_iff.mpr (mt isEmpty_iff_atoms_eq_nil.mp h.2)

namespace Compiler

/-- A predicate has no expression when the query's plan makes no request. -/
theorem isVacuous_eq_plan {c : Compiler} {q : Query} {p : Predicate}
    (h : (c.compilePredicate q).result = .ok p) :
    p.isVacuous = (c.compilation.plan q).isVacuous := by
  obtain ⟨ha, rfl⟩ := result_compilePredicate_eq_ok_iff.mp h
  rw [Predicate.isVacuous, Bool.eq_iff_iff, Option.isNone_iff_eq_none]
  exact Plan.assemble_eq_none_iff fun r hr => Compilation.fit_answer hr (ha r hr)

theorem expr_eq_none_iff {c : Compiler} {q : Query} {p : Predicate}
    (h : (c.compilePredicate q).result = .ok p) :
    p.expr = none ↔ q.operands c.options.negationKey = [] := by
  rw [Query.operands_eq_nil_iff, ← Option.isNone_iff_eq_none]
  exact (Bool.eq_iff_iff).mp (isVacuous_eq_plan h)

/-- A query that compiles has no expression when nothing in it is handed to an
operator; otherwise its expression is not empty.  So another compiler that reads the
query with the same negation key does not disagree, whatever its operators are and
whether it factors or not. -/
theorem vacuous_compilePredicate (c : Compiler) {q : Query} {p : Predicate}
    (h : (c.compilePredicate q).result = .ok p) :
    (p.expr = none ↔ q.operands c.options.negationKey = []) ∧
    (∀ e, p.expr = some e → e.isEmpty = false) ∧
    ∀ (d : Compiler) (other : Predicate), d.options.negationKey = c.options.negationKey →
      (d.compilePredicate q).result = .ok other → other.isVacuous = p.isVacuous := by
  have hnone := expr_eq_none_iff h
  refine ⟨hnone, fun e he => ?_, fun d other hkey hother => ?_⟩
  · obtain ⟨ha, rfl⟩ := result_compilePredicate_eq_ok_iff.mp h
    have hfit := Plan.fit_of_assemble (fun r hr => Compilation.fit_answer hr (ha r hr)) he
    exact hfit.isEmpty_eq_false
  · have hagree : other.expr = none ↔ p.expr = none := by
      rw [hnone, expr_eq_none_iff hother, hkey]
    rw [Predicate.isVacuous, Predicate.isVacuous, Bool.eq_iff_iff, Option.isNone_iff_eq_none,
      Option.isNone_iff_eq_none, hagree]

/-- The value under test is truthy, next to a disjunction of nothing. -/
def padded : Generator := fun _ site => .give (.node .and [.node .or [], .truthy site.scope])

/-- A compiler for an operator whose expression has an empty part. -/
def padding : Compiler := ⟨.ofList [("pad", padded)], .standard, fault?_standard⟩

/-- An empty mapping that is handed to an operator, among parts without conditions. -/
def lonelyOperand : Query := .ofJson (.object
  [("!not", .object
    [("a", .array [.object [("b", .array [.object []])], .object [("pad", .object [])]])]),
   ("c", .array [.array []])])

theorem vacuous_compilePredicate_lonelyOperand :
    ∃ p, (padding.compilePredicate lonelyOperand).result = .ok p ∧
      (p.expr = none ↔ lonelyOperand.operands padding.options.negationKey = []) ∧
      (∀ e, p.expr = some e → e.isEmpty = false) ∧
      ∀ (d : Compiler) (other : Predicate), d.options.negationKey = padding.options.negationKey →
        (d.compilePredicate lonelyOperand).result = .ok other → other.isVacuous = p.isVacuous := by
  obtain ⟨p, hp⟩ : ∃ p, (padding.compilePredicate lonelyOperand).result = .ok p :=
    Traced.exists_result_eq_ok (by decide)
  exact ⟨p, hp, vacuous_compilePredicate padding hp⟩

end Compiler

end Criteria
