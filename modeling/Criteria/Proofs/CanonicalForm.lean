import Criteria.Operator.Combinators
import Criteria.Proofs.Expr.Canonical
import Criteria.Proofs.Plan.Compiling
import Criteria.Proofs.Vacuity

/-!
# Compiled expressions are canonical

Where the operators of a dictionary give canonical expressions, the expression of every
query is canonical: guards and negations are put around canonical expressions, and joins
keep the form, whether their fragments are factored first or not.

* `Compiler.isCanonical_compilePredicate`: the expression of a compiled query.
-/

namespace Criteria

namespace Compiler

/-- If the operators give canonical expressions, the expression of a query is canonical,
with factoring and without. -/
theorem isCanonical_compilePredicate (c : Compiler)
    (hd : ∀ key q field enclosing e,
      (c.dictionary.resolve c.options.maxDepth.toNat key q field enclosing).result = .ok e →
        e.isCanonical = true)
    {q : Query} {p : Predicate} (h : (c.compilePredicate q).result = .ok p) :
    ∀ e, p.expr = some e → e.isCanonical = true := by
  obtain ⟨ha, rfl⟩ := result_compilePredicate_eq_ok_iff.mp h
  intro e he
  exact Plan.stable_of_assemble Expr.stable_isCanonical
    (fun r hr => hd r.operator r.argument r.field r.enclosing _ (ha r hr)) he

end Compiler

namespace Stock

/-- Two readers, next to both of them and either of them. -/
def joiners : Dictionary :=
  .ofList
    [("show", showScope), ("var", contextVariable), ("both", Generator.allOf ["show", "var"]),
      ("either", Generator.anyOf ["show", "var"])]

/-- The joiners give canonical expressions. -/
theorem isCanonical_of_resolve_joiners {limit : Nat} {key : String} {q : Query}
    {field : Option String} {enclosing : Scope} {e : Expr}
    (h : (joiners.resolve limit key q field enclosing).result = .ok e) :
    e.isCanonical = true := by
  refine Dictionary.property_of_resolve (P := fun e => e.isCanonical = true) ?_ h
  intro name g hget argument depth
  have hmem : (name, g) ∈
      [("show", showScope), ("var", contextVariable), ("both", Generator.allOf ["show", "var"]),
        ("either", Generator.anyOf ["show", "var"])] := OrderedMap.mem_entries_of_get? hget
  have hpair : ∀ c d e, Expr.isCanonical d = true → Expr.isCanonical e = true →
      (Connective.combine c [d, e]).isCanonical = true := fun c d e hd he =>
    Expr.isCanonical_combine (List.cons_ne_nil _ _)
      (List.forall_mem_cons.mpr ⟨hd, List.forall_mem_singleton.mpr he⟩)
  simp only [List.mem_cons, List.not_mem_nil, or_false, Prod.mk.injEq] at hmem
  rcases hmem with ⟨rfl, rfl⟩ | ⟨rfl, rfl⟩ | ⟨rfl, rfl⟩ | ⟨rfl, rfl⟩
  · rfl
  · exact gives_text fun _ _ => rfl
  · exact Generation.gives_ask fun d hd => Generation.gives_ask fun e he => hpair .and d e hd he
  · exact Generation.gives_ask fun d hd => Generation.gives_ask fun e he => hpair .or d e hd he

end Stock

namespace Compiler

/-- A compiler for joiners with standard options. -/
def joiners : Compiler := ⟨Stock.joiners, .standard, fault?_standard⟩

/-- A disjunction in a list and a conjunction behind guards, next to a negation. -/
def splicedFields : Query := .ofJson (.object
  [("a", .array
    [.object [("x", .object [("both", .string "u")]), ("y", .object [("both", .string "v")])],
     .object [("!not", .array [.object [("either", .string "u")]])]]),
   ("either", .string "w")])

theorem isCanonical_compilePredicate_splicedFields :
    (∀ key q field enclosing e,
      (joiners.dictionary.resolve joiners.options.maxDepth.toNat key q field enclosing).result =
        .ok e → e.isCanonical = true) ∧
    ∃ p e, (joiners.compilePredicate splicedFields).result = .ok p ∧ p.expr = some e ∧
      e.isCanonical = true := by
  have hd : ∀ key q field enclosing e,
      (joiners.dictionary.resolve joiners.options.maxDepth.toNat key q field enclosing).result =
        .ok e → e.isCanonical = true := fun _ _ _ _ _ => Stock.isCanonical_of_resolve_joiners
  obtain ⟨p, hp⟩ : ∃ p, (joiners.compilePredicate splicedFields).result = .ok p :=
    Traced.exists_result_eq_ok (by decide)
  have hoperand : splicedFields.operands joiners.options.negationKey ≠ [] := by decide
  obtain ⟨e, he⟩ : ∃ e, p.expr = some e :=
    Option.ne_none_iff_exists'.mp (mt (expr_eq_none_iff hp).mp hoperand)
  exact ⟨hd, p, e, hp, he, isCanonical_compilePredicate joiners hd hp e he⟩

end Compiler

end Criteria
