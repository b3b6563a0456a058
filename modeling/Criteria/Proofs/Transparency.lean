import Criteria.Proofs.Operator.Coherence
import Criteria.Proofs.Plan.Compiling

/-!
# Factoring is transparent

Switching factoring on or off changes neither whether a query compiles nor what
its predicate answers, as long as tests leave the context alone and are told
apart by scope and source.  Both compilations realize the same plan with the same
answers; they differ in how fragments are joined, and there factoring keeps the
answer of every join.

* `eval_join_factor`: one join point, whatever the fragments and the ranking.
* `Compiler.evaluate_withOptimizer`: a whole compilation.
-/

namespace Criteria

/-! ## One join point -/

/-- Fragments that have terms, and whose tests are tame, leave something to join when
they are factored, and the two joins run alike, however members are ranked. -/
theorem eval_join_factor (rank : Rank) (c : Connective) {fragments : List Expr}
    (hne : fragments ≠ []) (hterms : ∀ d ∈ fragments, d.terms ≠ [])
    (hT : Test.Tame fun t => ∃ d ∈ fragments, Expr.test t ∈ d.atoms) :
    factor rank c fragments ≠ [] ∧
    ∃ factored plain, c.combine? (factor rank c fragments) = some factored ∧
      c.combine? fragments = some plain ∧
      ∀ input context, factored.eval input context = plain.eval input context := by
  have hfactor : factor rank c fragments ≠ [] := factor_ne_nil hne hterms
  have hsome : ∀ parts : List Expr, parts ≠ [] → c.combine? parts = some (c.combine parts) :=
    fun parts hparts => if_neg (by simpa using hparts)
  refine ⟨hfactor, _, _, hsome _ hfactor, hsome _ hne, fun input context => ?_⟩
  have hover : ∀ d ∈ fragments, d.Over (fun t => ∃ d ∈ fragments, Expr.test t ∈ d.atoms) ∧
      d.terms ≠ [] := fun d hd => ⟨fun t ht => ⟨d, hd, ht⟩, hterms d hd⟩
  rw [eval_combine_factor hT hover, Expr.eval_combine]

namespace Stock

/-- The variable is truthy. -/
def lookUp (key : String) : Expr :=
  Expr.testAt (Scope.ofRoot "entry") ("this." ++ key)
    (.ofRead fun _ context => Json.truthy (context.get? key))

/-- Chains that start alike, with nested, empty and lonely nodes, next to single terms. -/
def untidy : List Expr :=
  [.node .and [.node .and [.truthy (Scope.ofRoot "entry"), .node .or [lookUp "u", .node .and []]],
      .truthy (Scope.ofRoot "entry"), .not (.node .and [])],
    .node .or [.node .and [lookUp "v", lookUp "u"]],
    .node .and [.node .and [.node .and [lookUp "u"]]],
    .node .and [.truthy (Scope.ofRoot "entry"), .node .and [], lookUp "v"]]

theorem over_lookUp (key : String) : (lookUp key).Over (Made (Scope.ofRoot "entry")) :=
  (reads_testAt (.looksUp key) rfl rfl).2

theorem over_untidy {d : Expr} (hd : d ∈ untidy) : d.Over (Made (Scope.ofRoot "entry")) := by
  simp only [untidy, List.mem_cons, List.not_mem_nil, or_false] at hd
  rcases hd with rfl | rfl | rfl | rfl <;> simp [over_lookUp]

end Stock

theorem eval_join_factor_untidy :
    Stock.untidy ≠ [] ∧ (∀ d ∈ Stock.untidy, d.terms ≠ []) ∧
    (Test.Tame fun t => ∃ d ∈ Stock.untidy, Expr.test t ∈ d.atoms) ∧
    factor (fun e => 9 - e.atoms.length) .or Stock.untidy ≠ [] ∧
    ∃ factored plain,
      Connective.or.combine? (factor (fun e => 9 - e.atoms.length) .or Stock.untidy) =
        some factored ∧
      Connective.or.combine? Stock.untidy = some plain ∧
      ∀ input context, factored.eval input context = plain.eval input context := by
  have hne : Stock.untidy ≠ [] := List.cons_ne_nil _ _
  have hterms : ∀ d ∈ Stock.untidy, d.terms ≠ [] := by
    intro d hd
    simp only [Stock.untidy, List.mem_cons, List.not_mem_nil, or_false] at hd
    rcases hd with rfl | rfl | rfl | rfl <;> exact List.cons_ne_nil _ _
  have hT : Test.Tame fun t => ∃ d ∈ Stock.untidy, Expr.test t ∈ d.atoms := by
    refine Stock.tame_entry.mono ?_
    rintro t ⟨d, hd, ht⟩
    exact ⟨[], Stock.over_untidy hd t ht⟩
  exact ⟨hne, hterms, hT, eval_join_factor _ .or hne hterms hT⟩

/-! ## Whole compilations -/

namespace Compiler

/-- The compiler with factoring switched on or off. -/
def withOptimizer (c : Compiler) (on : Bool) : Compiler :=
  ⟨c.dictionary, { c.options with optimize := on }, c.valid⟩

/-- With tame tests below the entry name, factoring changes neither the outcome of a
compilation nor the answers of the predicate. -/
theorem evaluate_withOptimizer (c : Compiler)
    (hT : Test.Tame (c.dictionary.MakesUnder c.options.maxDepth.toNat c.options.entryName))
    (q : Query) :
    (∃ error, ((c.withOptimizer true).compilePredicate q).result = .error error ∧
      ((c.withOptimizer false).compilePredicate q).result = .error error) ∨
    ∃ factored plain, ((c.withOptimizer true).compilePredicate q).result = .ok factored ∧
      ((c.withOptimizer false).compilePredicate q).result = .ok plain ∧
      ∀ input context, factored.evaluate input context = plain.evaluate input context := by
  -- Reading and asking do not look at the switch.
  let plan := q.plan c.options.negationKey
  let asked := forM (plan.requests c.compilation.root) c.compilation.ask
  have hresult : ∀ on, ((c.withOptimizer on).compilePredicate q).result =
      asked.result.map fun _ =>
        ⟨plan.assemble on c.compilation.answer c.compilation.root, c.options.entryName⟩ :=
    fun on => result_compilePredicate (c.withOptimizer on) q
  cases hasked : asked.result with
  | error error =>
      refine .inl ⟨error, ?_, ?_⟩
      · rw [hresult, hasked]
        rfl
      · rw [hresult, hasked]
        rfl
  | ok u =>
      have hfit : ∀ r ∈ plan.requests c.compilation.root, (c.compilation.answer r).Fit
          (c.dictionary.MakesUnder c.options.maxDepth.toNat c.options.entryName) := fun r hr =>
        Compilation.fit_answer hr (Compilation.result_forM_ask_eq_ok_iff.mp hasked r hr)
      refine .inr ⟨_, _, by rw [hresult, hasked]; rfl, by rw [hresult, hasked]; rfl, ?_⟩
      intro input context
      rw [(Plan.realized (fun _ => hT) hfit).evaluate_eq,
        (Plan.realized (fun _ => hT) hfit).evaluate_eq]

theorem evaluate_withOptimizer_repeatedComparisons :
    Test.Tame (swapped.dictionary.MakesUnder swapped.options.maxDepth.toNat
      swapped.options.entryName) ∧
    ∃ factored plain,
      ((swapped.withOptimizer true).compilePredicate repeatedComparisons).result = .ok factored ∧
      ((swapped.withOptimizer false).compilePredicate repeatedComparisons).result = .ok plain ∧
      ∀ input context, factored.evaluate input context = plain.evaluate input context := by
  have hT := Stock.tame_swapped swapped.options.maxDepth.toNat
  refine ⟨hT, (evaluate_withOptimizer swapped hT repeatedComparisons).resolve_left ?_⟩
  rintro ⟨error, herror, -⟩
  obtain ⟨p, hp⟩ : ∃ p,
      ((swapped.withOptimizer true).compilePredicate repeatedComparisons).result = .ok p :=
    Traced.exists_result_eq_ok (by decide)
  exact nomatch hp.symm.trans herror

end Compiler

end Criteria
