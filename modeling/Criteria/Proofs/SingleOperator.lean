import Criteria.Proofs.Expr.Repetition
import Criteria.Proofs.FirstError
import Criteria.Proofs.Vacuity

/-!
# Queries with one operator

Factoring evaluates tests in another order and less often, so in general it is for
operators whose tests leave the context alone.  A query that applies one operator has
nothing to merge, though, and the guards around the operator are all that is repeated.
So such a query means the same with factoring and without, whatever its tests do to the
context, unless the operator's own expression repeats terms.

* `Plan.exists_sole_part`: the part of a join that makes the only request.
* `Plan.realized_of_sole`: with factoring, a plan that makes one request means what it
  says.
* `Compiler.evaluate_singleOperator`: the two predicates of a query with one operator.
* `Compiler.differ_doubled`: a repetition below a disjunction of one part is enough for
  them to differ.
-/

namespace Criteria

open Criteria.Expr

/-- No term is repeated in the expression's chain of terms, nor in what is left of it when
a disjunction of one part is unwrapped. -/
def Expr.Unrepeated (e : Expr) : Prop := e.RepeatsOnly fun _ => False

namespace Plan

variable {T : Test → Prop} {answer : Request → Expr} {scope : Scope} {r : Request}

/-! ## Plans that make one request -/

theorem assemble_of_requests_eq_nil {p : Plan} (optimize : Bool) (h : p.requests scope = []) :
    p.assemble optimize answer scope = none := by
  have hfit : ∀ r ∈ p.requests scope, (answer r).Fit fun _ => True := by
    rw [h]
    exact fun _ hr => absurd hr List.not_mem_nil
  exact (assemble_eq_none_iff hfit).mpr ((isVacuous_iff_requests_eq_nil scope).mpr h)

/-- Parts that make no request are passed over. -/
theorem evalAll_of_requests_eq_nil {parts : List Plan} (h : requestsOfAll scope parts = [])
    (c : Connective) (input : Option Json) (context : Context) :
    evalAll answer input c scope parts context = (!c.decisive, context) := by
  induction parts with
  | nil => rfl
  | cons p rest ih =>
      obtain ⟨hp, hrest⟩ := List.append_eq_nil_iff.mp h
      rw [evalAll, if_pos ((isVacuous_iff_requests_eq_nil scope).mpr hp), ih hrest]

/-- Of parts that make one request together one makes it, and nothing else counts. -/
theorem exists_sole_part (answer : Request → Expr) {parts : List Plan}
    (h : requestsOfAll scope parts = [r]) :
    ∃ p ∈ parts, p.requests scope = [r] ∧
      (∀ optimize, assembleAll optimize answer scope parts =
        (p.assemble optimize answer scope).toList) ∧
      ∀ c input context, evalAll answer input c scope parts context =
        p.eval answer input scope context := by
  induction parts with
  | nil => exact absurd h.symm (List.cons_ne_nil _ _)
  | cons q rest ih =>
      rw [requestsOfAll, List.append_eq_singleton_iff] at h
      rcases h with ⟨hq, hrest⟩ | ⟨hq, hrest⟩
      · obtain ⟨p, hp, hsole, hassemble, heval⟩ := ih hrest
        refine ⟨p, List.mem_cons_of_mem _ hp, hsole, fun optimize => ?_, fun c input context => ?_⟩
        · rw [assembleAll, assemble_of_requests_eq_nil optimize hq]
          exact hassemble optimize
        · rw [evalAll, if_pos ((isVacuous_iff_requests_eq_nil scope).mpr hq), heval]
      · refine ⟨q, List.mem_cons_self, hq, fun optimize => ?_, fun c input context => ?_⟩
        · have hnone := requestsOfAll_eq_nil_iff.mp hrest
          rw [assembleAll, (assembleAll_eq_nil_iff _ _).mpr fun p hp =>
            assemble_of_requests_eq_nil optimize (hnone p hp), List.append_nil]
        · have hvacuous : ¬ q.isVacuous = true := by
            rw [isVacuous_iff_requests_eq_nil scope, hq]
            exact List.cons_ne_nil _ _
          rw [evalAll, if_neg hvacuous]
          simp only [evalAll_of_requests_eq_nil hrest]
          split
          · rfl
          · rename_i hopen
            exact Prod.ext (Bool.eq_not_of_ne hopen).symm rfl

/-- With factoring, a plan that makes one request has an expression that means what the
plan says and repeats guards at most, if the answer to the request repeats no more. -/
theorem realized_of_sole {p : Plan} (hr : p.requests scope = [r]) (hfit : (answer r).Fit T)
    (hanswer : (answer r).RepeatsOnly IsGuard) :
    ∃ e, p.assemble true answer scope = some e ∧ e.RepeatsOnly IsGuard ∧
      ∀ input context, e.eval input context = p.eval answer input scope context := by
  induction p generalizing scope with
  | bare operator argument =>
      rw [← List.singleton_inj.mp hr] at hanswer
      exact ⟨_, rfl, hanswer, fun _ _ => rfl⟩
  | onField field operator argument =>
      rw [← List.singleton_inj.mp hr] at hanswer
      refine ⟨_, rfl, ?_, fun _ _ => eval_fieldTest _ _⟩
      exact hanswer.guarded [.truthy scope] (List.cons_ne_nil _ _)
        (List.forall_mem_singleton.mpr trivial)
  | within field inner ih =>
      obtain ⟨e, he, hrepeats, heval⟩ := ih hr
      have hguards : ∀ g ∈ [truthy scope, .truthy (scope.child field),
          .isObject (scope.child field)], g.IsGuard := by simp [IsGuard]
      refine ⟨_, by rw [assemble, he, Option.map_some], ?_, fun input context => ?_⟩
      · exact hrepeats.guarded _ (List.cons_ne_nil _ _) hguards
      · rw [eval_guarded, heval, eval]
  | negated inner ih =>
      obtain ⟨e, he, hrepeats, heval⟩ := ih hr
      refine ⟨_, by rw [assemble, he, Option.map_some], ?_, fun input context => ?_⟩
      · exact .of_single rfl fun _ h => Expr.noConfusion h
      · rw [eval_not, heval, eval]
  | joined c parts ih =>
      obtain ⟨p, hp, hsole, hassemble, heval⟩ := exists_sole_part answer hr
      obtain ⟨d, hd, hrepeats, hmeans⟩ := ih p hp hsole
      have hdfit : d.Fit T := by
        refine fit_of_assemble (fun r' hr' => ?_) hd
        rw [hsole] at hr'
        rwa [List.mem_singleton.mp hr']
      obtain ⟨e, he, herepeats, hemeans⟩ := join_singleton c hrepeats (terms_ne_nil hdfit.2)
      refine ⟨e, ?_, herepeats, fun input context => ?_⟩
      · rw [assemble, hassemble, hd]
        exact he
      · rw [hemeans, hmeans, eval, heval]

end Plan

namespace Compilation

variable {c : Compilation}

/-- A query with one operand makes one request, and resolving the operand's operator
answers it. -/
theorem exists_sole_request {q : Query} {leaf : Leaf}
    (hsole : q.operands c.options.negationKey = [leaf]) :
    ∃ r, (c.plan q).requests c.root = [r] ∧
      (c.answerTo r).result = (c.resolution leaf).result := by
  have hanswers := c.map_answerTo_requests q
  rw [hsole, List.map_singleton] at hanswers
  obtain ⟨r, hr, hanswer⟩ := List.map_eq_singleton_iff.mp hanswers
  exact ⟨r, hr, by rw [hanswer, Traced.result_callsOnly]⟩

end Compilation

namespace Compiler

/-- A query with one operator compiles with factoring and without when the operator can be
resolved.  If the operator's expression repeats no term, the two predicates give the same
answer and leave the same context, for any tests that the expression is made of. -/
theorem evaluate_singleOperator (c : Compiler) {q : Query} {leaf : Leaf} {e : Expr}
    (hsole : q.operands c.options.negationKey = [leaf])
    (he : (c.compilation.resolution leaf).result = .ok e) (hchain : e.Unrepeated) :
    ∃ factored plain, ((c.withOptimizer true).compilePredicate q).result = .ok factored ∧
      ((c.withOptimizer false).compilePredicate q).result = .ok plain ∧
      ∀ input context, factored.evaluate input context = plain.evaluate input context := by
  obtain ⟨r, hr, hresult⟩ := c.compilation.exists_sole_request hsole
  have hanswer : c.compilation.answer r = e :=
    Compilation.answer_of_result_eq_ok (hresult.trans he)
  have hall : ∀ r ∈ (c.compilation.plan q).requests c.compilation.root,
      (c.compilation.answerTo r).result = .ok (c.compilation.answer r) := by
    rw [hr]
    exact List.forall_mem_singleton.mpr (by rw [hresult, he, hanswer])
  have hfit := fun r hr => Compilation.fit_answer hr (hall r hr)
  have hmember : r ∈ (c.compilation.plan q).requests c.compilation.root :=
    hr ▸ List.mem_cons_self
  refine ⟨_, _, result_compilePredicate_eq_ok_iff.mpr ⟨hall, rfl⟩,
    result_compilePredicate_eq_ok_iff.mpr ⟨hall, rfl⟩, fun input context => ?_⟩
  have hguards : (c.compilation.answer r).RepeatsOnly IsGuard :=
    hanswer ▸ hchain.mono fun _ h => h.elim
  obtain ⟨d, hd, -, hmeans⟩ := Plan.realized_of_sole hr (hfit r hmember) hguards
  have hvacuous : (c.compilation.plan q).isVacuous = false := by
    rw [Bool.eq_false_iff, Ne, Plan.isVacuous_iff_requests_eq_nil c.compilation.root, hr]
    exact List.cons_ne_nil _ _
  have hfactored : (c.compilation.plan q).Realized true c.compilation.answer
      c.compilation.root := .inr ⟨hvacuous, d, hd, hmeans⟩
  have hplain : (c.compilation.plan q).Realized false c.compilation.answer
      c.compilation.root := Plan.realized (fun h => absurd h Bool.false_ne_true) hfit
  exact (hfactored.evaluate_eq _ input context).trans (hplain.evaluate_eq _ input context).symm

end Compiler

namespace Stock

/-- A test that holds the first time it is run in a context. -/
def firstTime (site : Site) : Expr :=
  Expr.testAt site.scope "first" fun _ context =>
    (!context.contains "seen", context.insert "seen" (.bool true))

/-- The value around the operator is truthy, and it is asked about for the first time. -/
def once : Generator := fun _ site =>
  .give (Expr.all [.truthy site.enclosing, firstTime site])

/-- A conjunction of a test with itself, as the only part of a disjunction. -/
def doubled : Generator := fun _ site =>
  .give (.node .or [.node .and [firstTime site, firstTime site]])

/-- Operators that remember in the context that they have been asked. -/
def remembering : Dictionary := .ofList [("once", once), ("doubled", doubled)]

end Stock

namespace Compiler

/-- A compiler for operators that remember. -/
def remembering : Compiler := ⟨Stock.remembering, .standard, fault?_standard⟩

/-- One operator, negated and wrapped, next to parts without conditions. -/
def wrappedOnce : Query := .ofJson (.object
  [("c", .array [.object []]),
   ("a", .array [.array [], .object [("!not", .object
      [("b", .array [.object [("d", .object [("once", .null)])]])])]])])

theorem evaluate_singleOperator_wrappedOnce :
    ∃ leaf e, wrappedOnce.operands remembering.options.negationKey = [leaf] ∧
      (remembering.compilation.resolution leaf).result = .ok e ∧ e.Unrepeated ∧
      ∃ factored plain,
        ((remembering.withOptimizer true).compilePredicate wrappedOnce).result = .ok factored ∧
        ((remembering.withOptimizer false).compilePredicate wrappedOnce).result = .ok plain ∧
        ∀ input context, factored.evaluate input context = plain.evaluate input context := by
  obtain ⟨leaf, hleaf⟩ : ∃ leaf, wrappedOnce.operands remembering.options.negationKey = [leaf] :=
    ⟨_, rfl⟩
  obtain ⟨e, he, hchain⟩ : ∃ e, (remembering.compilation.resolution leaf).result = .ok e ∧
      e.Unrepeated := by
    obtain rfl := List.singleton_inj.mp hleaf
    refine ⟨_, rfl, ?_, fun part hpart => ?_⟩
    · decide
    · exact nomatch congrArg List.length hpart
  exact ⟨leaf, e, hleaf, he, hchain, evaluate_singleOperator remembering hleaf he hchain⟩

/-- One operator below two lists. -/
def doubledBelowLists : Query := .any [.any [.all [("doubled", .scalar .null)]]]

/-- A conjunction below a disjunction of one part is unwrapped by one join and loses its
repeated term in the next. -/
theorem differ_doubled :
    ∃ leaf e, doubledBelowLists.operands remembering.options.negationKey = [leaf] ∧
      (remembering.compilation.resolution leaf).result = .ok e ∧
      (e.terms.Pairwise fun a b => (a == b) = false) ∧
      ∃ factored plain,
        ((remembering.withOptimizer true).compilePredicate doubledBelowLists).result =
          .ok factored ∧
        ((remembering.withOptimizer false).compilePredicate doubledBelowLists).result =
          .ok plain ∧
        (factored.evaluate none .empty).1 = true ∧ (plain.evaluate none .empty).1 = false := by
  refine ⟨_, _, rfl, rfl, ?_, _, _, rfl, rfl, ?_, ?_⟩
  · decide
  · decide
  · decide

end Compiler

end Criteria
