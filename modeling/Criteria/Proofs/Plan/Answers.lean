import Criteria.Proofs.Plan.Basic

/-!
# Answers of plans

Over tame tests a plan has an answer of its own: asking leaves the context alone, and
a join is the conjunction or disjunction of the answers of those parts that make a
request, in whatever order they are asked.

* `Plan.eval_snd_of_over`: asking leaves the context alone.
* `Plan.evalAll_of_over`, `Plan.holds_joined_and_iff`: the answer of a join.
-/

namespace Criteria.Plan

/-- The answer of a plan at a scope, in a context. -/
def holds (answer : Request → Expr) (input : Option Json) (context : Context) (scope : Scope)
    (p : Plan) : Bool := (p.eval answer input scope context).1

variable {T : Test → Prop} {answer : Request → Expr} {input : Option Json} {context : Context}

/-- Parts that leave the context alone answer by their answers; those that make no
request are passed over. -/
theorem evalAll_of_forall {c : Connective} {scope : Scope} {parts : List Plan}
    (h : ∀ p ∈ parts, (p.eval answer input scope context).2 = context) :
    evalAll answer input c scope parts context =
      (c.fold ((parts.filter (!·.isVacuous)).map (holds answer input context scope)),
        context) := by
  induction parts with
  | nil => rfl
  | cons p rest ih =>
      have hrest := ih fun q hq => h q (List.mem_cons_of_mem _ hq)
      rw [evalAll]
      cases hv : p.isVacuous with
      | true =>
          rw [if_pos rfl, hrest, List.filter_cons_of_neg (by simp [hv])]
      | false =>
          have hp : p.eval answer input scope context =
              (p.holds answer input context scope, context) :=
            Prod.ext rfl (h p List.mem_cons_self)
          rw [if_neg Bool.false_ne_true, hp, List.filter_cons_of_pos (by simp [hv]),
            List.map_cons, Connective.fold_cons]
          change (if p.holds answer input context scope = c.decisive then _ else _) = _
          split
          · rename_i hd
            rw [hd, Connective.decisive_op]
          · rename_i hd
            rw [hrest, Bool.eq_not_of_ne hd, Connective.unit_op]

/-- Tame tests leave the context as it is. -/
theorem eval_snd_of_over (hT : Test.Tame T) {p : Plan} {scope : Scope}
    (ha : ∀ r ∈ p.requests scope, (answer r).Over T) :
    (p.eval answer input scope context).2 = context := by
  induction p generalizing scope with
  | bare operator argument => exact Expr.eval_snd_of_over hT (ha _ List.mem_cons_self)
  | onField field operator argument =>
      rw [eval]
      split
      · exact Expr.eval_snd_of_over hT (ha _ List.mem_cons_self)
      · rfl
  | within field inner ih =>
      rw [eval]
      split
      · exact ih ha
      · rfl
  | negated inner ih => exact ih ha
  | joined c parts ih =>
      rw [eval, evalAll_of_forall fun p hp =>
        ih p hp fun r hr => ha r (mem_requestsOfAll.mpr ⟨p, hp, hr⟩)]

/-- A join over tame tests answers by the answers of its parts. -/
theorem evalAll_of_over (hT : Test.Tame T) {c : Connective} {scope : Scope} {parts : List Plan}
    (ha : ∀ r ∈ requestsOfAll scope parts, (answer r).Over T) :
    evalAll answer input c scope parts context =
      (c.fold ((parts.filter (!·.isVacuous)).map (holds answer input context scope)), context) :=
  evalAll_of_forall fun p hp =>
    eval_snd_of_over hT fun r hr => ha r (mem_requestsOfAll.mpr ⟨p, hp, hr⟩)

/-- A conjunction holds when all of its parts do that make a request. -/
theorem holds_joined_and_iff (hT : Test.Tame T) {scope : Scope} {parts : List Plan}
    (ha : ∀ r ∈ requestsOfAll scope parts, (answer r).Over T) :
    (joined .and parts).holds answer input context scope = true ↔
      ∀ p ∈ parts, p.isVacuous = false → p.holds answer input context scope = true := by
  rw [holds, eval, evalAll_of_over hT ha, Connective.fold_and_eq_true_iff, List.forall_mem_map]
  simp only [List.mem_filter, Bool.not_eq_true', and_imp]

end Criteria.Plan
