import Criteria.Trace

/-!
# Resolving operators

An operator is looked up by name and its generator is run; whatever other
operators it asks for are resolved at the same place, one level deeper.  How deep
that may go is limited, so resolution ends also when operators call each other in
a circle.  Calls beyond the limit are refused before the name is looked up.

* `Dictionary.invoke_unknown`, `Dictionary.result_invoke`: what running an operator comes to.
* `Dictionary.resolveWithin_eq_invoke`: the last level is like the others.
-/

namespace Criteria

namespace Generation

/-- Run a generator's behaviour; `answer` resolves what it asks for. -/
def run (answer : String → Query → Traced Expr) : Generation → Traced Expr
  | .done result => .ofExcept result
  | .call key argument next =>
    let asked := answer key argument
    let rest := (next asked.result).run answer
    ⟨asked.events ++ rest.events, rest.result⟩

end Generation

namespace Dictionary

/-- Run the operator at a site; `answer` resolves the operators that it calls. -/
def invoke (d : Dictionary) (answer : String → Query → Traced Expr) (site : Site)
    (argument : Argument) : Traced Expr := do
  match d.get? site.operator with
  | none => Traced.error (.unknownOperator site.operator d.keys)
  | some generator =>
    Traced.emit (.resolving argument site)
    let e ← (generator argument site).run answer
    if e.isEmpty then Traced.error (.emptyExpression site.operator) else pure e

/-- Resolve the operator at a site with `levels` levels of calls left below it.
At the last level every call is refused. -/
def resolveWithin (d : Dictionary) (limit : Nat) : Nat → Site → Query → Traced Expr
  | 0, site, q =>
    d.invoke (fun key _ => ⟨[.depthReached site key limit], .error (.depthLimit key limit)⟩)
      site (.ofQuery q)
  | levels + 1, site, q =>
    d.invoke
      (fun key argument =>
        resolveWithin d limit levels { site with operator := key, depth := site.depth + 1 }
          argument)
      site (.ofQuery q)

/-- Resolve an operator that a query names: at depth zero, with the whole limit
below it. -/
def resolve (d : Dictionary) (limit : Nat) (key : String) (q : Query) (field : Option String)
    (enclosing : Scope) : Traced Expr :=
  d.resolveWithin limit limit ⟨key, enclosing, field, 0⟩ q

variable {d : Dictionary} {limit : Nat} {answer : String → Query → Traced Expr} {site : Site}
  {argument : Argument}

/-- An unknown operator is an error, and nothing happens. -/
theorem invoke_unknown (hget : d.get? site.operator = none) :
    d.invoke answer site argument = .error (.unknownOperator site.operator d.keys) := by
  rw [invoke, hget]

/-- The result of a known operator is its generator's, unless that is empty. -/
theorem result_invoke {generator : Generator} (hget : d.get? site.operator = some generator) :
    (d.invoke answer site argument).result =
      ((generator argument site).run answer).result >>= fun e =>
        if e.isEmpty then .error (.emptyExpression site.operator) else .ok e := by
  rw [invoke, hget]
  change (Traced.emit _ >>= _).result = _
  rw [Traced.bind_of_ok _ rfl]
  cases hrun : ((generator argument site).run answer).result with
  | ok e =>
      rw [Traced.bind_of_ok _ hrun]
      change (ite _ _ _ : Traced Expr).result = ite _ _ _
      split
      · rfl
      · rfl
  | error error =>
      rw [Traced.bind_of_error _ hrun]
      rfl

/-- The site of an operator that the one at a site calls. -/
def callee (site : Site) (key : String) : Site :=
  { site with operator := key, depth := site.depth + 1 }

/-- What answers the calls of the operator at a site, with so many levels left below it. -/
def answerBelow (d : Dictionary) (limit : Nat) : Nat → Site → String → Query → Traced Expr
  | 0, site => fun key _ => ⟨[.depthReached site key limit], .error (.depthLimit key limit)⟩
  | levels + 1, site => fun key => d.resolveWithin limit levels (callee site key)

/-- Resolving is running the operator, at the last level as at the others. -/
theorem resolveWithin_eq_invoke (levels : Nat) (site : Site) (q : Query) :
    d.resolveWithin limit levels site q =
      d.invoke (d.answerBelow limit levels site) site (.ofQuery q) := by
  cases levels with
  | zero => rfl
  | succ levels => rfl

/-- An operator does not see more of its argument than what it is handed. -/
theorem resolveWithin_congr {p q : Query} (h : Argument.ofQuery p = .ofQuery q) (levels : Nat)
    (site : Site) : d.resolveWithin limit levels site p = d.resolveWithin limit levels site q := by
  rw [resolveWithin_eq_invoke, resolveWithin_eq_invoke, h]

end Dictionary

end Criteria
