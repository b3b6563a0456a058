import Criteria.Proofs.Operator.Results
import Mathlib.Data.List.Forall2

/-!
# Operators at another place

An operator that looks at the value under test, whatever the way to it, can be moved:
where the path to the value is longer by a key in front, it asks for the same
operators and gives an expression that finds below the key what the other one finds
in the input itself.  The text of its tests names the place and differs.

* `Scope.under`, `Site.Moved`: places below a key.
* `Expr.Moved`: expressions that look below a key.
* `Generation.Matches`: two behaviours with the same calls and related results.
* `Generator.Movable`: an operator that does the same at both places.
* `Dictionary.matching_resolveWithin`: movable operators resolve alike at both places.
-/

namespace Criteria

/-! ## Places below a key -/

/-- The same path, starting below a key. -/
def Scope.under (key : String) (s : Scope) : Scope := ⟨s.root, key :: s.keys⟩

/-- The same path below a key leads where it leads from the value under the key. -/
theorem Scope.resolve_under (key : String) (s : Scope) (input : Option Json) :
    (s.under key).resolve input = s.resolve (input.bind (Json.child? key)) := rfl

theorem Scope.child_under (key field : String) (s : Scope) :
    (s.under key).child field = (s.child field).under key := rfl

/-- The first place is the second one below a key. -/
structure Site.Moved (key : String) (s t : Site) : Prop where
  /-- The operator is the same. -/
  operator : s.operator = t.operator
  /-- The value under test is below the key. -/
  scope : s.scope = t.scope.under key
  /-- It is as deep inside other operators. -/
  depth : s.depth = t.depth

/-- What an operator calls is moved along with it. -/
theorem Site.Moved.call {key : String} {s t : Site} (h : s.Moved key t) (operator : String) :
    Site.Moved key { s with operator := operator, depth := s.depth + 1 }
      { t with operator := operator, depth := t.depth + 1 } :=
  ⟨rfl, h.scope, congrArg Nat.succ h.depth⟩

namespace Expr

/-- The first expression finds below a key what the second one finds in the input. -/
structure Moved (key : String) (d e : Expr) : Prop where
  /-- They give the same answers and leave the same contexts. -/
  eval : ∀ input context,
    d.eval input context = e.eval (input.bind (Json.child? key)) context
  /-- There are conditions in both or in neither. -/
  isEmpty : d.isEmpty = e.isEmpty

variable {key : String}

theorem moved_truthy (s : Scope) : (truthy (s.under key)).Moved key (truthy s) :=
  ⟨fun _ _ => rfl, rfl⟩

theorem moved_testAt (s : Scope) (source source' : String) (check : Check) :
    (testAt (s.under key) source check).Moved key (testAt s source' check) :=
  ⟨fun _ _ => rfl, rfl⟩

theorem Moved.not {d e : Expr} (h : d.Moved key e) : (not d).Moved key (not e) :=
  ⟨fun input context => by rw [eval_not, eval_not, h.eval], h.isEmpty⟩

/-- A join is empty when all of its parts are. -/
theorem isEmpty_combine (c : Connective) (parts : List Expr) :
    (c.combine parts).isEmpty = parts.all isEmpty := by
  rw [← allEmpty_eq_all, Bool.eq_iff_iff, isEmpty_iff_atoms_eq_nil, atoms_combine]
  exact (isEmpty_iff_atoms_eq_nil (e := .node c parts)).symm

theorem evalParts_of_moved {c : Connective} {ds es : List Expr}
    (h : List.Forall₂ (Moved key) ds es) (input : Option Json) (context : Context) :
    evalParts input c ds context =
      evalParts (input.bind (Json.child? key)) c es context := by
  induction h generalizing context with
  | nil => rfl
  | cons hfirst _ ih => rw [evalParts_cons, evalParts_cons, hfirst.eval, ih]

theorem Moved.combine {c : Connective} {ds es : List Expr}
    (h : List.Forall₂ (Moved key) ds es) : (c.combine ds).Moved key (c.combine es) := by
  constructor
  · intro input context
    rw [eval_combine, eval_combine, evalParts_of_moved h]
  · rw [isEmpty_combine, isEmpty_combine]
    induction h with
    | nil => rfl
    | cons hfirst _ ih => rw [List.all_cons, List.all_cons, hfirst.isEmpty, ih]

theorem Moved.pair {c : Connective} {d d' e e' : Expr} (h : d.Moved key e)
    (h' : d'.Moved key e') : (c.combine [d, d']).Moved key (c.combine [e, e']) :=
  .combine (.cons h (.cons h' .nil))

end Expr

/-! ## Matching behaviours -/

/-- Two outcomes match: the same error, or related expressions. -/
def Matching (R : Expr → Expr → Prop) :
    Except CompileError Expr → Except CompileError Expr → Prop
  | .ok d, .ok e => R d e
  | .error x, .error y => x = y
  | _, _ => False

/-- Going on from matching outcomes. -/
theorem Matching.bind {R S : Expr → Expr → Prop} {r s : Except CompileError Expr}
    {f g : Expr → Except CompileError Expr} (h : Matching R r s)
    (hnext : ∀ d e, R d e → Matching S (f d) (g e)) : Matching S (r >>= f) (s >>= g) := by
  cases r with
  | error x =>
      cases s with
      | error y => exact h
      | ok e => exact h.elim
  | ok d =>
      cases s with
      | error y => exact h.elim
      | ok e => exact hnext d e h

namespace Generation

/-- Two generators make the same calls, and as long as these are answered alike, their
outcomes match. -/
def Matches (R : Expr → Expr → Prop) : Generation → Generation → Prop
  | .done r, .done s => Matching R r s
  | .call key argument next, .call key' argument' next' =>
    key = key' ∧ argument = argument' ∧ ∀ r s, Matching R r s → Matches R (next r) (next' s)
  | _, _ => False

variable {R : Expr → Expr → Prop}

theorem matches_ask {key : String} {argument : Query} {next next' : Expr → Generation}
    (h : ∀ d e, R d e → (next d).Matches R (next' e)) :
    (ask key argument next).Matches R (ask key argument next') := by
  refine ⟨rfl, rfl, ?_⟩
  rintro (x | d) (y | e) hmatch
  · exact hmatch
  · exact hmatch.elim
  · exact hmatch.elim
  · exact h d e hmatch

/-- Matching behaviours, run with matching answers. -/
theorem Matches.run {answer answer' : String → Query → Traced Expr}
    (ha : ∀ key q, Matching R (answer key q).result (answer' key q).result) {g g' : Generation}
    (h : g.Matches R g') : Matching R (g.run answer).result (g'.run answer').result := by
  induction g generalizing g' with
  | done r =>
      cases g' with
      | done s => exact h
      | call key argument next => exact h.elim
  | call key argument next ih =>
      cases g' with
      | done s => exact h.elim
      | call key' argument' next' =>
          obtain ⟨rfl, rfl, hnext⟩ := h
          have hrest : Matching R ((next (answer key argument).result).run answer).result
              ((next' (answer' key argument).result).run answer').result :=
            ih _ (hnext _ _ (ha key argument))
          exact hrest

end Generation

/-- The operator does at a place below a key what it does at the place itself. -/
def Generator.Movable (g : Generator) : Prop :=
  ∀ key argument s t, s.Moved key t → (g argument s).Matches (Expr.Moved key) (g argument t)

namespace Dictionary

variable {d : Dictionary} {limit : Nat} {key : String}

theorem matching_invoke (h : ∀ name g, d.get? name = some g → g.Movable)
    {answer answer' : String → Query → Traced Expr}
    (ha : ∀ name q, Matching (Expr.Moved key) (answer name q).result (answer' name q).result)
    {s t : Site} (hst : s.Moved key t) (argument : Argument) :
    Matching (Expr.Moved key) (d.invoke answer s argument).result
      (d.invoke answer' t argument).result := by
  cases hget : d.get? t.operator with
  | none =>
      rw [invoke_unknown (hst.operator ▸ hget), invoke_unknown hget, hst.operator]
      rfl
  | some generator =>
      have hrun := (h _ generator hget key argument s t hst).run ha
      rw [result_invoke (hst.operator ▸ hget), result_invoke hget, hst.operator]
      refine hrun.bind fun d e hde => ?_
      rw [hde.isEmpty]
      split
      · rfl
      · exact hde

/-- Movable operators, whatever they call, resolve alike at a place and at the same
place below a key. -/
theorem matching_resolveWithin (h : ∀ name g, d.get? name = some g → g.Movable) (levels : Nat)
    {s t : Site} (hst : s.Moved key t) (q : Query) :
    Matching (Expr.Moved key) (d.resolveWithin limit levels s q).result
      (d.resolveWithin limit levels t q).result := by
  induction levels generalizing s t q with
  | zero =>
      refine matching_invoke h (fun name _ => ?_) hst _
      exact (rfl : CompileError.depthLimit name limit = .depthLimit name limit)
  | succ levels ih =>
      exact matching_invoke h (fun name argument => ih (hst.call name) argument) hst _

end Dictionary

end Criteria
