import Criteria.Operator.Basic

/-!
# Operators made from others

Generators that only call other operators or look at their place.
-/

namespace Criteria.Generator

/-- Another operator under a second name: the argument is handed on. -/
def forward (target : String) : Generator := fun argument _ =>
  .ask target argument.toQuery .give

/-- All of the named operators hold for the argument. -/
def allOf (targets : List String) : Generator := fun argument _ =>
  Generation.askAll argument.toQuery (fun es => .give (Expr.all es)) targets

/-- One of the named operators holds for the argument. -/
def anyOf (targets : List String) : Generator := fun argument _ =>
  Generation.askAll argument.toQuery (fun es => .give (Expr.any es)) targets

/-- None of the named operators holds for the argument. -/
def noneOf (targets : List String) : Generator := fun argument _ =>
  Generation.askAll argument.toQuery (fun es => .give (.not (Expr.any es))) targets

/-- Always fails with a message. -/
def failing (message : Argument → String) : Generator := fun argument site =>
  .fail (site.failure (message argument))

/-- The value under a key of the enclosing scope is truthy. -/
def truthyAt (key : String) : Generator := fun _ site =>
  .give (.truthy (site.scopeWith key))

end Criteria.Generator
