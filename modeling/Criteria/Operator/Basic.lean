import Criteria.CompileError
import Criteria.Expr.Basic
import Criteria.Operator.Argument
import Criteria.Text.Quoted

/-!
# Operators and dictionaries

An operator is a generator of expressions.  Its behaviour is an interaction
tree: it either gives its result, or asks for another operator's expression at
the same place and goes on with the answer, which may be an error.  Nothing else
is possible, so an operator cannot see another call's scope or field, and a
statement about every dictionary is a statement about all such trees.

* `Site`: where an operator is applied, and how deep inside other operators.
* `Generation`: what a generator does.
* `Dictionary`: the operators by name, in order of registration.
-/

namespace Criteria

/-- Where an operator is applied. -/
structure Site where
  /-- The name of the operator. -/
  operator : String
  /-- The scope around the operator. -/
  enclosing : Scope
  /-- The field the operator is written under, if it is. -/
  field : Option String
  /-- How many operators call each other down to this one. -/
  depth : Nat
deriving DecidableEq

namespace Site

/-- The scope of the value under test: that of the field, or the enclosing one
for an operator without a field. -/
def scope (s : Site) : Scope :=
  match s.field with
  | some field => s.enclosing.child field
  | none => s.enclosing

/-- The enclosing scope extended by a key. -/
def scopeWith (s : Site) (key : String) : Scope := s.enclosing.child key

/-- A failure of the operator at this place. -/
def failure (s : Site) (message : String) : CompileError := .operatorFailed s.operator message

end Site

/-- What a generator does, step by step. -/
inductive Generation where
  /-- Give the result. -/
  | done (result : Except CompileError Expr)
  /-- Ask for another operator's expression for the same scope and field, and go
  on with the answer. -/
  | call (key : String) (argument : Query) (next : Except CompileError Expr → Generation)

namespace Generation

/-- Give an expression. -/
def give (e : Expr) : Generation := .done (.ok e)

/-- Fail. -/
def fail (error : CompileError) : Generation := .done (.error error)

/-- Ask for another operator's expression; its error is the result. -/
def ask (key : String) (argument : Query) (next : Expr → Generation) : Generation :=
  .call key argument fun
    | .ok e => next e
    | .error error => .fail error

/-- Ask for the expressions of several operators for one argument, in order; the
first error is the result. -/
def askAll (argument : Query) (next : List Expr → Generation) : List String → Generation
  | [] => next []
  | key :: rest => ask key argument fun e => askAll argument (fun es => next (e :: es)) rest

end Generation

/-- An operator: from its argument and its place to its behaviour. -/
abbrev Generator := Argument → Site → Generation

/-- The operators available to queries, in order of registration. -/
abbrev Dictionary := OrderedMap Generator

namespace Dictionary

/-- The structure of a dictionary, for messages. -/
def inspect (d : Dictionary) : String :=
  "Dictionary \x7b operators: " ++ Quoted.quoteList (OrderedMap.keys d) ++ " \x7d"

end Dictionary

end Criteria
