import Criteria.Context
import Criteria.Scope

/-!
# Boolean expressions

What a query compiles to.  The leaves are constants, two kinds of guards on the
value at a scope, and the tests that operators make.

* `Expr.same`: two tests are the same condition when scope and source agree;
  everything else is compared part by part.
* `Connective.combine`: a conjunction or disjunction of parts, with parts of the
  same connective spliced in and a single part left as it is.
* `Expr.terms`: an expression read as a chain of conjunction terms.
-/

namespace Criteria

/-- What a test computes: from the value at its scope, if there is one, and the
context, an answer and the context it leaves. -/
abbrev Check := Option Json → Context → Bool × Context

namespace Check

/-- A check that looks at the value only. -/
def ofValue (holds : Option Json → Bool) : Check := fun value context => (holds value, context)

/-- A check that reads value and context and changes neither. -/
def ofRead (holds : Option Json → Context → Bool) : Check :=
  fun value context => (holds value context, context)

end Check

/-- A condition made by an operator. -/
structure Test where
  /-- The scope of the value under test. -/
  scope : Scope
  /-- The condition as script text. -/
  source : String
  /-- The condition itself. -/
  check : Check

namespace Test

/-- Two tests are the same condition when scope and source agree. -/
def same (s t : Test) : Bool := s.scope == t.scope && s.source == t.source

/-- Run the check on the value that the scope leads to. -/
def run (t : Test) (input : Option Json) (context : Context) : Bool × Context :=
  t.check (t.scope.resolve input) context

end Test

/-- How sibling parts are joined. -/
inductive Connective where
  /-- All parts hold. -/
  | and
  /-- Some part holds. -/
  | or
deriving DecidableEq, Repr

namespace Connective

/-- The script operator. -/
def symbol : Connective → String
  | .and => "&&"
  | .or => "||"

/-- The connective's name. -/
def name : Connective → String
  | .and => "And"
  | .or => "Or"

/-- The answer of one part that settles the whole. -/
def decisive : Connective → Bool
  | .and => false
  | .or => true

end Connective

/-- A boolean expression over an input and a context. -/
inductive Expr where
  /-- A constant. -/
  | bool (b : Bool)
  /-- The value at the scope is there and truthy. -/
  | truthy (scope : Scope)
  /-- The value at the scope is an object, an array or `null`. -/
  | isObject (scope : Scope)
  /-- A condition made by an operator. -/
  | test (t : Test)
  /-- The opposite. -/
  | not (inner : Expr)
  /-- Parts joined by a connective. -/
  | node (connective : Connective) (parts : List Expr)

namespace Expr

instance : Inhabited Expr := ⟨.bool true⟩

mutual

/-- Whether two expressions are the same condition. -/
def same : Expr → Expr → Bool
  | .bool a, .bool b => a == b
  | .truthy s, .truthy t => s == t
  | .isObject s, .isObject t => s == t
  | .test s, .test t => s.same t
  | .not a, .not b => same a b
  | .node c xs, .node d ys => c == d && sameParts xs ys
  | _, _ => false

/-- Whether two lists hold the same conditions in the same order. -/
def sameParts : List Expr → List Expr → Bool
  | [], [] => true
  | x :: xs, y :: ys => same x y && sameParts xs ys
  | _, _ => false

end

/-- Comparison of expressions is comparison as conditions. -/
instance : BEq Expr := ⟨same⟩

/-- A part as operands of a connective: nodes of that connective give their own
parts. -/
def operands (connective : Connective) : Expr → List Expr
  | .node c parts => if c = connective then parts else [.node c parts]
  | e => [e]

mutual

/-- Whether there is no condition in the expression at all. -/
def isEmpty : Expr → Bool
  | .not inner => isEmpty inner
  | .node _ parts => allEmpty parts
  | _ => false

/-- Whether there is no condition in any of the expressions. -/
def allEmpty : List Expr → Bool
  | [] => true
  | e :: rest => isEmpty e && allEmpty rest

end

mutual

/-- The conjunction terms of an expression, in order: conjunctions are walked
through at any depth, everything else is one term. -/
def terms : Expr → List Expr
  | .node .and parts => termsOfAll parts
  | e => [e]

/-- The conjunction terms of several expressions, one after another. -/
def termsOfAll : List Expr → List Expr
  | [] => []
  | e :: rest => terms e ++ termsOfAll rest

end

mutual

/-- The number of connectives written between parts. -/
def connectives : Expr → Nat
  | .not inner => connectives inner
  | .node _ parts => (parts.length - 1) + connectivesOfAll parts
  | _ => 0

/-- The number of connectives inside several expressions. -/
def connectivesOfAll : List Expr → Nat
  | [] => 0
  | e :: rest => connectives e + connectivesOfAll rest

end

end Expr

namespace Connective

/-- Parts joined by the connective: parts that are themselves joined by it are
spliced in, and a single part is left as it is. -/
def combine (connective : Connective) (parts : List Expr) : Expr :=
  match parts.flatMap (Expr.operands connective) with
  | [only] => only
  | flat => .node connective flat

/-- Parts joined by the connective; nothing when there are none. -/
def combine? (connective : Connective) (parts : List Expr) : Option Expr :=
  if parts.isEmpty then none else some (connective.combine parts)

end Connective

namespace Expr

/-- All of the parts. -/
def all (parts : List Expr) : Expr := Connective.combine .and parts

/-- Some of the parts. -/
def any (parts : List Expr) : Expr := Connective.combine .or parts

/-- A test of the value at a scope. -/
def testAt (scope : Scope) (source : String) (check : Check) : Expr :=
  .test ⟨scope, source, check⟩

end Expr

end Criteria
