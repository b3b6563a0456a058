import Criteria.Expr.Basic

/-!
# Evaluation of expressions

Parts are evaluated from left to right until one settles the answer; the context
is handed from each evaluated test to the next.  A missing value makes guards
fail; evaluation never does.
-/

namespace Criteria.Expr

mutual

/-- The answer on an input, and the context left behind. -/
def eval (input : Option Json) : Expr → Context → Bool × Context
  | .bool b, context => (b, context)
  | .truthy scope, context => (Json.truthy (scope.resolve input), context)
  | .isObject scope, context => (Json.typeOf (scope.resolve input) == "object", context)
  | .test t, context => t.run input context
  | .not inner, context =>
    let (answer, after) := eval input inner context
    (!answer, after)
  | .node connective parts, context => evalParts input connective parts context

/-- Parts from left to right, up to the first that settles the answer. -/
def evalParts (input : Option Json) (connective : Connective) :
    List Expr → Context → Bool × Context
  | [], context => (!connective.decisive, context)
  | e :: rest, context =>
    let (answer, after) := eval input e context
    if answer = connective.decisive then (answer, after)
    else evalParts input connective rest after

end

end Criteria.Expr
