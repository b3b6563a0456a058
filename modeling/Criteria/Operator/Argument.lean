import Criteria.Json.Printer
import Criteria.Query

/-!
# Arguments of operators

What an operator is applied to: a JSON value, whose compact text is what appears
in rendered conditions, or a pattern.
-/

namespace Criteria

/-- The argument of an operator. -/
inductive Argument where
  /-- A JSON value. -/
  | literal (value : Json)
  /-- A pattern. -/
  | pattern (p : Pattern)

namespace Argument

/-- The argument that a query node stands for: mappings and lists are handed over
as JSON values. -/
def ofQuery : Query → Argument
  | .pattern p => .pattern p
  | q => .literal q.toJson

/-- The argument as a query node, to be handed on to another operator. -/
def toQuery : Argument → Query
  | .literal value => .ofJson value
  | .pattern p => .pattern p

/-- The JSON value, unless the argument is a pattern. -/
def value? : Argument → Option Json
  | .literal value => some value
  | .pattern _ => none

/-- The text of a string value. -/
def asString? (a : Argument) : Option String := a.value?.bind Json.asString?

/-- The nearest double of a number. -/
def asDouble? (a : Argument) : Option Binary64 := a.value?.bind Json.asDouble?

/-- The truth value of a boolean. -/
def asBool? (a : Argument) : Option Bool := a.value?.bind Json.asBool?

/-- The pattern, if the argument is one. -/
def asPattern? : Argument → Option Pattern
  | .literal _ => none
  | .pattern p => some p

/-- The argument as it appears in rendered conditions. -/
def text : Argument → String
  | .literal value => value.text
  | .pattern p => "/" ++ p.source ++ "/"

end Argument

end Criteria
