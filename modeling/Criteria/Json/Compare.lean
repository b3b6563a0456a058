import Criteria.Json.Basic

/-!
# Script-like views of values

Operators look at values the way a script would: through truthiness, the name of
their type, and an order on values of one kind.

* `Json.compare?`: numbers by their nearest doubles, strings by code points,
  booleans with `false` first.  Containers compare only when they are equal, and
  values of different kinds never do.
-/

namespace Criteria.Json

/-- `null`, `false`, zero and the empty string are not truthy; everything else,
empty containers included, is. -/
def isTruthy : Json → Bool
  | .null => false
  | .bool b => b
  | .number n => n.toDouble.order != 0
  | .string s => !s.isEmpty
  | .array _ | .object _ => true

/-- The name of the value's type; `null` and arrays count as objects. -/
def typeName : Json → String
  | .null | .array _ | .object _ => "object"
  | .bool _ => "boolean"
  | .number _ => "number"
  | .string _ => "string"

/-- The order of two values, where there is one. -/
def compare? : Json → Json → Option Ordering
  | .number m, .number n => some (m.toDouble.compare n.toDouble)
  | .string s, .string t => some (Ord.compare s t)
  | .bool a, .bool b => some (Ord.compare a b)
  | .null, .null => some .eq
  | .array xs, .array ys => if same (.array xs) (.array ys) then some .eq else none
  | .object xs, .object ys => if same (.object xs) (.object ys) then some .eq else none
  | _, _ => none

/-- Whether two values compare equal. -/
def equal (x y : Json) : Bool := x.compare? y == some .eq

/-- Truthiness of a value that may be missing. -/
def truthy : Option Json → Bool
  | none => false
  | some v => v.isTruthy

/-- The type's name of a value that may be missing. -/
def typeOf : Option Json → String
  | none => "undefined"
  | some v => v.typeName

end Criteria.Json
