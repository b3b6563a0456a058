import Criteria.Json.Compare
import Criteria.OrderedMap

/-!
# Execution contexts

The variables that tests may read and write while a predicate runs.  A context
is an insertion-ordered map of JSON values; counters are integers kept in it.
-/

namespace Criteria

/-- The variables of a run. -/
structure Context where
  /-- The variables, in order of their first insertion. -/
  vars : OrderedMap Json

namespace Context

/-- No variables. -/
def empty : Context := ⟨.empty⟩

instance : Inhabited Context := ⟨empty⟩

/-- A context with the given variables; a repeated name keeps its first place
and takes its last value. -/
def ofList (vars : List (String × Json)) : Context := ⟨.ofList vars⟩

/-- The variables in order. -/
def toList (c : Context) : List (String × Json) := c.vars.entries

/-- The value of a variable. -/
def get? (c : Context) (key : String) : Option Json := c.vars.get? key

/-- Whether a variable is set. -/
def contains (c : Context) (key : String) : Bool := c.vars.contains key

/-- Whether no variable is set. -/
def isEmpty (c : Context) : Bool := c.vars.isEmpty

/-- Set a variable. -/
def insert (c : Context) (key : String) (value : Json) : Context := ⟨c.vars.insert key value⟩

/-- Set a variable that is there already; an unknown one stays unset. -/
def modify (c : Context) (key : String) (value : Json) : Context :=
  if c.contains key then c.insert key value else c

/-- Unset a variable; the last one takes its place. -/
def erase (c : Context) (key : String) : Context := ⟨c.vars.erase key⟩

/-- The integer a counter holds: zero unless the variable is a signed 64-bit
integer. -/
def count (c : Context) (key : String) : Int := ((c.get? key).bind Json.asSigned?).getD 0

/-- Add to a counter, staying within the signed 64-bit range; the new count and
the context that holds it. -/
def increment (c : Context) (key : String) (step : Int) : Integer × Context :=
  let next := Integer.clamp (c.count key + step)
  (next, c.insert key (.number (.integer next)))

/-- Equality of the variables, whatever their order. -/
def same (c d : Context) : Bool := Json.same (.object c.toList) (.object d.toList)

end Context

end Criteria
