import Criteria.Json.Printer

/-!
# Scopes

A scope is a path into an input value: the name the input is bound to, then the
keys walked from it.  Objects are entered by key, arrays by the decimal text of
an index.

* `Scope.resolve`: the value a scope leads to, if there is one.
* `Scope.text`: the scope as an accessor expression, `root["key"]["key"]`.
-/

namespace Criteria

/-- The number written by a text of decimal digits; other characters count as
digits of their own, so the result means nothing then. -/
def digitsValue (cs : List Char) : Nat :=
  cs.foldl (fun n c => n * 10 + (c.toNat - 48)) 0

/-- The index written by a key: no sign, no leading zero, and within the range
of a machine word. -/
def arrayIndex? (key : String) : Option Nat :=
  let n := digitsValue key.toList
  if Nat.repr n = key ∧ n < UInt64.size then some n else none

/-- The value one step below, if there is one. -/
def Json.child? (key : String) : Json → Option Json
  | .object members => members.lookup key
  | .array items => (arrayIndex? key).bind (items[·]?)
  | _ => none

/-- A path into an input value. -/
structure Scope where
  /-- The name the input is bound to. -/
  root : String
  /-- The keys walked from the input, outermost first. -/
  keys : List String
deriving DecidableEq

namespace Scope

/-- The scope of the input itself. -/
def ofRoot (root : String) : Scope := ⟨root, []⟩

/-- One level further down. -/
def child (s : Scope) (key : String) : Scope := ⟨s.root, s.keys ++ [key]⟩

/-- Further down along a path. -/
def descend (s : Scope) (path : List String) : Scope := ⟨s.root, s.keys ++ path⟩

/-- One level up; the input itself stays where it is. -/
def parent (s : Scope) : Scope := ⟨s.root, s.keys.dropLast⟩

/-- How many keys lead to the scope. -/
def depth (s : Scope) : Nat := s.keys.length

/-- Whether the scope is the input itself. -/
def isRoot (s : Scope) : Bool := s.keys.isEmpty

/-- The value the path leads to. -/
def resolve (s : Scope) (input : Option Json) : Option Json :=
  s.keys.foldl (fun value key => value.bind (Json.child? key)) input

/-- One step of an accessor expression. -/
def keyText (key : String) : String := "[" ++ Json.quote key ++ "]"

/-- The scope as an accessor expression. -/
def text (s : Scope) : String := s.root ++ String.join (s.keys.map keyText)

end Scope

end Criteria
