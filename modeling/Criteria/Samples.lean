import Criteria.Compiler

/-!
# Sample queries and inputs

Inputs and sub-queries that cover the shapes a predicate meets, and the checks
that compare a query's two compilations on them.
-/

namespace Criteria.Samples

/-- An object. -/
def obj (members : List (String × Json)) : Json := .object members

/-- A text. -/
def str (s : String) : Json := .string s

/-- A whole number. -/
def num (n : Int) : Json := Json.ofInt n

/-- An object with the single member `foo`. -/
def foo (value : Json) : Json := obj [("foo", value)]

/-- Inputs of every kind; the first one is missing. -/
def inputs : List (Option Json) :=
  none :: List.map some
    [.null, obj [], .array [], str "foo", num 0, num 42,
      foo (str "toto"), foo (str "tata"), foo (str "titi"), foo .null, foo (num 7),
      foo (.array [str "toto"]),
      foo (obj [("bar", str "baz")]), foo (obj [("bar", .null)]),
      foo (obj [("bar", obj [("baz", str "toto")])]),
      foo (obj [("bar", obj [("baz", str "titi")])]),
      foo (obj [("bar", obj [("baz", .null)])]),
      obj [("foo", str "toto"), ("bar", num 3)],
      obj [("foo", str "tata"), ("bar", num 12)],
      obj [("name", str "foo"), ("age", num 38)],
      obj [("name", str "foo"), ("age", num 18)],
      obj [("name", str "bar"), ("age", num 90)]]

/-- Queries to be combined with each other. -/
def subQueries : List Json :=
  [obj [("equals", str "toto")],
    obj [("equals", str "tata")],
    obj [("greaterThan", num 5)],
    obj [("lessThan", num 10), ("greaterThan", num 2)],
    obj [("bar", obj [("equals", str "baz")])],
    obj [("bar", obj [("baz", obj [("equals", str "toto")])])],
    .array [obj [("equals", str "titi")], obj [("lessThan", num 8)]],
    obj [("!not", obj [("equals", str "toto")])],
    obj []]

/-- The answers on inputs, each in a fresh context. -/
def outcomes (p : Predicate) (inputs : List (Option Json)) : List Bool :=
  inputs.map fun input => (p.evaluate input .empty).1

/-- Whether two predicates give the same answers on all sample inputs. -/
def agree (p q : Predicate) : Bool := outcomes p inputs == outcomes q inputs

/-- A query compiled with standard options but for the optimizer. -/
def compileWith (optimize : Bool) (d : Dictionary) (q : Json) : Except CompileError Predicate :=
  match Compiler.standard d optimize with
  | .error e => .error e
  | .ok c => (c.compilePredicate (.ofJson q)).result

/-- A query compiled with standard options. -/
def compile (d : Dictionary) (q : Json) : Except CompileError Predicate := compileWith true d q

/-- A query compiled with and without the optimizer. -/
def compileBoth (d : Dictionary) (q : Json) : Except CompileError (Predicate × Predicate) := do
  let optimized ← compileWith true d q
  let plain ← compileWith false d q
  return (optimized, plain)

/-- The message when a query compiles that should not. -/
def unexpectedSuccess (p : Predicate) : String := "expected a compile error, got " ++ p.source

/-- The message when a query does not compile that should. -/
def unexpectedError (e : CompileError) : String := "query failed to compile: " ++ e.message

end Criteria.Samples
