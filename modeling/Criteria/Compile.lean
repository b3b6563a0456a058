import Criteria.Expr.Factor
import Criteria.Operator.Resolve

/-!
# Compiling queries

A query is walked once, in order.  Every part gives at most one expression; a
part without any condition gives none and is left out by whatever contains it.

* A mapping at the top level or under the negation key holds fields: each name is
  a field, or the operator itself when its value is a scalar or a pattern.
* A mapping under a field holds operators for that field, or deeper fields when
  the value under a key is itself a mapping or list with something in it.  A
  deeper field is guarded by its scope: the value around it must be truthy, the
  field truthy and an object.
* A list offers alternatives at the same place.
* The negation key negates what is under it, which is read as if it stood in its
  place.
-/

namespace Criteria

/-- What the compilation of a query depends on. -/
structure Compilation where
  /-- The operators. -/
  dictionary : Dictionary
  /-- The options. -/
  options : Options

namespace Compilation

/-- Fragments joined at a join point, after factoring if that is switched on;
nothing when there are none. -/
def join (c : Compilation) (connective : Connective) (fragments : List Expr) :
    Traced (Option Expr) :=
  if c.options.optimize then do
    let factored := factor Expr.connectives connective fragments
    Traced.emit (.factored fragments.length factored.length connective)
    pure (connective.combine? factored)
  else pure (connective.combine? fragments)

/-- Whether a key negates what is under it. -/
def negates (c : Compilation) (key : String) : Bool := key == c.options.negationKey

/-- Resolve an operator that the query names. -/
def resolve (c : Compilation) (key : String) (q : Query) (field : Option String)
    (enclosing : Scope) : Traced Expr :=
  c.dictionary.resolve c.options.maxDepth.toNat key q field enclosing

/-- The condition of a deeper field, behind the guards of its scope. -/
def guarded (scope child : Scope) (inner : Expr) : Expr :=
  Expr.all [.truthy scope, .truthy child, .isObject child, inner]

/-- The condition of an operator on a field, behind the guard of the scope around
it. -/
def fieldTest (scope : Scope) (test : Expr) : Expr := Expr.all [.truthy scope, test]

mutual

/-- A query at a scope. -/
def query (c : Compilation) (scope : Scope) : Query → Traced (Option Expr)
  | .any branches => do
    let fragments ← queryBranches c scope branches
    c.join .or fragments
  | .all entries => do
    let fragments ← queryEntries c scope entries
    c.join .and fragments
  | .scalar _ | .pattern _ => pure none

/-- The fragments of alternatives at a scope. -/
def queryBranches (c : Compilation) (scope : Scope) : List Query → Traced (List Expr)
  | [] => pure []
  | q :: rest => do
    let fragment ← query c scope q
    let fragments ← queryBranches c scope rest
    pure (fragment.toList ++ fragments)

/-- The fragments of entries at a scope. -/
def queryEntries (c : Compilation) (scope : Scope) : List (String × Query) → Traced (List Expr)
  | [] => pure []
  | (key, q) :: rest => do
    let fragment ←
      (if c.negates key then Option.map .not <$> query c scope q
      else property c scope key q)
    let fragments ← queryEntries c scope rest
    pure (fragment.toList ++ fragments)

/-- The value of a name at a scope: a field with operators, or an operator. -/
def property (c : Compilation) (scope : Scope) (name : String) : Query → Traced (Option Expr)
  | .any branches => do
    let fragments ← propertyBranches c scope name branches
    c.join .or fragments
  | .all entries => do
    let fragments ← propertyEntries c scope name entries
    c.join .and fragments
  | .scalar value => some <$> c.resolve name (.scalar value) none scope
  | .pattern p => some <$> c.resolve name (.pattern p) none scope

/-- The fragments of alternative values of a name. -/
def propertyBranches (c : Compilation) (scope : Scope) (name : String) :
    List Query → Traced (List Expr)
  | [] => pure []
  | q :: rest => do
    let fragment ← property c scope name q
    let fragments ← propertyBranches c scope name rest
    pure (fragment.toList ++ fragments)

/-- The fragments of the entries under a field. -/
def propertyEntries (c : Compilation) (scope : Scope) (name : String) :
    List (String × Query) → Traced (List Expr)
  | [] => pure []
  | (key, q) :: rest => do
    let fragment ←
      (if c.negates key then Option.map .not <$> property c scope name q
      else if q.isNested then
        Option.map (guarded scope (scope.child name)) <$> property c (scope.child name) key q
      else some <$> fieldTest scope <$> c.resolve key q (some name) scope)
    let fragments ← propertyEntries c scope name rest
    pure (fragment.toList ++ fragments)

end

/-- The expression of a whole query, if it has any condition. -/
def run (c : Compilation) (q : Query) : Traced (Option Expr) := do
  Traced.emit (.started c.dictionary.size c.options.optimize c.options.outputMode)
  let expr ← query c (Scope.ofRoot c.options.entryName) q
  Traced.emit (.finished (expr.map Expr.connectives))
  pure expr

end Compilation

end Criteria
