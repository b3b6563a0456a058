import Criteria.Expr.Eval
import Criteria.Expr.Render

/-!
# Predicates

A compiled query, ready to be asked.  A predicate without an expression comes
from a query without any condition and accepts every input, a missing one
included.

* `Predicate.evaluate`: the answer on one input in a given context, and the
  context left behind.
* `Predicate.filterWith`: the accepted inputs of a list, with one context handed
  through the whole pass.
* `BoundPredicate`: a predicate that carries its context from call to call.
-/

namespace Criteria

/-- A compiled query. -/
structure Predicate where
  /-- The condition, if there is one. -/
  expr : Option Expr
  /-- The name the input is bound to in rendered text. -/
  entryName : String

namespace Predicate

/-- Whether there is no condition. -/
def isVacuous (p : Predicate) : Bool := p.expr.isNone

/-- The answer on an input that may be missing, and the context left behind. -/
def evaluate (p : Predicate) (input : Option Json) (context : Context) : Bool × Context :=
  match p.expr with
  | none => (true, context)
  | some e => e.eval input context

/-- The answer on an input in a fresh context. -/
def accepts (p : Predicate) (input : Json) : Bool := (p.evaluate (some input) .empty).1

/-- The accepted inputs, in order, and the context after the last one. -/
def filterWith (p : Predicate) : List Json → Context → List Json × Context
  | [], context => ([], context)
  | v :: rest, context =>
    let (answer, after) := p.evaluate (some v) context
    let (kept, final) := filterWith p rest after
    (if answer then v :: kept else kept, final)

/-- The accepted inputs, in order; the pass starts with a fresh context. -/
def filter (p : Predicate) (inputs : List Json) : List Json := (p.filterWith inputs .empty).1

/-- The predicate as a function of its input, in script text. -/
def source (p : Predicate) : String := Expr.renderFunction p.expr p.entryName

end Predicate

/-- A predicate with the context it carries from call to call. -/
structure BoundPredicate where
  /-- The predicate. -/
  predicate : Predicate
  /-- The context that the next call starts with. -/
  context : Context

namespace Predicate

/-- Attach a context. -/
def bind (p : Predicate) (context : Context) : BoundPredicate := ⟨p, context⟩

end Predicate

namespace BoundPredicate

/-- The answer on an input that may be missing, and the predicate with the
context left behind. -/
def evaluate (b : BoundPredicate) (input : Option Json) : Bool × BoundPredicate :=
  let (answer, after) := b.predicate.evaluate input b.context
  (answer, ⟨b.predicate, after⟩)

/-- The answer on an input. -/
def accepts (b : BoundPredicate) (input : Json) : Bool × BoundPredicate := b.evaluate (some input)

/-- The accepted inputs, in order, asked one after another. -/
def filter (b : BoundPredicate) : List Json → List Json × BoundPredicate
  | [] => ([], b)
  | v :: rest =>
    let (answer, after) := b.accepts v
    let (kept, final) := filter after rest
    (if answer then v :: kept else kept, final)

/-- The predicate's text. -/
def source (b : BoundPredicate) : String := b.predicate.source

end BoundPredicate

end Criteria
