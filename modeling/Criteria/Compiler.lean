import Criteria.Compile
import Criteria.Predicate

/-!
# Compilers

A compiler is a dictionary with valid options.  It keeps nothing between
queries.

* `CompilerBuilder.build`: reports a missing dictionary first, then the first
  fault of the options.
* `Compiler.compile`: a predicate or its text, as the output mode says.
-/

namespace Criteria

/-- A dictionary with valid options. -/
structure Compiler where
  /-- The operators. -/
  dictionary : Dictionary
  /-- The options. -/
  options : Options
  /-- The options have no fault. -/
  valid : options.fault? = none

/-- What compiling hands back. -/
inductive Compiled where
  /-- A predicate. -/
  | predicate (p : Predicate)
  /-- The text of a predicate. -/
  | source (text : String)

namespace Compiled

/-- The predicate, if it was handed back. -/
def predicate? : Compiled → Option Predicate
  | .predicate p => some p
  | .source _ => none

/-- The text, whatever was handed back. -/
def text : Compiled → String
  | .predicate p => p.source
  | .source text => text

end Compiled

namespace Compiler

/-- The expression of a query, if it has any condition. -/
def compileExpr (c : Compiler) (q : Query) : Traced (Option Expr) :=
  Compilation.run ⟨c.dictionary, c.options⟩ q

/-- The predicate of a query. -/
def compilePredicate (c : Compiler) (q : Query) : Traced Predicate := do
  let expr ← c.compileExpr q
  pure ⟨expr, c.options.entryName⟩

/-- What the output mode asks for. -/
def compile (c : Compiler) (q : Query) : Traced Compiled := do
  let p ← c.compilePredicate q
  pure <| match c.options.outputMode with
    | .function => .predicate p
    | .string => .source p.source

/-- The text of a query's predicate, whatever the output mode. -/
def compileSource (c : Compiler) (q : Query) : Traced String := do
  let p ← c.compilePredicate q
  pure p.source

end Compiler

/-- A compiler that is being set up. -/
structure CompilerBuilder where
  /-- The operators, once they are given. -/
  dictionary : Option Dictionary
  /-- The options so far. -/
  options : Options

namespace CompilerBuilder

/-- No dictionary yet and standard options. -/
def start : CompilerBuilder := ⟨none, .standard⟩

/-- The compiler, unless its configuration is at fault. -/
def build (b : CompilerBuilder) : Except CompileError Compiler :=
  match b.dictionary with
  | none => .error (.config .noDictionary)
  | some d =>
    match h : b.options.fault? with
    | some fault => .error (.config fault)
    | none => .ok ⟨d, b.options, h⟩

end CompilerBuilder

namespace Compiler

/-- The standard options have no fault. -/
theorem fault?_standard : Options.standard.fault? = none := by decide

/-- A compiler with standard options but for the optimizer. -/
def standard (dictionary : Dictionary) (optimize : Bool) : Except CompileError Compiler :=
  CompilerBuilder.build ⟨some dictionary, { Options.standard with optimize := optimize }⟩

end Compiler

end Criteria
