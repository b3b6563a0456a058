import Criteria.CompileError
import Criteria.Json.Basic
import Criteria.Text.CharClass

/-!
# Compiler options

* `Options.fault?`: the first fault of the options, if they have one.
* `Options.toJson`: the options as a JSON object, in their fixed order.
-/

namespace Criteria

/-- What compiling hands back. -/
inductive OutputMode where
  /-- A predicate. -/
  | function
  /-- The text of a predicate. -/
  | string
deriving DecidableEq, Repr

namespace OutputMode

/-- The mode's name in JSON. -/
def jsonName : OutputMode → String
  | .function => "function"
  | .string => "string"

/-- The mode's name in messages. -/
def label : OutputMode → String
  | .function => "Function"
  | .string => "String"

end OutputMode

/-- How queries are compiled. -/
structure Options where
  /-- The name the input is bound to in rendered text. -/
  entryName : String
  /-- Whether shared leading terms are factored out at every join point. -/
  optimize : Bool
  /-- The key that negates what is under it. -/
  negationKey : String
  /-- What compiling hands back. -/
  outputMode : OutputMode
  /-- How deep operators may call each other. -/
  maxDepth : UInt64
deriving DecidableEq, Repr

/-- Whether a name can be that of a parameter: a letter, underscore or dollar
sign, then letters, digits, underscores and dollar signs. -/
def isIdentifier (name : String) : Bool :=
  match name.toList with
  | [] => false
  | c :: rest =>
    (CharClass.isAlphabetic c || c == '_' || c == '$') &&
      rest.all fun c => CharClass.isAlphanumeric c || c == '_' || c == '$'

namespace Options

/-- The options unless something else is said. -/
def standard : Options := ⟨"entry", true, "!not", .function, 32⟩

instance : Inhabited Options := ⟨standard⟩

/-- The first fault of the options, if they have one. -/
def fault? (o : Options) : Option ConfigFault :=
  if !isIdentifier o.entryName then some (.entryName o.entryName)
  else if o.negationKey = "" then some .emptyNegationKey
  else if o.maxDepth = 0 then some .zeroDepth
  else none

/-- The options as a JSON object. -/
def toJson (o : Options) : Json :=
  .object
    [("entry_name", .string o.entryName),
     ("optimize", .bool o.optimize),
     ("negation_key", .string o.negationKey),
     ("output_mode", .string o.outputMode.jsonName),
     ("max_operator_depth", .number (.integer (.ofUInt64 o.maxDepth)))]

end Options

end Criteria
