/-!
# Compile errors

Why a compiler cannot be set up or a query cannot be compiled, with the messages
in one place.
-/

namespace Criteria

/-- What is wrong with a compiler's configuration. -/
inductive ConfigFault where
  /-- There is no dictionary. -/
  | noDictionary
  /-- The entry name cannot be the name of a parameter. -/
  | entryName (name : String)
  /-- The negation key is empty. -/
  | emptyNegationKey
  /-- No operator could be resolved within the depth limit. -/
  | zeroDepth
deriving DecidableEq, Repr

namespace ConfigFault

/-- The message. -/
def message : ConfigFault → String
  | .noDictionary => "compiler requires a dictionary"
  | .entryName name => "entry name '" ++ name ++ "' is not a valid identifier"
  | .emptyNegationKey => "negation key must not be empty"
  | .zeroDepth => "max operator depth must be at least 1"

end ConfigFault

/-- Why compilation fails. -/
inductive CompileError where
  /-- The compiler's configuration is at fault. -/
  | config (fault : ConfigFault)
  /-- The dictionary has no such operator; it has those listed. -/
  | unknownOperator (key : String) (known : List String)
  /-- The operator gave an expression without any condition. -/
  | emptyExpression (key : String)
  /-- The operator failed. -/
  | operatorFailed (key message : String)
  /-- The operator would be called too deep inside others. -/
  | depthLimit (key : String) (limit : Nat)
deriving DecidableEq, Repr

namespace CompileError

/-- The message. -/
def message : CompileError → String
  | .config fault => "Invalid compiler configuration: " ++ fault.message
  | .unknownOperator key known =>
    "'" ++ key ++ "' is not a valid keyword, use one of: " ++ String.intercalate ", " known
  | .emptyExpression key => "Operator '" ++ key ++ "' returned an empty expression"
  | .operatorFailed key message => "Operator '" ++ key ++ "' failed: " ++ message
  | .depthLimit key limit =>
    "Operator '" ++ key ++ "' exceeded the composition depth limit of " ++ toString limit

end CompileError

end Criteria
