import Criteria.Json.Compare
import Criteria.Operator.Basic

/-!
# Stock operators

Comparison, type and text operators with script-like conditions, a pattern
operator, and two that use the execution context.

Apart from `counter`, the checks only read, and the source of a condition names
everything its check depends on.
-/

namespace Criteria.Stock

/-- The argument as a JSON value; patterns are refused. -/
def withLiteral (next : Json → Generation) (argument : Argument) (site : Site) : Generation :=
  match argument.value? with
  | some value => next value
  | none => .fail (site.failure "expects a literal argument")

/-- The argument as a text; everything else is refused. -/
def withText (next : String → Generation) (argument : Argument) (site : Site) : Generation :=
  match argument.asString? with
  | some text => next text
  | none => .fail (site.failure "expects a string argument")

/-- A condition on the value under test alone. -/
def valueTest (site : Site) (source : String) (holds : Option Json → Bool) : Expr :=
  Expr.testAt site.scope source (.ofValue holds)

/-- A condition on a text under test; other values do not meet it. -/
def textTest (site : Site) (source : String) (holds : String → Bool) : Expr :=
  valueTest site source fun value => (value.bind Json.asString?).any holds

/-- The value compares to the argument as wanted. -/
def comparison (symbol : String) (wanted : Ordering) : Generator := fun argument site =>
  withLiteral (fun expected =>
    .give (valueTest site (site.scope.text ++ " " ++ symbol ++ " " ++ argument.text)
      fun value => value.bind (Json.compare? · expected) == some wanted))
    argument site

/-- The value equals the argument. -/
def equals : Generator := comparison "===" .eq

/-- The value is greater than the argument. -/
def greaterThan : Generator := comparison ">" .gt

/-- The value is less than the argument. -/
def lessThan : Generator := comparison "<" .lt

/-- The source of a condition on the exact kind of an object. -/
def objectTagSource (site : Site) (tag : String) : String :=
  "Object.prototype.toString.call(" ++ site.scope.text ++ ")===\"[object " ++ tag ++ "]\""

/-- Whether a value is an array. -/
def isArray : Option Json → Bool
  | some (.array _) => true
  | _ => false

/-- Whether a value is `null`. -/
def isNull : Option Json → Bool
  | some .null => true
  | _ => false

/-- The value's type has the name given as argument, in any case.  Arrays and
`null` have names of their own, and `null` is no object here. -/
def typeOf : Generator := fun argument site =>
  withText (fun text =>
    .give <|
      match text.toLower with
      | "array" => valueTest site (objectTagSource site "Array") isArray
      | "null" => valueTest site (objectTagSource site "Null") isNull
      | "object" =>
        Expr.all
          [valueTest site ("typeof " ++ site.scope.text ++ " === \"object\"")
              (Json.typeOf · == "object"),
            valueTest site ("(Boolean(" ++ site.scope.text ++ "))") Json.truthy]
      | name =>
        valueTest site ("typeof " ++ site.scope.text ++ " === " ++ argument.text)
          (Json.typeOf · == name))
    argument site

/-- The value is a text that begins with the argument. -/
def beginsWith : Generator := fun argument site =>
  withText (fun start =>
    .ask "typeOf" (.scalar (.string "string")) fun isText =>
      .give (Expr.all
        [isText,
          textTest site (site.scope.text ++ ".indexOf(" ++ argument.text ++ ") === 0")
            fun s => start.toList.isPrefixOf s.toList]))
    argument site

/-- The value is a text that ends with the argument. -/
def endsWith : Generator := fun argument site =>
  withText (fun ending =>
    .ask "typeOf" (.scalar (.string "string")) fun isText =>
      .give (Expr.all
        [isText,
          textTest site
            (site.scope.text ++ ".substr(-" ++ toString ending.length ++ ") === " ++ argument.text)
            fun s => ending.toList.isSuffixOf s.toList]))
    argument site

/-- Whether an argument asks for a value that is set: `true`, or the text
`"true"`. -/
def asksForSet : Option Json → Bool
  | some (.bool b) => b
  | some (.string s) => s == "true"
  | _ => false

/-- The value is neither missing nor `null`, or the opposite, as the argument
asks. -/
def isSet : Generator := fun argument _ =>
  .ask "typeOf" (.scalar (.string "undefined")) fun isMissing =>
    .ask "typeOf" (.scalar (.string "null")) fun isNull =>
      let unset := Expr.any [isMissing, isNull]
      .give (if asksForSet argument.value? then .not unset else unset)

/-- The value's type has exactly the name given as argument. -/
def hasType : Generator := fun argument site =>
  withText (fun name =>
    .give (valueTest site ("typeof " ++ site.scope.text ++ "===" ++ argument.text)
      (Json.typeOf · == name)))
    argument site

/-- Whether a text occurs in another one. -/
def occursIn (needle : List Char) : List Char → Bool
  | [] => needle.isEmpty
  | c :: rest => needle.isPrefixOf (c :: rest) || occursIn needle rest

/-- The value is a text that contains the argument. -/
def stringContains : Generator := fun argument site =>
  withText (fun needle =>
    .ask "is" (.scalar (.string "string")) fun isText =>
      .give (Expr.all
        [isText,
          textTest site (site.scope.text ++ ".indexOf(" ++ argument.text ++ ") !== -1")
            fun s => occursIn needle.toList s.toList]))
    argument site

/-- The value is truthy; the condition shows the scope. -/
def showScope : Generator := fun _ site => .give (.truthy site.scope)

/-- The value is a text that matches the pattern given as argument. -/
def matchesPattern : Generator := fun argument site =>
  match argument.asPattern? with
  | none => .fail (site.failure "expects a pattern")
  | some p =>
    .give (textTest site (argument.text ++ ".test(" ++ site.scope.text ++ ")") p.isMatch)

/-- The variable that counts the evaluations of `counter`. -/
def counterKey : String := "foo"

/-- The value equals the number of evaluations so far, which are counted in the
context. -/
def counter : Generator := fun _ site =>
  .give (Expr.testAt site.scope (site.scope.text ++ " === (this.foo+=1)") fun value context =>
    let (count, after) := context.increment counterKey 1
    ((value.bind Json.asDouble?).any (Binary64.same · count.toDouble), after))

/-- The variable named by the argument is truthy. -/
def contextVariable : Generator := fun argument site =>
  withText (fun key =>
    .give (Expr.testAt site.scope ("this." ++ key)
      (.ofRead fun _ context => Json.truthy (context.get? key))))
    argument site

/-! ## Dictionaries -/

/-- Equality alone. -/
def basic : Dictionary := .ofList [("equals", equals)]

/-- The comparisons. -/
def comparisons : Dictionary :=
  .ofList [("equals", equals), ("greaterThan", greaterThan), ("lessThan", lessThan)]

/-- Tests of types and of the ends of texts. -/
def stringMatchers : Dictionary :=
  .ofList
    [("equals", equals), ("beginsWith", beginsWith), ("isSet", isSet), ("endsWith", endsWith),
      ("typeOf", typeOf)]

/-- An operator that calls another one. -/
def composed : Dictionary := .ofList [("is", hasType), ("stringContains", stringContains)]

/-- The scope alone. -/
def scopePrinter : Dictionary := .ofList [("show", showScope)]

/-- Equality and patterns. -/
def patterns : Dictionary := .ofList [("equals", equals), ("matches", matchesPattern)]

/-- The operators that use the execution context. -/
def runtime : Dictionary := .ofList [("_", counter), ("var", contextVariable)]

end Criteria.Stock
