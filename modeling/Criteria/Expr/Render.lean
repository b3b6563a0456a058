import Criteria.Expr.Basic
import Criteria.Text.Quoted

/-!
# Expressions as text

* `Expr.render`: script source.  A disjunction that stands directly in a
  conjunction is parenthesised and a negation always encloses its operand; no
  other parentheses are written.
* `Expr.renderFunction`: a whole predicate as a function of its input.
* `Expr.inspect`: the structure of an expression, for messages.
-/

namespace Criteria.Expr

/-- Whether a part needs parentheses among the parts of a connective. -/
def needsParens : Connective → Expr → Bool
  | .and, .node .or _ => true
  | _, _ => false

/-- A text, in parentheses if asked for. -/
def parenthesize (enclosed : Bool) (text : String) : String :=
  if enclosed then "(" ++ text ++ ")" else text

mutual

/-- Script source of an expression. -/
def render : Expr → String
  | .bool b => if b then "true" else "false"
  | .truthy scope => scope.text
  | .isObject scope => "typeof " ++ scope.text ++ " === \"object\""
  | .test t => t.source
  | .not inner => "!(" ++ render inner ++ ")"
  | .node connective parts => renderParts connective parts

/-- Script source of parts, with the connective between them. -/
def renderParts (connective : Connective) : List Expr → String
  | [] => ""
  | [e] => parenthesize (needsParens connective e) (render e)
  | e :: f :: rest =>
    parenthesize (needsParens connective e) (render e) ++ connective.symbol
      ++ renderParts connective (f :: rest)

end

/-- A predicate as a function of its input; without an expression it answers
`true`. -/
def renderFunction (expr : Option Expr) (entryName : String) : String :=
  "function anonymous(" ++ entryName ++ ") \x7b return "
    ++ (expr.map render).getD "true" ++ " \x7d"

/-- The structure of a scope. -/
def inspectScope (scope : Scope) : String :=
  "Scope \x7b root: " ++ Quoted.quote scope.root ++ ", segments: "
    ++ Quoted.quoteList scope.keys ++ " \x7d"

mutual

/-- The structure of an expression; the check of a test is not shown. -/
def inspect : Expr → String
  | .bool b => "Bool(" ++ (if b then "true" else "false") ++ ")"
  | .truthy scope => "Truthy(" ++ inspectScope scope ++ ")"
  | .isObject scope => "IsObject(" ++ inspectScope scope ++ ")"
  | .test t =>
    "Test(Test \x7b scope: " ++ inspectScope t.scope ++ ", source: " ++ Quoted.quote t.source
      ++ ", .. \x7d)"
  | .not inner => "Not(" ++ inspect inner ++ ")"
  | .node connective parts => connective.name ++ "([" ++ inspectParts parts ++ "])"

/-- The structures of several expressions, with commas between them. -/
def inspectParts : List Expr → String
  | [] => ""
  | [e] => inspect e
  | e :: f :: rest => inspect e ++ ", " ++ inspectParts (f :: rest)

end

end Criteria.Expr
