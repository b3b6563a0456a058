import Criteria.Proofs.Operator.Results

/-!
# Conditions of stock operators

The tests that the stock operators other than `counter` make are of a few kinds.  Each
kind has a source, in which the text of the scope stands, and a check, and both depend
on the same data.

* `Stock.Condition`: the kinds of tests, with their sources and checks.
* `Stock.Made`: a test of such a kind at a scope.
* `Stock.Reads`: an expression that looks at the value at a scope, by such tests.
* `Stock.reads_comparison` and so on: what the operators give.
-/

namespace Criteria.Stock

/-- The comparisons with an argument. -/
inductive Comparison where
  | equal
  | greater
  | less

namespace Comparison

/-- How the comparison is written. -/
def symbol : Comparison → String
  | .equal => "==="
  | .greater => ">"
  | .less => "<"

/-- The order that meets the comparison. -/
def wanted : Comparison → Ordering
  | .equal => .eq
  | .greater => .gt
  | .less => .lt

end Comparison

/-- A check of a text under test; other values do not pass. -/
def textCheck (holds : String → Bool) : Check :=
  .ofValue fun value => (value.bind Json.asString?).any holds

/-- What a test of a stock operator is about. -/
inductive Condition where
  /-- The value compares to an expected one. -/
  | compares (comparison : Comparison) (expected : Json)
  /-- The value is a text that begins with another one. -/
  | begins (start : String)
  /-- The value is a text that ends with another one. -/
  | ends (ending : String)
  /-- The value is a text that contains another one. -/
  | contains (needle : String)
  /-- The type of the value has a name that is written in any case. -/
  | hasKind (name : String)
  /-- The type of the value has exactly a name. -/
  | hasType (name : String)
  /-- The value is an array. -/
  | isArray
  /-- The value is `null`. -/
  | isNull
  /-- The value is truthy. -/
  | isTruthy
  /-- The value is a text that matches a pattern. -/
  | fits (p : Pattern)
  /-- A variable is truthy. -/
  | looksUp (key : String)

namespace Condition

/-- The source of a condition on the exact kind of an object. -/
def tagSource (scope tag : String) : String :=
  "Object.prototype.toString.call(" ++ scope ++ ")===\"[object " ++ tag ++ "]\""

/-- The source of the condition, given the text of the scope. -/
def source (scope : String) : Condition → String
  | .compares comparison expected =>
    scope ++ " " ++ comparison.symbol ++ " " ++ expected.text
  | .begins start => scope ++ ".indexOf(" ++ Json.quote start ++ ") === 0"
  | .ends ending =>
    scope ++ ".substr(-" ++ toString ending.length ++ ") === " ++ Json.quote ending
  | .contains needle => scope ++ ".indexOf(" ++ Json.quote needle ++ ") !== -1"
  | .hasKind name => "typeof " ++ scope ++ " === " ++ Json.quote name
  | .hasType name => "typeof " ++ scope ++ "===" ++ Json.quote name
  | .isArray => tagSource scope "Array"
  | .isNull => tagSource scope "Null"
  | .isTruthy => "(Boolean(" ++ scope ++ "))"
  | .fits p => "/" ++ p.source ++ "/" ++ ".test(" ++ scope ++ ")"
  | .looksUp key => "this." ++ key

/-- The check of the condition. -/
def check : Condition → Check
  | .compares comparison expected =>
    .ofValue fun value => value.bind (Json.compare? · expected) == some comparison.wanted
  | .begins start => textCheck fun s => start.toList.isPrefixOf s.toList
  | .ends ending => textCheck fun s => ending.toList.isSuffixOf s.toList
  | .contains needle => textCheck fun s => occursIn needle.toList s.toList
  | .hasKind name => .ofValue (Json.typeOf · == name.toLower)
  | .hasType name => .ofValue (Json.typeOf · == name)
  | .isArray => .ofValue Stock.isArray
  | .isNull => .ofValue Stock.isNull
  | .isTruthy => .ofValue Json.truthy
  | .fits p => textCheck p.isMatch
  | .looksUp key => .ofRead fun _ context => Json.truthy (context.get? key)

/-- No condition changes the context. -/
theorem check_snd (c : Condition) (value : Option Json) (context : Context) :
    (c.check value context).2 = context := by
  cases c <;> rfl

end Condition

/-- A test of a condition at a scope. -/
def Made (scope : Scope) (t : Test) : Prop :=
  t.scope = scope ∧ ∃ c : Condition, t.source = c.source scope.text ∧ t.check = c.check

/-- An expression looks at the value at a scope, by tests of conditions. -/
def Reads (scope : Scope) (e : Expr) : Prop := e.At scope ∧ e.Over (Made scope)

section Reads

variable {scope : Scope}

theorem reads_truthy (scope : Scope) : Reads scope (.truthy scope) :=
  ⟨Expr.at_truthy scope, Expr.over_truthy scope⟩

/-- A test of a condition, given by its source and check. -/
theorem reads_testAt (c : Condition) {source : String} {check : Check}
    (hsource : source = c.source scope.text) (hcheck : check = c.check) :
    Reads scope (Expr.testAt scope source check) :=
  ⟨Expr.at_testAt scope source check, Expr.over_test.mpr ⟨rfl, c, hsource, hcheck⟩⟩

theorem Reads.not {e : Expr} (h : Reads scope e) : Reads scope (.not e) :=
  ⟨Expr.at_not h.1, Expr.over_not.mpr h.2⟩

theorem Reads.pair {c : Connective} {d e : Expr} (hd : Reads scope d) (he : Reads scope e) :
    Reads scope (c.combine [d, e]) := by
  refine ⟨Expr.at_combine ?_, hd.2.pair he.2⟩
  exact List.forall_mem_cons.mpr ⟨hd.1, List.forall_mem_singleton.mpr he.1⟩

end Reads

/-! ## What the operators give -/

section Operators

variable {argument : Argument} {site : Site}

theorem reads_comparison (comparison : Comparison) :
    (Stock.comparison comparison.symbol comparison.wanted argument site).Gives
      (Reads site.scope) := by
  refine gives_literal fun value hvalue => ?_
  rw [hvalue]
  exact reads_testAt (.compares comparison value) rfl rfl

theorem reads_typeOf : (typeOf argument site).Gives (Reads site.scope) := by
  refine gives_text fun text htext => ?_
  rw [htext]
  change Reads site.scope _
  split
  · exact reads_testAt .isArray rfl rfl
  · exact reads_testAt .isNull rfl rfl
  · refine .pair (reads_testAt (.hasKind "object") ?_ ?_) (reads_testAt .isTruthy rfl rfl)
    · have hquote : " === " ++ Json.quote "object" = " === \"object\"" := by
        simp [Json.quote, Json.escapeChar]
      rw [← hquote, ← String.append_assoc]
      rfl
    · have hlower : "object".toLower = "object" := by
        change String.map Char.toLower "object" = _
        simp [← String.toList_inj]
      rw [Condition.check, hlower]
  · exact reads_testAt (.hasKind text) rfl rfl

/-- An operator on texts makes one test next to that of the operator it calls. -/
theorem reads_textual (name : String) {source : String → String}
    {holds : String → String → Bool} (condition : String → Condition)
    (hsource : ∀ text, argument = .literal (.string text) →
      source text = (condition text).source site.scope.text)
    (hcheck : ∀ text, textCheck (holds text) = (condition text).check) :
    (withText (fun text =>
      .ask name (.scalar (.string "string")) fun isText =>
        .give (Expr.all [isText, textTest site (source text) (holds text)]))
      argument site).Gives (Reads site.scope) :=
  gives_text fun text htext => Generation.gives_ask fun _ he =>
    he.pair (reads_testAt (condition text) (hsource text htext) (hcheck text))

theorem reads_beginsWith : (beginsWith argument site).Gives (Reads site.scope) :=
  reads_textual "typeOf" .begins (fun _ htext => by rw [htext]; rfl) fun _ => rfl

theorem reads_endsWith : (endsWith argument site).Gives (Reads site.scope) :=
  reads_textual "typeOf" .ends (fun _ htext => by rw [htext]; rfl) fun _ => rfl

theorem reads_stringContains : (stringContains argument site).Gives (Reads site.scope) :=
  reads_textual "is" .contains (fun _ htext => by rw [htext]; rfl) fun _ => rfl

theorem reads_isSet : (isSet argument site).Gives (Reads site.scope) := by
  refine Generation.gives_ask fun d hd => Generation.gives_ask fun e he => ?_
  have hunset : Reads site.scope (Expr.any [d, e]) := hd.pair he
  change Reads site.scope _
  split
  · exact hunset.not
  · exact hunset

theorem reads_hasType : (hasType argument site).Gives (Reads site.scope) := by
  refine gives_text fun text htext => ?_
  rw [htext]
  exact reads_testAt (.hasType text) rfl rfl

theorem reads_showScope : (showScope argument site).Gives (Reads site.scope) :=
  reads_truthy site.scope

theorem reads_matchesPattern : (matchesPattern argument site).Gives (Reads site.scope) := by
  cases argument with
  | literal value => exact trivial
  | pattern p => exact reads_testAt (.fits p) rfl rfl

theorem reads_contextVariable : (contextVariable argument site).Gives (Reads site.scope) :=
  gives_text fun text _ => reads_testAt (.looksUp text) rfl rfl

end Operators

end Criteria.Stock
