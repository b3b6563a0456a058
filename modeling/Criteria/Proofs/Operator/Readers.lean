import Criteria.Proofs.Operator.Conditions
import Criteria.Proofs.Operator.Moving

/-!
# Stock operators that only read

All stock operators but `counter` leave the context alone, as they look at the value
under test by conditions that only read, and they do so in the same way wherever it
stands.  Both are shown operator by operator, from what the ways of refusing an argument
and of putting tests together keep.

* `Stock.readOnly`: these operators.
* `Stock.reads_readOnly`: they look at the value under test by conditions.
* `Stock.movable`: they can be moved below a key.
* `Dictionary.local_of_readOnly`, `Dictionary.made_of_makesUnder`: what they give and make
  below an entry name.
* `Dictionary.tame_of_coherent`: their tests are tame if they are coherent.
-/

namespace Criteria

/-- A test leaves the context alone. -/
def Test.ReadOnly (t : Test) : Prop := ∀ value context, (t.check value context).2 = context

/-- Tests of a kind with equal scope and source agree. -/
def Test.Coherent (T : Test → Prop) : Prop :=
  ∀ s t, T s → T t → s.scope = t.scope → s.source = t.source →
    ∀ value context, (s.check value context).1 = (t.check value context).1

namespace Stock

/-- The stock operators whose tests leave the context alone: all but `counter`. -/
def readOnly : List Generator :=
  [equals, greaterThan, lessThan, typeOf, beginsWith, endsWith, isSet, hasType, stringContains,
    showScope, matchesPattern, contextVariable]

/-! ## Tests that leave the context alone -/

/-- The stock operators but `counter` look at the value under test by conditions. -/
theorem reads_readOnly {g : Generator} (h : g ∈ readOnly) (argument : Argument) (site : Site) :
    (g argument site).Gives (Reads site.scope) := by
  simp only [readOnly, List.mem_cons, List.not_mem_nil, or_false] at h
  rcases h with rfl | rfl | rfl | rfl | rfl | rfl | rfl | rfl | rfl | rfl | rfl | rfl
  · exact reads_comparison .equal
  · exact reads_comparison .greater
  · exact reads_comparison .less
  · exact reads_typeOf
  · exact reads_beginsWith
  · exact reads_endsWith
  · exact reads_isSet
  · exact reads_hasType
  · exact reads_stringContains
  · exact reads_showScope
  · exact reads_matchesPattern
  · exact reads_contextVariable

theorem Made.readOnly {scope : Scope} {t : Test} (h : Made scope t) : t.ReadOnly := by
  obtain ⟨-, c, -, hcheck⟩ := h
  rw [Test.ReadOnly, hcheck]
  exact c.check_snd

/-! ## Moving below a key -/

section Moving

variable {key : String} {s t : Site}

theorem moved_valueTest (h : s.Moved key t) (source source' : String)
    (holds : Option Json → Bool) :
    (valueTest s source holds).Moved key (valueTest t source' holds) := by
  rw [valueTest, h.scope]
  exact Expr.moved_testAt _ _ _ _

/-- Failures name the operator only. -/
theorem matches_failure (h : s.Moved key t) (message : String) :
    (Generation.fail (s.failure message)).Matches (Expr.Moved key)
      (.fail (t.failure message)) := by
  change Site.failure _ _ = Site.failure _ _
  rw [Site.failure, Site.failure, h.operator]

theorem matches_withLiteral {next next' : Json → Generation} {argument : Argument}
    (hst : s.Moved key t) (h : ∀ value, (next value).Matches (Expr.Moved key) (next' value)) :
    (withLiteral next argument s).Matches (Expr.Moved key) (withLiteral next' argument t) := by
  rw [withLiteral, withLiteral]
  cases argument.value? with
  | some value => exact h value
  | none => exact matches_failure hst _

theorem matches_withText {next next' : String → Generation} {argument : Argument}
    (hst : s.Moved key t) (h : ∀ text, (next text).Matches (Expr.Moved key) (next' text)) :
    (withText next argument s).Matches (Expr.Moved key) (withText next' argument t) := by
  rw [withText, withText]
  cases argument.asString? with
  | some text => exact h text
  | none => exact matches_failure hst _

end Moving

theorem movable_comparison (symbol : String) (wanted : Ordering) :
    Generator.Movable (comparison symbol wanted) := fun _ _ _ _ hst =>
  matches_withLiteral hst fun _ => moved_valueTest hst _ _ _

theorem movable_typeOf : Generator.Movable typeOf := by
  intro key argument s t hst
  refine matches_withText hst fun text => ?_
  change Expr.Moved key _ _
  split
  · exact moved_valueTest hst _ _ _
  · exact moved_valueTest hst _ _ _
  · exact .pair (moved_valueTest hst _ _ _) (moved_valueTest hst _ _ _)
  · exact moved_valueTest hst _ _ _

/-- An operator on texts: the value is a text, which another operator tells, and
something holds of it. -/
theorem movable_textual (name : String) (source : String → Argument → Site → String)
    (holds : String → String → Bool) :
    Generator.Movable fun argument site => withText (fun text =>
      .ask name (.scalar (.string "string")) fun isText =>
        .give (Expr.all [isText, textTest site (source text argument site) (holds text)]))
      argument site := by
  intro key argument s t hst
  refine matches_withText hst fun text => Generation.matches_ask fun d e hde => ?_
  exact hde.pair (moved_valueTest hst _ _ _)

theorem movable_isSet : Generator.Movable isSet := by
  intro key argument s t hst
  refine Generation.matches_ask fun d e hde => Generation.matches_ask fun d' e' hde' => ?_
  have hunset : (Expr.any [d, d']).Moved key (Expr.any [e, e']) := hde.pair hde'
  change Expr.Moved key _ _
  split
  · exact hunset.not
  · exact hunset

theorem movable_hasType : Generator.Movable hasType := fun _ _ _ _ hst =>
  matches_withText hst fun _ => moved_valueTest hst _ _ _

theorem movable_showScope : Generator.Movable showScope := by
  intro key argument s t hst
  change (Expr.truthy s.scope).Moved key (.truthy t.scope)
  rw [hst.scope]
  exact Expr.moved_truthy _

theorem movable_matchesPattern : Generator.Movable matchesPattern := by
  intro key argument s t hst
  rw [matchesPattern, matchesPattern]
  cases argument.asPattern? with
  | some p => exact moved_valueTest hst _ _ _
  | none => exact matches_failure hst _

theorem movable_contextVariable : Generator.Movable contextVariable := by
  intro key argument s t hst
  refine matches_withText hst fun text => ?_
  rw [hst.scope]
  exact Expr.moved_testAt _ _ _ _

/-- The stock operators that leave the context alone can be moved. -/
theorem movable {g : Generator} (h : g ∈ readOnly) : g.Movable := by
  simp only [readOnly, List.mem_cons, List.not_mem_nil, or_false] at h
  rcases h with rfl | rfl | rfl | rfl | rfl | rfl | rfl | rfl | rfl | rfl | rfl | rfl
  · exact movable_comparison _ _
  · exact movable_comparison _ _
  · exact movable_comparison _ _
  · exact movable_typeOf
  · exact movable_textual _ _ _
  · exact movable_textual _ _ _
  · exact movable_isSet
  · exact movable_hasType
  · exact movable_textual _ _ _
  · exact movable_showScope
  · exact movable_matchesPattern
  · exact movable_contextVariable

end Stock

namespace Dictionary

variable {d : Dictionary} {limit : Nat}
  (hstock : ∀ name g, d.get? name = some g → g ∈ Stock.readOnly)

include hstock

/-- What the stock operators other than `counter` give at a place. -/
theorem reads_of_resolve {key : String} {q : Query} {field : Option String} {enclosing : Scope}
    {e : Expr} (h : (d.resolve limit key q field enclosing).result = .ok e) :
    Stock.Reads (Site.scope ⟨key, enclosing, field, 0⟩) e :=
  property_of_resolve (P := Stock.Reads (Site.scope ⟨key, enclosing, field, 0⟩))
    (fun name g hget argument depth =>
      Stock.reads_readOnly (hstock name g hget) argument ⟨name, enclosing, field, depth⟩) h

theorem local_of_readOnly (entryName : String) : d.Local limit entryName :=
  fun _ _ _ _ _ he => (reads_of_resolve hstock he).1

/-- The tests that the stock operators other than `counter` make below an entry name. -/
theorem made_of_makesUnder {entryName : String} {t : Test}
    (h : d.MakesUnder limit entryName t) : ∃ path, Stock.Made ⟨entryName, path⟩ t := by
  obtain ⟨key, q, field, path, e, he, ht⟩ := h
  have hmade := (reads_of_resolve hstock he).2 t ht
  cases field with
  | none => exact ⟨path, hmade⟩
  | some field => exact ⟨path ++ [field], hmade⟩

/-- The tests of a dictionary of stock operators other than `counter` are tame, if
they are coherent. -/
theorem tame_of_coherent {entryName : String}
    (hcoherent : Test.Coherent (d.MakesUnder limit entryName)) :
    Test.Tame (d.MakesUnder limit entryName) where
  readOnly := by
    intro t ht
    obtain ⟨path, hmade⟩ := made_of_makesUnder hstock ht
    exact hmade.readOnly
  coherent := hcoherent

end Dictionary

end Criteria
