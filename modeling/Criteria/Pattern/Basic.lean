import Criteria.Pattern.Matching
import Criteria.Pattern.Parser
import Criteria.Pattern.Size

/-!
# Patterns

A pattern is its source text together with the regular expression it stands for.
The expression is determined by the source, so patterns are equal when their
sources are.
-/

namespace Criteria

namespace Pattern

/-- The regular expression that a source text stands for; patterns that would
need too large an automaton are refused. -/
def regular? (source : String) : Option Regular :=
  match Tree.parse? source with
  | some t => if t.fits then Regular.ofTree? t else none
  | none => none

end Pattern

/-- A well-formed pattern. -/
structure Pattern where
  /-- The text of the pattern. -/
  source : String
  /-- What it stands for. -/
  regular : Pattern.Regular
  /-- The source stands for the expression. -/
  reads : Pattern.regular? source = some regular

namespace Pattern

/-- The pattern with the given source, if it is well formed. -/
def ofSource? (source : String) : Option Pattern :=
  match h : regular? source with
  | some r => some ⟨source, r, h⟩
  | none => none

/-- Patterns with the same source are the same. -/
theorem eq_of_source_eq {p q : Pattern} (h : p.source = q.source) : p = q := by
  obtain ⟨s, r, hr⟩ := p
  obtain ⟨t, r', hr'⟩ := q
  have hs : s = t := h
  subst hs
  have : r = r' := Option.some.inj (hr.symm.trans hr')
  subst this
  rfl

/-- Whether the pattern matches somewhere in a text. -/
def isMatch (p : Pattern) (text : String) : Bool := p.regular.isMatch text

end Pattern

end Criteria
