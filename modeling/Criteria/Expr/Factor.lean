import Criteria.Expr.Basic

/-!
# Factoring shared leading terms

Siblings at a join point often start with the same guard.  Each fragment is read
as its chain of distinct conjunction terms; fragments of two or more terms whose
chains start alike are merged into `lead AND (rest ⊕ rest ⊕ …)`, where `⊕` is the
connective of the join point, and fragments of one term go in front of the
merged ones, each once.  A fragment without terms has nothing to say and is
dropped.

Merging changes how often terms are evaluated and in which order, so it keeps
the answer only for tests that leave the context alone.
-/

namespace Criteria

/-- Orders the members of a group; lower ranks come first. -/
abbrev Rank := Expr → Nat

/-- Members that share their leading term. -/
structure FactorGroup where
  /-- The shared leading term. -/
  lead : Expr
  /-- What is left of each member, in order of arrival. -/
  members : List Expr

/-- Fragments sorted into those of one term and groups by leading term. -/
structure Factoring where
  /-- The fragments of one term, each once. -/
  singles : List Expr
  /-- The longer fragments by leading term. -/
  groups : List FactorGroup

namespace Factoring

/-- Nothing sorted yet. -/
def empty : Factoring := ⟨[], []⟩

/-- The expressions without repetitions, each where it first stands. -/
def distinct (exprs : List Expr) : List Expr :=
  exprs.foldl (fun seen e => if seen.contains e then seen else seen ++ [e]) []

/-- Add a member to the group with the given leading term, opening the group if
there is none. -/
def addMember (lead member : Expr) : List FactorGroup → List FactorGroup
  | [] => [⟨lead, [member]⟩]
  | g :: rest =>
    if g.lead == lead then ⟨g.lead, g.members ++ [member]⟩ :: rest
    else g :: addMember lead member rest

/-- Sort in one more fragment. -/
def add (f : Factoring) (fragment : Expr) : Factoring :=
  match distinct fragment.terms with
  | [] => f
  | [only] => if f.singles.contains only then f else ⟨f.singles ++ [only], f.groups⟩
  | lead :: rest => ⟨f.singles, addMember lead (Expr.all rest) f.groups⟩

/-- All fragments sorted in, one after another. -/
def ofFragments (fragments : List Expr) : Factoring := fragments.foldl add empty

end Factoring

/-- The members by ascending rank; equal ranks keep their order. -/
def FactorGroup.ranked (rank : Rank) (g : FactorGroup) : List Expr :=
  g.members.mergeSort (fun a b => rank a ≤ rank b)

/-- A group as one fragment. -/
def FactorGroup.merge (rank : Rank) (connective : Connective) (g : FactorGroup) : Expr :=
  match g.ranked rank with
  | [] => g.lead
  | [only] => Expr.all [g.lead, only]
  | members => Expr.all [g.lead, connective.combine members]

/-- The fragments of a join point with shared leading terms factored out. -/
def factor (rank : Rank) (connective : Connective) (fragments : List Expr) : List Expr :=
  let f := Factoring.ofFragments fragments
  f.singles ++ f.groups.map (FactorGroup.merge rank connective)

end Criteria
