import Criteria.Json.Basic
import Criteria.OrderedMap
import Criteria.Pattern.Basic

/-!
# Queries

A query is a tree: mappings ask for all of their entries, lists for one of their
members, and everything else is a value handed to an operator.

* `Query.ofJson`: a query from plain JSON, which has no patterns.
* `Query.toJson`: the JSON form; a pattern becomes its source text.
* `Query.same`: equality, in which the order of entries counts.
-/

namespace Criteria

/-- A declarative query. -/
inductive Query where
  /-- All of the entries. -/
  | all (entries : List (String × Query))
  /-- Any of the branches. -/
  | any (branches : List Query)
  /-- A value for an operator. -/
  | scalar (value : Json)
  /-- A pattern for an operator. -/
  | pattern (p : Pattern)

namespace Query

/-- A mapping; a repeated name keeps its first place and takes its last value. -/
def conjunction (entries : List (String × Query)) : Query := .all (Entries.ofList entries)

mutual

/-- The query written as plain JSON. -/
def ofJson : Json → Query
  | .object members => .all (ofMembers members)
  | .array items => .any (ofItems items)
  | .null => .scalar .null
  | .bool b => .scalar (.bool b)
  | .number n => .scalar (.number n)
  | .string s => .scalar (.string s)

/-- The branches written as items of an array. -/
def ofItems : List Json → List Query
  | [] => []
  | v :: rest => ofJson v :: ofItems rest

/-- The entries written as members of an object. -/
def ofMembers : List (String × Json) → List (String × Query)
  | [] => []
  | (key, v) :: rest => (key, ofJson v) :: ofMembers rest

end

mutual

/-- The JSON form of a query. -/
def toJson : Query → Json
  | .all entries => .object (toMembers entries)
  | .any branches => .array (toItems branches)
  | .scalar value => value
  | .pattern p => .string p.source

/-- The JSON forms of branches. -/
def toItems : List Query → List Json
  | [] => []
  | q :: rest => toJson q :: toItems rest

/-- The JSON forms of entries. -/
def toMembers : List (String × Query) → List (String × Json)
  | [] => []
  | (key, q) :: rest => (key, toJson q) :: toMembers rest

end

/-- Whether the query opens a deeper level below a field: a mapping or list with
something in it. -/
def isNested : Query → Bool
  | .all entries => !entries.isEmpty
  | .any branches => !branches.isEmpty
  | .scalar _ | .pattern _ => false

mutual

/-- Equality of queries. -/
def same : Query → Query → Bool
  | .all xs, .all ys => sameEntries xs ys
  | .any xs, .any ys => sameBranches xs ys
  | .scalar v, .scalar w => v.same w
  | .pattern p, .pattern q => p.source == q.source
  | _, _ => false

/-- Equality entry by entry, in order. -/
def sameEntries : List (String × Query) → List (String × Query) → Bool
  | [], [] => true
  | (k, x) :: xs, (l, y) :: ys => k == l && same x y && sameEntries xs ys
  | _, _ => false

/-- Equality branch by branch, in order. -/
def sameBranches : List Query → List Query → Bool
  | [], [] => true
  | x :: xs, y :: ys => same x y && sameBranches xs ys
  | _, _ => false

end

end Query

end Criteria
