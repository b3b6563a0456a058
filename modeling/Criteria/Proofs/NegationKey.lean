import Criteria.Compiler
import Criteria.Operator.Stock
import Criteria.Proofs.Json.Text
import Criteria.Proofs.Plan.Compiling

/-!
# The negation key is only a name

Which key negates is a matter of the options.  Renaming it in a query and in the options
together changes nothing: where the new name does not occur in the query already, every key
is read in the same way as before, so the compilation asks the same operators at the same
places, joins the same fragments, and ends with the same expression or the same error.

* `Json.renameKey`: a key renamed in all objects of a value.
* `Compilation.reads_renameKey`: a value with the key renamed compiles as it did before, at a
  scope and as the value of a name.
* `Compiler.compilePredicate_renameKey`: the same for a whole query.
-/

namespace Criteria

/-! ## Renaming keys -/

namespace Json

mutual

/-- The keys of all objects in a value. -/
def keys : Json → List String
  | .array items => keysOfItems items
  | .object members => keysOfMembers members
  | _ => []

/-- The keys of all objects in several values. -/
def keysOfItems : List Json → List String
  | [] => []
  | v :: rest => keys v ++ keysOfItems rest

/-- The keys of members and of all objects in their values. -/
def keysOfMembers : List (String × Json) → List String
  | [] => []
  | (key, v) :: rest => key :: keys v ++ keysOfMembers rest

end

mutual

/-- The value with a key renamed in all objects; every member keeps its position. -/
def renameKey (old new : String) : Json → Json
  | .array items => .array (renameKeyOfItems old new items)
  | .object members => .object (renameKeyOfMembers old new members)
  | v => v

/-- Several values with a key renamed. -/
def renameKeyOfItems (old new : String) : List Json → List Json
  | [] => []
  | v :: rest => renameKey old new v :: renameKeyOfItems old new rest

/-- Members with a key renamed, their own and in their values. -/
def renameKeyOfMembers (old new : String) : List (String × Json) → List (String × Json)
  | [] => []
  | (key, v) :: rest =>
    (if key = old then new else key, renameKey old new v) :: renameKeyOfMembers old new rest

end

theorem mem_keysOfItems {key : String} {items : List Json} :
    key ∈ keysOfItems items ↔ ∃ v ∈ items, key ∈ v.keys := by
  induction items with
  | nil => simp [keysOfItems]
  | cons v rest ih => simp [keysOfItems, ih]

theorem mem_keysOfMembers {key : String} {members : List (String × Json)} :
    key ∈ keysOfMembers members ↔ ∃ m ∈ members, key = m.1 ∨ key ∈ m.2.keys := by
  induction members with
  | nil => simp [keysOfMembers]
  | cons m rest ih => simp [keysOfMembers, ih, or_assoc]

end Json

namespace Query

open Criteria.Json

/-- Renaming a key leaves it open whether a deeper level is opened. -/
theorem isNested_renameKey (old new : String) (v : Json) :
    (ofJson (v.renameKey old new)).isNested = (ofJson v).isNested := by
  cases v with
  | array items => cases items <;> rfl
  | object members => cases members <;> rfl
  | _ => rfl

/-- What opens no deeper level has no keys to rename. -/
theorem ofJson_renameKey_of_isNested_eq_false {old new : String} {v : Json}
    (h : (ofJson v).isNested = false) : ofJson (v.renameKey old new) = ofJson v := by
  cases v with
  | array items =>
      cases items with
      | nil => rfl
      | cons v rest => exact nomatch h
  | object members =>
      cases members with
      | nil => rfl
      | cons m rest => exact nomatch h
  | _ => rfl

end Query

namespace Compilation

/-- The compilation with another negation key. -/
def withNegationKey (c : Compilation) (key : String) : Compilation :=
  ⟨c.dictionary, { c.options with negationKey := key }⟩

theorem negates_self (c : Compilation) (key : String) :
    (c.withNegationKey key).negates key = true := beq_self_eq_true key

theorem negates_of_ne (c : Compilation) {key negation : String} (h : key ≠ negation) :
    (c.withNegationKey negation).negates key = false := beq_eq_false_iff_ne.mpr h

/-- A value compiles with its negation key renamed as it did before: at a scope, and as the
value of a name. -/
def Reads (c : Compilation) (old new : String) (v : Json) : Prop :=
  (∀ scope, (c.withNegationKey new).query scope (.ofJson (v.renameKey old new)) =
      (c.withNegationKey old).query scope (.ofJson v)) ∧
    ∀ scope name, (c.withNegationKey new).property scope name (.ofJson (v.renameKey old new)) =
      (c.withNegationKey old).property scope name (.ofJson v)

section Renaming

open Criteria.Json

variable {c : Compilation} {old new : String}

theorem queryBranches_renameKey {items : List Json} (h : ∀ v ∈ items, c.Reads old new v)
    (scope : Scope) :
    (c.withNegationKey new).queryBranches scope (Query.ofItems (renameKeyOfItems old new items)) =
      (c.withNegationKey old).queryBranches scope (Query.ofItems items) := by
  induction items with
  | nil => rfl
  | cons v rest ih =>
      simp only [renameKeyOfItems, Query.ofItems, queryBranches, (h v List.mem_cons_self).1,
        ih fun v hv => h v (List.mem_cons_of_mem _ hv)]

theorem propertyBranches_renameKey {items : List Json} (h : ∀ v ∈ items, c.Reads old new v)
    (scope : Scope) (name : String) :
    (c.withNegationKey new).propertyBranches scope name
        (Query.ofItems (renameKeyOfItems old new items)) =
      (c.withNegationKey old).propertyBranches scope name (Query.ofItems items) := by
  induction items with
  | nil => rfl
  | cons v rest ih =>
      simp only [renameKeyOfItems, Query.ofItems, propertyBranches, (h v List.mem_cons_self).2,
        ih fun v hv => h v (List.mem_cons_of_mem _ hv)]

theorem queryEntries_renameKey {members : List (String × Json)}
    (h : ∀ m ∈ members, m.1 ≠ new ∧ c.Reads old new m.2) (scope : Scope) :
    (c.withNegationKey new).queryEntries scope
        (Query.ofMembers (renameKeyOfMembers old new members)) =
      (c.withNegationKey old).queryEntries scope (Query.ofMembers members) := by
  induction members with
  | nil => rfl
  | cons m rest ih =>
      obtain ⟨key, v⟩ := m
      obtain ⟨hnew, hquery, hproperty⟩ := h (key, v) List.mem_cons_self
      have hrest := ih fun m hm => h m (List.mem_cons_of_mem _ hm)
      simp only [renameKeyOfMembers, Query.ofMembers, queryEntries, hrest]
      by_cases hold : key = old
      · subst hold
        simp only [if_true, negates_self, hquery]
      · simp only [if_neg hold, negates_of_ne c hold, negates_of_ne c hnew, Bool.false_eq_true,
          if_false, hproperty]

theorem propertyEntries_renameKey {members : List (String × Json)}
    (h : ∀ m ∈ members, m.1 ≠ new ∧ c.Reads old new m.2) (scope : Scope) (name : String) :
    (c.withNegationKey new).propertyEntries scope name
        (Query.ofMembers (renameKeyOfMembers old new members)) =
      (c.withNegationKey old).propertyEntries scope name (Query.ofMembers members) := by
  induction members with
  | nil => rfl
  | cons m rest ih =>
      obtain ⟨key, v⟩ := m
      obtain ⟨hnew, -, hproperty⟩ := h (key, v) List.mem_cons_self
      have hrest := ih fun m hm => h m (List.mem_cons_of_mem _ hm)
      simp only [renameKeyOfMembers, Query.ofMembers, propertyEntries, hrest]
      by_cases hold : key = old
      · subst hold
        simp only [if_true, negates_self, hproperty]
      · simp only [if_neg hold, negates_of_ne c hold, negates_of_ne c hnew, Bool.false_eq_true,
          if_false, hproperty, Query.isNested_renameKey]
        -- An operator's argument is no deeper level, so there is nothing to rename in it.
        cases hnested : (Query.ofJson v).isNested with
        | true => rfl
        | false => rw [Query.ofJson_renameKey_of_isNested_eq_false hnested]; rfl

/-- Where the new name is no key yet, a value compiles with its negation key renamed as it did
before. -/
theorem reads_renameKey {v : Json} (hfresh : new ∉ v.keys) : c.Reads old new v := by
  induction v with
  | array items ih =>
      have hitems : ∀ v ∈ items, c.Reads old new v := fun v hv =>
        ih v hv fun hkey => hfresh (mem_keysOfItems.mpr ⟨v, hv, hkey⟩)
      constructor
      · intro scope
        rw [renameKey, Query.ofJson, Query.ofJson, query, query, queryBranches_renameKey hitems]
        rfl
      · intro scope name
        rw [renameKey, Query.ofJson, Query.ofJson, property, property,
          propertyBranches_renameKey hitems]
        rfl
  | object members ih =>
      have hmembers : ∀ m ∈ members, m.1 ≠ new ∧ c.Reads old new m.2 := fun m hm =>
        ⟨fun hkey => hfresh (mem_keysOfMembers.mpr ⟨m, hm, .inl hkey.symm⟩),
          ih m hm fun hkey => hfresh (mem_keysOfMembers.mpr ⟨m, hm, .inr hkey⟩)⟩
      constructor
      · intro scope
        rw [renameKey, Query.ofJson, Query.ofJson, query, query, queryEntries_renameKey hmembers]
        rfl
      · intro scope name
        rw [renameKey, Query.ofJson, Query.ofJson, property, property,
          propertyEntries_renameKey hmembers]
        rfl
  | _ => exact ⟨fun _ => rfl, fun _ _ => rfl⟩

/-- The whole compilation is the same, with all that it reports. -/
theorem run_renameKey (c : Compilation) {old new : String} {v : Json} (hfresh : new ∉ v.keys) :
    (c.withNegationKey new).run (.ofJson (v.renameKey old new)) =
      (c.withNegationKey old).run (.ofJson v) := by
  rw [run, run, (reads_renameKey hfresh : c.Reads old new v).1]
  rfl

end Renaming

end Compilation

namespace Compiler

/-- The compiler with another negation key, which may not be empty. -/
def withNegationKey (c : Compiler) (key : String) (h : key ≠ "") : Compiler where
  dictionary := c.dictionary
  options := { c.options with negationKey := key }
  valid := by
    have hvalid := c.valid
    unfold Options.fault? at hvalid ⊢
    split at hvalid
    · exact nomatch hvalid
    · split at hvalid
      · exact nomatch hvalid
      · rename_i hname _
        rwa [if_neg hname, if_neg h]

/-- A query whose negation key is renamed, in the query and in the options, compiles as it
did before: the same operators are asked, and the predicate or the error is the same.  The
new name must be no key of the query. -/
theorem compilePredicate_renameKey (c : Compiler) {old new : String} (hold : old ≠ "")
    (hnew : new ≠ "") {v : Json} (hfresh : new ∉ v.keys) :
    (c.withNegationKey new hnew).compilePredicate (.ofJson (v.renameKey old new)) =
      (c.withNegationKey old hold).compilePredicate (.ofJson v) := by
  have hrun : (c.withNegationKey new hnew).compileExpr (.ofJson (v.renameKey old new)) =
      (c.withNegationKey old hold).compileExpr (.ofJson v) :=
    Compilation.run_renameKey ⟨c.dictionary, c.options⟩ hfresh
  rw [compilePredicate, compilePredicate, hrun]
  rfl

/-- A compiler for comparisons with standard options. -/
def comparing : Compiler := ⟨Stock.comparisons, .standard, fault?_standard⟩

/-- Negations of a mapping, under fields, in a list, of each other and of an operator's
argument, next to arguments that spell the key. -/
def negations : Json :=
  .object
    [("!not", .object
      [("foo", .array
        [.object [("equals", .string "!not"), ("!not", .object [("bar", .object
          [("!not", .object [("lessThan", .string "b")])])])],
         .object [("!not", .object [("equals", .null)])]])]),
     ("bar", .object [("!not", .array [.object [("!not", .object [("equals", .array [])])]])]),
     ("equals", .object [("!not", .string "!not")])]

theorem compilePredicate_renameKey_negations :
    "!not" ≠ "" ∧ "$not" ≠ "" ∧ "$not" ∉ negations.keys ∧
    (comparing.withNegationKey "$not" (by decide)).compilePredicate
        (.ofJson (negations.renameKey "!not" "$not")) =
      (comparing.withNegationKey "!not" (by decide)).compilePredicate (.ofJson negations) ∧
    ∃ p, ((comparing.withNegationKey "!not" (by decide)).compilePredicate
      (.ofJson negations)).result = .ok p := by
  have hfresh : "$not" ∉ negations.keys := by decide
  exact ⟨by decide, by decide, hfresh,
    compilePredicate_renameKey comparing (by decide) (by decide) hfresh,
    Traced.exists_result_eq_ok (by decide)⟩

end Compiler

end Criteria
