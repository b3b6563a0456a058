import Criteria.Proofs.Operator.Coherence
import Criteria.Proofs.Plan.Answers
import Criteria.Proofs.Vacuity
import Mathlib.Logic.Relation

/-!
# Rearranged queries

The order in which a query lists the members of a mapping or the items of a list says
nothing about its meaning.  Another order asks the same operators at the same places,
and over tame tests a join has the same answer in any order.  Only the error that is
reported may differ when a query does not compile.

* `Json.Rearranges`, `Json.Rearranged`: one change of order somewhere in a value, and
  any number of them.
* `Plan.Interchangeable`: two plans with the same requests, up to order, and the same
  answers.
* `Query.interchangeable_of_rearranges`: one change of order in a query.
* `Compiler.rearranged_compilePredicate`: rearranged queries mean the same.
-/

namespace Criteria

/-! ## Rearranging values -/

namespace Json

/-- One change of order: the members of one object in the value, or the items of one
array. -/
inductive Rearranges : Json → Json → Prop where
  /-- The members of the value itself. -/
  | members {xs ys : List (String × Json)} (h : xs.Perm ys) : Rearranges (.object xs) (.object ys)
  /-- The items of the value itself. -/
  | items {xs ys : List Json} (h : xs.Perm ys) : Rearranges (.array xs) (.array ys)
  /-- Inside a member. -/
  | inMember (before : List (String × Json)) (key : String) {v w : Json}
      (after : List (String × Json)) (h : Rearranges v w) :
      Rearranges (.object (before ++ (key, v) :: after)) (.object (before ++ (key, w) :: after))
  /-- Inside an item. -/
  | inItem (before : List Json) {v w : Json} (after : List Json) (h : Rearranges v w) :
      Rearranges (.array (before ++ v :: after)) (.array (before ++ w :: after))

/-- Values that differ by changes of order only, at any number of places and at any
depth. -/
def Rearranged : Json → Json → Prop := Relation.ReflTransGen Rearranges

end Json

/-! ## Interchangeable plans -/

namespace Plan

/-- Two plans make the same requests, perhaps in another order, and over tame tests
they mean the same. -/
structure Interchangeable (p q : Plan) : Prop where
  /-- The requests, up to order. -/
  requests : ∀ scope, (p.requests scope).Perm (q.requests scope)
  /-- The meaning. -/
  eval : ∀ {T : Test → Prop}, Test.Tame T → ∀ {answer : Request → Expr} {scope : Scope},
    (∀ r ∈ p.requests scope, (answer r).Over T) → ∀ input context,
      p.eval answer input scope context = q.eval answer input scope context

namespace Interchangeable

variable {p q : Plan}

theorem refl (p : Plan) : p.Interchangeable p := ⟨fun _ => .refl _, fun _ _ _ _ _ _ => rfl⟩

theorem trans {r : Plan} (h : p.Interchangeable q) (h' : q.Interchangeable r) :
    p.Interchangeable r := by
  refine ⟨fun scope => (h.requests scope).trans (h'.requests scope), ?_⟩
  intro T hT answer scope ha input context
  have hq : ∀ r ∈ q.requests scope, (answer r).Over T := fun r hr =>
    ha r ((h.requests scope).mem_iff.mpr hr)
  rw [h.eval hT ha, h'.eval hT hq]

theorem isVacuous_eq (h : p.Interchangeable q) : p.isVacuous = q.isVacuous := by
  rw [Bool.eq_iff_iff, isVacuous_iff_requests_eq_nil (.ofRoot ""),
    isVacuous_iff_requests_eq_nil (.ofRoot "")]
  have hperm := h.requests (.ofRoot "")
  constructor
  · intro hnil
    exact (hnil ▸ hperm).nil_eq.symm
  · intro hnil
    exact (hnil ▸ hperm).eq_nil

theorem within (h : p.Interchangeable q) (field : String) :
    (Plan.within field p).Interchangeable (.within field q) := by
  refine ⟨fun scope => h.requests (scope.child field), ?_⟩
  intro T hT answer scope ha input context
  rw [Plan.eval, Plan.eval, h.eval hT ha]

theorem negated (h : p.Interchangeable q) : (Plan.negated p).Interchangeable (.negated q) := by
  refine ⟨h.requests, ?_⟩
  intro T hT answer scope ha input context
  rw [Plan.eval, Plan.eval, h.eval hT ha]

/-- The parts of a join in another order. -/
theorem joined_of_perm {parts parts' : List Plan} (h : parts.Perm parts') (c : Connective) :
    (Plan.joined c parts).Interchangeable (.joined c parts') := by
  have hrequests : ∀ scope, (requestsOfAll scope parts).Perm (requestsOfAll scope parts') := by
    intro scope
    rw [requestsOfAll_eq_flatMap, requestsOfAll_eq_flatMap]
    exact h.flatMap_right _
  refine ⟨hrequests, ?_⟩
  intro T hT answer scope ha input context
  have ha' : ∀ r ∈ requestsOfAll scope parts', (answer r).Over T := fun r hr =>
    ha r ((hrequests scope).mem_iff.mpr hr)
  rw [Plan.eval, Plan.eval, evalAll_of_over hT ha, evalAll_of_over hT ha',
    c.fold_perm ((h.filter _).map _)]

/-- One part of a join put in the place of another. -/
theorem joined_of_part (h : p.Interchangeable q) (c : Connective) (before after : List Plan) :
    (Plan.joined c (before ++ p :: after)).Interchangeable (.joined c (before ++ q :: after)) := by
  have hrequests : ∀ scope, (requestsOfAll scope (before ++ p :: after)).Perm
      (requestsOfAll scope (before ++ q :: after)) := by
    intro scope
    simp only [requestsOfAll_eq_flatMap, List.flatMap_append, List.flatMap_cons]
    exact ((h.requests scope).append_right _).append_left _
  refine ⟨hrequests, ?_⟩
  intro T hT answer scope ha input context
  have ha' : ∀ r ∈ requestsOfAll scope (before ++ q :: after), (answer r).Over T := fun r hr =>
    ha r ((hrequests scope).mem_iff.mpr hr)
  have hp : ∀ r ∈ p.requests scope, (answer r).Over T := fun r hr =>
    ha r (mem_requestsOfAll.mpr ⟨p, List.mem_append_right _ List.mem_cons_self, hr⟩)
  have hholds : p.holds answer input context scope = q.holds answer input context scope :=
    congrArg Prod.fst (h.eval hT hp input context)
  rw [Plan.eval, Plan.eval, evalAll_of_over hT ha, evalAll_of_over hT ha', List.filter_append,
    List.filter_append, List.filter_cons, List.filter_cons, h.isVacuous_eq]
  split
  · rw [List.map_append, List.map_append, List.map_cons, List.map_cons, hholds]
  · rfl

end Interchangeable

end Plan

/-! ## Interchangeable queries -/

namespace Query

variable {negation : String}

/-- Two queries may stand in for each other: at a scope, as the value of a name, and
as the argument of an operator. -/
structure Interchangeable (negation : String) (q r : Query) : Prop where
  /-- They open a deeper level both or neither. -/
  isNested : q.isNested = r.isNested
  /-- As arguments they are equal. -/
  argument : q.isNested = false → q = r
  /-- At a scope. -/
  plan : (q.plan negation).Interchangeable (r.plan negation)
  /-- As the value of a name. -/
  planUnder : ∀ name, (q.planUnder negation name).Interchangeable (r.planUnder negation name)

namespace Interchangeable

theorem refl (q : Query) : q.Interchangeable negation q :=
  ⟨rfl, fun _ => rfl, .refl _, fun _ => .refl _⟩

theorem trans {p q r : Query} (h : p.Interchangeable negation q)
    (h' : q.Interchangeable negation r) : p.Interchangeable negation r where
  isNested := h.isNested.trans h'.isNested
  argument hflat := (h.argument hflat).trans (h'.argument (h.isNested ▸ hflat))
  plan := h.plan.trans h'.plan
  planUnder name := (h.planUnder name).trans (h'.planUnder name)

/-- The entries of a mapping in another order. -/
theorem all_of_perm {xs ys : List (String × Query)} (h : xs.Perm ys) :
    (Query.all xs).Interchangeable negation (.all ys) where
  isNested := congrArg Bool.not h.isEmpty_eq
  argument hflat := by
    obtain rfl : xs = [] := by simpa [Query.isNested] using hflat
    rw [h.nil_eq]
  plan := by
    rw [Query.plan, Query.plan, planEntries_eq_map, planEntries_eq_map]
    exact .joined_of_perm (h.map _) .and
  planUnder name := by
    rw [Query.planUnder, Query.planUnder, planEntriesUnder_eq_map, planEntriesUnder_eq_map]
    exact .joined_of_perm (h.map _) .and

/-- The branches of a list in another order. -/
theorem any_of_perm {xs ys : List Query} (h : xs.Perm ys) :
    (Query.any xs).Interchangeable negation (.any ys) where
  isNested := congrArg Bool.not h.isEmpty_eq
  argument hflat := by
    obtain rfl : xs = [] := by simpa [Query.isNested] using hflat
    rw [h.nil_eq]
  plan := by
    rw [Query.plan, Query.plan, planBranches_eq_map, planBranches_eq_map]
    exact .joined_of_perm (h.map _) .or
  planUnder name := by
    rw [Query.planUnder, Query.planUnder, planBranchesUnder_eq_map, planBranchesUnder_eq_map]
    exact .joined_of_perm (h.map _) .or

variable {q r : Query}

theorem planEntry (h : q.Interchangeable negation r) (key : String) :
    (Query.planEntry negation (key, q)).Interchangeable (Query.planEntry negation (key, r)) := by
  unfold Query.planEntry
  split
  · exact h.plan.negated
  · exact h.planUnder key

theorem planEntryUnder (h : q.Interchangeable negation r) (name key : String) :
    (Query.planEntryUnder negation name (key, q)).Interchangeable
      (Query.planEntryUnder negation name (key, r)) := by
  unfold Query.planEntryUnder
  rw [← h.isNested]
  split
  · exact (h.planUnder name).negated
  · split
    · exact (h.planUnder key).within name
    · rename_i hflat
      rw [h.argument (Bool.eq_false_iff.mpr hflat)]
      exact .refl _

/-- The value of one entry put in the place of another. -/
theorem all_of_entry (h : q.Interchangeable negation r) (before : List (String × Query))
    (key : String) (after : List (String × Query)) :
    (Query.all (before ++ (key, q) :: after)).Interchangeable negation
      (.all (before ++ (key, r) :: after)) where
  isNested := by cases before <;> rfl
  argument hflat := by simp [Query.isNested] at hflat
  plan := by
    simp only [Query.plan, planEntries_eq_map, List.map_append, List.map_cons]
    exact (h.planEntry key).joined_of_part .and _ _
  planUnder name := by
    simp only [Query.planUnder, planEntriesUnder_eq_map, List.map_append, List.map_cons]
    exact (h.planEntryUnder name key).joined_of_part .and _ _

/-- One branch put in the place of another. -/
theorem any_of_branch (h : q.Interchangeable negation r) (before after : List Query) :
    (Query.any (before ++ q :: after)).Interchangeable negation
      (.any (before ++ r :: after)) where
  isNested := by cases before <;> rfl
  argument hflat := by simp [Query.isNested] at hflat
  plan := by
    simp only [Query.plan, planBranches_eq_map, List.map_append, List.map_cons]
    exact h.plan.joined_of_part .or _ _
  planUnder name := by
    simp only [Query.planUnder, planBranchesUnder_eq_map, List.map_append, List.map_cons]
    exact (h.planUnder name).joined_of_part .or _ _

end Interchangeable

theorem ofItems_eq_map (items : List Json) : ofItems items = items.map ofJson := by
  induction items with
  | nil => rfl
  | cons v rest ih => rw [ofItems, ih, List.map_cons]

theorem ofMembers_eq_map (members : List (String × Json)) :
    ofMembers members = members.map fun m => (m.1, ofJson m.2) := by
  induction members with
  | nil => rfl
  | cons m rest ih => rw [ofMembers, ih, List.map_cons]

/-- One change of order in a query. -/
theorem interchangeable_of_rearranges {v w : Json} (h : v.Rearranges w) :
    (ofJson v).Interchangeable negation (ofJson w) := by
  induction h with
  | members h =>
      rw [ofJson, ofJson, ofMembers_eq_map, ofMembers_eq_map]
      exact .all_of_perm (h.map _)
  | items h =>
      rw [ofJson, ofJson, ofItems_eq_map, ofItems_eq_map]
      exact .any_of_perm (h.map _)
  | inMember before key after _ ih =>
      simp only [ofJson, ofMembers_eq_map, List.map_append, List.map_cons]
      exact ih.all_of_entry _ key _
  | inItem before after _ ih =>
      simp only [ofJson, ofItems_eq_map, List.map_append, List.map_cons]
      exact ih.any_of_branch _ _

/-- Any number of changes of order in a query. -/
theorem interchangeable_of_rearranged {v w : Json} (h : v.Rearranged w) :
    (ofJson v).Interchangeable negation (ofJson w) := by
  induction h with
  | refl => exact .refl _
  | tail _ hstep ih => exact ih.trans (interchangeable_of_rearranges hstep)

end Query

namespace Compiler

/-- With tame tests below the entry name, queries that differ by changes of order only
both compile or neither does, are both vacuous or neither is, and give the same
answers. -/
theorem rearranged_compilePredicate (c : Compiler)
    (hT : Test.Tame (c.dictionary.MakesUnder c.options.maxDepth.toNat c.options.entryName))
    {v w : Json} (h : v.Rearranged w) :
    ((∃ p, (c.compilePredicate (.ofJson v)).result = .ok p) ↔
      ∃ p, (c.compilePredicate (.ofJson w)).result = .ok p) ∧
    ∀ p p', (c.compilePredicate (.ofJson v)).result = .ok p →
      (c.compilePredicate (.ofJson w)).result = .ok p' →
      p.isVacuous = p'.isVacuous ∧
        ∀ input context, p.evaluate input context = p'.evaluate input context := by
  have hplans : (c.compilation.plan (.ofJson v)).Interchangeable (c.compilation.plan (.ofJson w)) :=
    (Query.interchangeable_of_rearranged h).plan
  have hperm := hplans.requests c.compilation.root
  refine ⟨?_, fun p p' hp hp' => ?_⟩
  · simp only [result_compilePredicate_eq_ok_iff, exists_and_left, exists_eq', and_true]
    exact forall_congr' fun r => imp_congr_left hperm.mem_iff
  · obtain ⟨ha, -⟩ := result_compilePredicate_eq_ok_iff.mp hp
    refine ⟨?_, fun input context => ?_⟩
    · rw [isVacuous_eq_plan hp, isVacuous_eq_plan hp', hplans.isVacuous_eq]
    · rw [evaluate_eq_plan (fun _ => hT) hp, evaluate_eq_plan (fun _ => hT) hp', Plan.evaluate,
        Plan.evaluate, hplans.isVacuous_eq,
        hplans.eval hT fun r hr => (Compilation.fit_answer hr (ha r hr)).1]

/-- A field that equals a text. -/
def compared : String × Json := ("x", .object [("equals", .string "u")])

/-- A field that begins with one text and comes before another. -/
def bounded : String × Json :=
  ("y", .object [("beginsWith", .string "v"), ("lessThan", .string "w")])

/-- A field that is truthy. -/
def shown : String × Json := ("b", .object [("show", .null)])

/-- The first field, negated. -/
def notCompared : Json := .object [("!not", .object [compared])]

/-- Alternatives, of which the first negates and the second joins two fields, next to a
third field. -/
def alternatives : Json :=
  .object [("a", .array [notCompared, .object [compared, bounded]]), shown]

/-- The same in another order on every level. -/
def alternativesTurned : Json :=
  .object [shown, ("a", .array [.object [bounded, compared], notCompared])]

theorem rearranged_alternatives : alternatives.Rearranged alternativesTurned := by
  have hfields : alternatives.Rearranges
      (.object [("a", .array [notCompared, .object [bounded, compared]]), shown]) :=
    .inMember [] "a" [shown] (.inItem [notCompared] [] (.members (.swap _ _ _)))
  have hitems : Json.Rearranges
      (.object [("a", .array [notCompared, .object [bounded, compared]]), shown])
      (.object [("a", .array [.object [bounded, compared], notCompared]), shown]) :=
    .inMember [] "a" [shown] (.items (.swap _ _ _))
  have hmembers : Json.Rearranges
      (.object [("a", .array [.object [bounded, compared], notCompared]), shown])
      alternativesTurned :=
    .members (.swap _ _ _)
  exact ((Relation.ReflTransGen.single hfields).tail hitems).tail hmembers

theorem rearranged_compilePredicate_alternatives :
    Test.Tame (swapped.dictionary.MakesUnder swapped.options.maxDepth.toNat
      swapped.options.entryName) ∧
    alternatives.Rearranged alternativesTurned ∧
    ∃ p p', (swapped.compilePredicate (.ofJson alternatives)).result = .ok p ∧
      (swapped.compilePredicate (.ofJson alternativesTurned)).result = .ok p' ∧
      p.isVacuous = p'.isVacuous ∧
        ∀ input context, p.evaluate input context = p'.evaluate input context := by
  have hT := Stock.tame_swapped swapped.options.maxDepth.toNat
  obtain ⟨p, hp⟩ : ∃ p, (swapped.compilePredicate (.ofJson alternatives)).result = .ok p :=
    Traced.exists_result_eq_ok (by decide)
  obtain ⟨hcompile, hmean⟩ := rearranged_compilePredicate swapped hT rearranged_alternatives
  obtain ⟨p', hp'⟩ := hcompile.mp ⟨p, hp⟩
  exact ⟨hT, rearranged_alternatives, p, p', hp, hp', hmean p p' hp hp'⟩

end Compiler

end Criteria
