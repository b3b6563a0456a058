import Criteria.Proofs.Interpreter
import Criteria.Proofs.Operator.Coherence
import Criteria.Proofs.Plan.Answers
import Criteria.Proofs.Vacuity

/-!
# Queries below a key

A mapping under a key asks of the value at the key what the mapping alone asks of its
input.  The guards add what a nested query takes for granted: the input is truthy, and
where an entry of the mapping goes deeper, the value at the key is a container.

* `Plan.eval_under`: a plan below a key means what it means at the key's value.
* `Query.Relocatable`: an entry that is read in the same way by itself and under a key.
* `Plan.holds_planEntryUnder`: one entry under a key and at the key's value.
* `Plan.holds_planUnder_all`: a mapping under a key and at the key's value.
* `Compiler.relocated_compilePredicate`: a nested query in terms of the query alone.
-/

namespace Criteria

/-! ## Plans below a key -/

/-- The request with its place below a key. -/
def Request.under (key : String) (r : Request) : Request :=
  { r with enclosing := r.enclosing.under key }

theorem Request.moved_under (key : String) (r : Request) :
    (r.under key).site.Moved key r.site := by
  obtain ⟨operator, argument, field, enclosing⟩ := r
  cases field with
  | none => exact ⟨rfl, rfl, rfl⟩
  | some field => exact ⟨rfl, rfl, rfl⟩

/-- The answers to two requests at places that differ by a key in front are related. -/
def Plan.MovedAnswers (key : String) (answer : Request → Expr) (requests : List Request) : Prop :=
  ∀ s ∈ requests, ∀ r : Request, r.site.Moved key s.site → r.argument = s.argument →
    (answer r).Moved key (answer s)

/-- A container is truthy. -/
theorem Json.truthy_of_isContainer {v : Option Json} (h : Interpreter.isContainer v = true) :
    Json.truthy v = true := by
  cases v with
  | none => exact absurd h Bool.false_ne_true
  | some v =>
      cases v with
      | object members => rfl
      | array items => rfl
      | _ => exact absurd h Bool.false_ne_true

namespace Plan

variable {answer : Request → Expr} {key : String} {input : Option Json} {context : Context}

/-- A plan below a key means what it means at the key's value. -/
theorem eval_under {p : Plan} {scope : Scope}
    (h : MovedAnswers key answer (p.requests scope)) :
    p.eval answer input (scope.under key) context =
      p.eval answer (input.bind (Json.child? key)) scope context := by
  induction p generalizing scope context with
  | bare operator argument =>
      exact (h _ List.mem_cons_self _ (Request.moved_under key _) rfl).eval input context
  | onField field operator argument =>
      have hmoved := h _ List.mem_cons_self _ (Request.moved_under key _) rfl
      rw [eval, eval, Scope.resolve_under]
      split
      · exact hmoved.eval input context
      · rfl
  | within field inner ih =>
      rw [eval, eval, Scope.child_under, Scope.resolve_under, Scope.resolve_under, ih h]
  | negated inner ih => rw [eval, eval, ih h]
  | joined c parts ih =>
      rw [eval, eval]
      induction parts generalizing context with
      | nil => rfl
      | cons p rest ih_rest =>
          have hp : MovedAnswers key answer (p.requests scope) := fun s hs =>
            h s (List.mem_append_left _ hs)
          have hrest : MovedAnswers key answer (requestsOfAll scope rest) := fun s hs =>
            h s (List.mem_append_right _ hs)
          rw [evalAll, evalAll, ih p List.mem_cons_self hp]
          split
          · exact ih_rest (fun q hq => ih q (List.mem_cons_of_mem _ hq)) hrest
          · split
            split
            · rfl
            · exact ih_rest (fun q hq => ih q (List.mem_cons_of_mem _ hq)) hrest

/-- Behind a guard, something holds where the guard does. -/
theorem fst_guarded_eq_true_iff {guard : Bool} {x : Bool × Context} :
    (if guard then x else (false, context)).1 = true ↔ guard = true ∧ x.1 = true := by
  cases guard with
  | true => exact (and_iff_right rfl).symm
  | false => exact iff_of_false Bool.false_ne_true fun h => Bool.false_ne_true h.1

/-- An operator on a field holds behind its guard. -/
theorem holds_onField {field operator : String} {argument : Query} {scope : Scope} :
    (onField field operator argument).holds answer input context scope = true ↔
      Json.truthy (scope.resolve input) = true ∧
      ((answer ⟨operator, argument, some field, scope⟩).eval input context).1 = true :=
  fst_guarded_eq_true_iff

/-- What is said of a field's value holds behind its guards. -/
theorem holds_within {field : String} {inner : Plan} {scope : Scope} :
    (within field inner).holds answer input context scope = true ↔
      Json.truthy (scope.resolve input) = true ∧
      Interpreter.isContainer ((scope.child field).resolve input) = true ∧
      inner.holds answer input context (scope.child field) = true := by
  rw [holds, eval, ← Json.truthy_and_isContainer, fst_guarded_eq_true_iff, Bool.and_eq_true,
    Bool.and_eq_true, and_assoc, and_iff_right_of_imp Json.truthy_of_isContainer]
  exact Iff.rfl

/-- A join of one part means what the part means. -/
theorem eval_joined_singleton {c : Connective} {p : Plan} {scope : Scope}
    (hv : p.isVacuous = false) :
    (joined c [p]).eval answer input scope context = p.eval answer input scope context := by
  rw [eval, evalAll, if_neg (by simp [hv])]
  obtain ⟨held, after⟩ := p.eval answer input scope context
  by_cases hd : held = c.decisive
  · exact if_pos hd
  · rw [Bool.eq_not_of_ne hd]
    exact if_neg (by simp)

/-- The value of a name that is neither a mapping nor a list is handed to the name. -/
theorem planUnder_eq_bare {negation name : String} {q : Query} (hflat : q.isNested = false)
    (hall : q ≠ .all []) (hany : q ≠ .any []) : q.planUnder negation name = .bare name q := by
  cases q with
  | all entries =>
      obtain rfl : entries = [] := by simpa [Query.isNested] using hflat
      exact absurd rfl hall
  | any branches =>
      obtain rfl : branches = [] := by simpa [Query.isNested] using hflat
      exact absurd rfl hany
  | scalar value => rfl
  | pattern p => rfl

end Plan

/-! ## Mappings below a key -/

/-- An entry that is read in the same way by itself and under a key. -/
structure Query.Relocatable (negation : String) (entry : String × Query) : Prop where
  /-- It is no negation, which would not open a field. -/
  name : entry.1 ≠ negation
  /-- Its value is no empty mapping, which is an argument under a key only. -/
  mapping : entry.2 ≠ .all []
  /-- Nor is it an empty list. -/
  list : entry.2 ≠ .any []

namespace Plan

section Entry

variable {negation : String} {entry : String × Query}

theorem planEntry_of_relocatable (h : Query.Relocatable negation entry) :
    Query.planEntry negation entry = Query.planUnder negation entry.1 entry.2 :=
  if_neg (by simpa using h.name)

theorem planEntryUnder_of_relocatable (h : Query.Relocatable negation entry) :
    Query.planEntryUnder negation key entry =
      if entry.2.isNested then .within key (Query.planUnder negation entry.1 entry.2)
      else .onField key entry.1 entry.2 :=
  if_neg (by simpa using h.name)

/-- An entry has a condition by itself when its value has one. -/
theorem isVacuous_planEntry (h : Query.Relocatable negation entry) :
    (Query.planEntry negation entry).isVacuous = entry.2.isVacuousUnder negation := by
  rw [planEntry_of_relocatable h]
  exact (Query.sameConditions negation entry.2).2 entry.1

/-- It has a condition under a key in the same case. -/
theorem isVacuous_planEntryUnder (h : Query.Relocatable negation entry) :
    (Query.planEntryUnder negation key entry).isVacuous = entry.2.isVacuousUnder negation := by
  rw [← isVacuous_planEntry h, planEntry_of_relocatable h, planEntryUnder_of_relocatable h]
  split
  · rfl
  · rename_i hflat
    rw [planUnder_eq_bare (Bool.eq_false_iff.mpr hflat) h.mapping h.list]
    rfl

/-- An entry holds under a key when the input is truthy, the entry holds at the key's
value, and that is a container if the entry goes deeper. -/
theorem holds_planEntryUnder (h : Query.Relocatable negation entry) {root : String}
    (hmoved : MovedAnswers key answer
      ((Query.planEntry negation entry).requests (Scope.ofRoot root))) :
    (Query.planEntryUnder negation key entry).holds answer input context (Scope.ofRoot root) =
        true ↔
      Json.truthy input = true ∧
      (entry.2.isNested = true →
        Interpreter.isContainer (input.bind (Json.child? key)) = true) ∧
      (Query.planEntry negation entry).holds answer (input.bind (Json.child? key)) context
        (Scope.ofRoot root) = true := by
  rw [planEntry_of_relocatable h] at hmoved ⊢
  rw [planEntryUnder_of_relocatable h]
  cases hnested : entry.2.isNested with
  | true =>
      have heval : (Query.planUnder negation entry.1 entry.2).eval answer input
          ((Scope.ofRoot root).child key) context = _ := eval_under hmoved
      rw [if_pos rfl, holds_within, holds, heval, forall_prop_of_true rfl]
      exact Iff.rfl
  | false =>
      rw [planUnder_eq_bare hnested h.mapping h.list] at hmoved ⊢
      have hanswer : (answer ⟨entry.1, entry.2, some key, Scope.ofRoot root⟩).Moved key
          (answer ⟨entry.1, entry.2, none, Scope.ofRoot root⟩) :=
        hmoved _ List.mem_cons_self _ ⟨rfl, rfl, rfl⟩ rfl
      rw [if_neg Bool.false_ne_true, holds_onField, hanswer.eval, holds, eval,
        and_iff_right fun h => absurd h Bool.false_ne_true]
      exact Iff.rfl

end Entry

end Plan

namespace Query

variable {negation : String} {entries : List (String × Query)}

theorem plan_all (entries : List (String × Query)) :
    (all entries).plan negation = .joined .and (entries.map (planEntry negation)) := by
  rw [plan, planEntries_eq_map]

theorem planUnder_all (key : String) (entries : List (String × Query)) :
    (all entries).planUnder negation key =
      .joined .and (entries.map (planEntryUnder negation key)) := by
  rw [planUnder, planEntriesUnder_eq_map]

/-- A mapping with one name says what is said under the name. -/
theorem plan_singleton {key : String} (hkey : key ≠ negation) (q : Query) :
    (all [(key, q)]).plan negation = .joined .and [q.planUnder negation key] := by
  rw [plan_all, List.map_singleton, planEntry, if_neg (by simpa using hkey)]

/-- A mapping has a condition when one of its values has, if its entries are read to
that effect. -/
theorem allVacuous_map {read : String × Query → Plan}
    (h : ∀ entry ∈ entries, (read entry).isVacuous = entry.2.isVacuousUnder negation) :
    Plan.allVacuous (entries.map read) =
      entries.all fun entry => entry.2.isVacuousUnder negation := by
  induction entries with
  | nil => rfl
  | cons entry rest ih =>
      rw [List.map_cons, Plan.allVacuous, List.all_cons, h entry List.mem_cons_self,
        ih fun entry he => h entry (List.mem_cons_of_mem _ he)]

/-- A mapping has a condition under a key when it has one by itself. -/
theorem isVacuous_planUnder_all (h : ∀ entry ∈ entries, Relocatable negation entry)
    (key : String) :
    ((all entries).planUnder negation key).isVacuous = ((all entries).plan negation).isVacuous := by
  rw [planUnder_all, plan_all, Plan.isVacuous, Plan.isVacuous,
    allVacuous_map fun entry he => Plan.isVacuous_planEntryUnder (h entry he),
    allVacuous_map fun entry he => Plan.isVacuous_planEntry (h entry he)]

/-- A mapping has a condition when one of its values has. -/
theorem isVacuous_plan_all_eq_false_iff (h : ∀ entry ∈ entries, Relocatable negation entry) :
    ((all entries).plan negation).isVacuous = false ↔
      ∃ entry ∈ entries, entry.2.isVacuousUnder negation = false := by
  rw [plan_all, Plan.isVacuous,
    allVacuous_map fun entry he => Plan.isVacuous_planEntry (h entry he), List.all_eq_false]
  simp only [Bool.not_eq_true]

end Query

/-- A mapping holds under a key when the input is truthy, the mapping holds at the key's
value, and that is a container if an entry with a condition goes deeper. -/
theorem Plan.holds_planUnder_all {T : Test → Prop} (hT : Test.Tame T) {negation root : String}
    {entries : List (String × Query)}
    (hentries : ∀ entry ∈ entries, Query.Relocatable negation entry)
    (hcondition : ∃ entry ∈ entries, entry.2.isVacuousUnder negation = false)
    {answer : Request → Expr} {key : String}
    (hunder : ∀ r ∈ ((Query.all entries).planUnder negation key).requests (.ofRoot root),
      (answer r).Over T)
    (hover : ∀ r ∈ ((Query.all entries).plan negation).requests (.ofRoot root), (answer r).Over T)
    (hmoved : MovedAnswers key answer
      (((Query.all entries).plan negation).requests (.ofRoot root)))
    (input : Option Json) (context : Context) :
    ((Query.all entries).planUnder negation key).holds answer input context (.ofRoot root) = true ↔
      Json.truthy input = true ∧
      ((∃ entry ∈ entries, entry.2.isNested = true ∧ entry.2.isVacuousUnder negation = false) →
        Interpreter.isContainer (input.bind (Json.child? key)) = true) ∧
      ((Query.all entries).plan negation).holds answer (input.bind (Json.child? key)) context
        (.ofRoot root) = true := by
  rw [Query.planUnder_all] at hunder
  rw [Query.plan_all] at hover hmoved
  have hentry : ∀ entry ∈ entries,
      (Query.planEntryUnder negation key entry).holds answer input context (.ofRoot root) = true ↔
        _ := fun entry hmem =>
    holds_planEntryUnder (hentries entry hmem) fun s hs =>
      hmoved s (mem_requestsOfAll.mpr ⟨_, List.mem_map_of_mem hmem, hs⟩)
  rw [Query.planUnder_all, Query.plan_all, holds_joined_and_iff hT hunder,
    holds_joined_and_iff hT hover, List.forall_mem_map, List.forall_mem_map]
  constructor
  · intro h
    have hheld : ∀ entry ∈ entries, entry.2.isVacuousUnder negation = false → _ :=
      fun entry hmem hv => (hentry entry hmem).mp <|
        h entry hmem <| (isVacuous_planEntryUnder (hentries entry hmem)).trans hv
    obtain ⟨first, hfirst, hv⟩ := hcondition
    refine ⟨(hheld first hfirst hv).1, ?_, fun entry hmem hv => ?_⟩
    · rintro ⟨entry, hmem, hnested, hv⟩
      exact (hheld entry hmem hv).2.1 hnested
    · rw [isVacuous_planEntry (hentries entry hmem)] at hv
      exact (hheld entry hmem hv).2.2
  · rintro ⟨htruthy, hcontainer, hholds⟩ entry hmem hv
    rw [isVacuous_planEntryUnder (hentries entry hmem)] at hv
    refine (hentry entry hmem).mpr ⟨htruthy, fun hnested => ?_, ?_⟩
    · exact hcontainer ⟨entry, hmem, hnested, hv⟩
    · exact hholds entry hmem ((isVacuous_planEntry (hentries entry hmem)).trans hv)

/-! ## Compiled mappings -/

/-- The answers of movable operators are moved along with their requests. -/
theorem Compilation.movedAnswers {c : Compilation} {key : String} {requests : List Request}
    (h : ∀ name g, c.dictionary.get? name = some g → g.Movable)
    (ha : ∀ r ∈ requests, (c.answerTo r).result = .ok (c.answer r)) :
    Plan.MovedAnswers key c.answer requests := by
  intro s hs r hsite hargument
  have hmatch : Matching (Expr.Moved key) (c.answerTo r).result (c.answerTo s).result := by
    rw [answerTo, hargument]
    exact Dictionary.matching_resolveWithin h _ hsite s.argument
  rw [ha s hs] at hmatch
  cases hr : (c.answerTo r).result with
  | ok e =>
      rw [hr] at hmatch
      rw [answer_of_result_eq_ok hr]
      exact hmatch
  | error error =>
      rw [hr] at hmatch
      exact hmatch.elim

namespace Compiler

/-- With tame tests, a predicate with a condition accepts what its plan holds of. -/
theorem fst_evaluate {c : Compiler}
    (hT : Test.Tame (c.dictionary.MakesUnder c.options.maxDepth.toNat c.options.entryName))
    {q : Query} {p : Predicate} (h : (c.compilePredicate q).result = .ok p)
    (hv : p.isVacuous = false) (input : Option Json) (context : Context) :
    (p.evaluate input context).1 =
      (c.compilation.plan q).holds c.compilation.answer input context c.compilation.root := by
  rw [isVacuous_eq_plan h] at hv
  rw [evaluate_eq_plan (fun _ => hT) h, Plan.evaluate, if_neg (by simp [hv]), Plan.holds]

/-- With stock operators other than `counter` that are coherent below the entry name, a
mapping under a key accepts an input when the input is truthy, the mapping alone accepts
the value at the key, and that is a container if an entry with a condition goes
deeper. -/
theorem relocated_compilePredicate (c : Compiler)
    (hstock : ∀ name g, c.dictionary.get? name = some g → g ∈ Stock.readOnly)
    (hcoherent :
      Test.Coherent (c.dictionary.MakesUnder c.options.maxDepth.toNat c.options.entryName))
    {key : String} (hkey : key ≠ c.options.negationKey) {entries : List (String × Query)}
    (hentries : ∀ entry ∈ entries, Query.Relocatable c.options.negationKey entry)
    {outer inner : Predicate}
    (houter : (c.compilePredicate (.all [(key, .all entries)])).result = .ok outer)
    (hinner : (c.compilePredicate (.all entries)).result = .ok inner)
    (hcondition : inner.isVacuous = false) (input : Option Json) (context : Context) :
    (outer.evaluate input context).1 = true ↔
      Json.truthy input = true ∧
      ((∃ entry ∈ entries,
          entry.2.isNested = true ∧ entry.2.isVacuousUnder c.options.negationKey = false) →
        Interpreter.isContainer (input.bind (Json.child? key)) = true) ∧
      (inner.evaluate (input.bind (Json.child? key)) context).1 = true := by
  have hT : Test.Tame
      (c.dictionary.MakesUnder c.options.maxDepth.toNat c.options.entryName) :=
    Dictionary.tame_of_coherent hstock hcoherent
  have hplan : c.compilation.plan (.all [(key, .all entries)]) =
      .joined .and [(Query.all entries).planUnder c.options.negationKey key] :=
    Query.plan_singleton hkey _
  -- The mapping has a condition by itself, and so it has one under the key.
  have hv : ((Query.all entries).plan c.options.negationKey).isVacuous = false :=
    (isVacuous_eq_plan hinner).symm.trans hcondition
  have hvUnder : ((Query.all entries).planUnder c.options.negationKey key).isVacuous = false :=
    (Query.isVacuous_planUnder_all hentries key).trans hv
  have hvOuter : outer.isVacuous = false := by
    rw [isVacuous_eq_plan houter, hplan, Plan.isVacuous, Plan.allVacuous, hvUnder]
    rfl
  -- The requests of both queries have expressions.
  have haOuter := (result_compilePredicate_eq_ok_iff.mp houter).1
  have haInner := (result_compilePredicate_eq_ok_iff.mp hinner).1
  have hmem : ∀ r ∈ ((Query.all entries).planUnder c.options.negationKey key).requests
      c.compilation.root, r ∈ (c.compilation.plan (.all [(key, .all entries)])).requests
        c.compilation.root := fun r hr => hplan ▸ List.mem_append_left _ hr
  rw [fst_evaluate hT houter hvOuter, fst_evaluate hT hinner hcondition, hplan, Plan.holds,
    Plan.eval_joined_singleton hvUnder]
  refine Plan.holds_planUnder_all hT hentries
    ((Query.isVacuous_plan_all_eq_false_iff hentries).mp hv) (fun r hr => ?_) (fun r hr => ?_) ?_
    input context
  · exact (Compilation.fit_answer (hmem r hr) (haOuter r (hmem r hr))).1
  · exact (Compilation.fit_answer hr (haInner r hr)).1
  · exact Compilation.movedAnswers (fun name g hget => Stock.movable (hstock name g hget)) haInner

/-! ## A mapping with shallow and deep entries -/

/-- A shallow entry, a deep one with alternatives and a negation, and one without any
condition. -/
def mixedEntries : List (String × Query) :=
  [("isSet", .scalar (.bool true)),
   ("b", .any [.all [("c", .all [("greaterThan", .scalar (.string "v"))])],
      .all [("!not", .all [("equals", .scalar (.string "w"))])]]),
   ("d", .any [.any []])]

theorem relocated_compilePredicate_mixedEntries :
    (∀ name g, swapped.dictionary.get? name = some g → g ∈ Stock.readOnly) ∧
    Test.Coherent (swapped.dictionary.MakesUnder swapped.options.maxDepth.toNat
      swapped.options.entryName) ∧
    "a" ≠ swapped.options.negationKey ∧
    (∀ entry ∈ mixedEntries, Query.Relocatable swapped.options.negationKey entry) ∧
    ∃ outer inner,
      (swapped.compilePredicate (.all [("a", .all mixedEntries)])).result = .ok outer ∧
      (swapped.compilePredicate (.all mixedEntries)).result = .ok inner ∧
      inner.isVacuous = false ∧
      ∀ input context, (outer.evaluate input context).1 = true ↔
        Json.truthy input = true ∧
        ((∃ entry ∈ mixedEntries, entry.2.isNested = true ∧
            entry.2.isVacuousUnder swapped.options.negationKey = false) →
          Interpreter.isContainer (input.bind (Json.child? "a")) = true) ∧
        (inner.evaluate (input.bind (Json.child? "a")) context).1 = true := by
  have hstock : ∀ name g, swapped.dictionary.get? name = some g → g ∈ Stock.readOnly :=
    fun _ _ => Stock.mem_readOnly_of_get?_swapped
  have hcoherent := (Stock.tame_swapped swapped.options.maxDepth.toNat).coherent
  have hentries : ∀ entry ∈ mixedEntries,
      Query.Relocatable swapped.options.negationKey entry := by
    intro entry he
    simp only [mixedEntries, List.mem_cons, List.not_mem_nil, or_false] at he
    rcases he with rfl | rfl | rfl
    · exact ⟨by decide, by simp, by simp⟩
    · exact ⟨by decide, by simp, by simp⟩
    · exact ⟨by decide, by simp, by simp⟩
  obtain ⟨outer, houter⟩ : ∃ outer,
      (swapped.compilePredicate (.all [("a", .all mixedEntries)])).result = .ok outer :=
    Traced.exists_result_eq_ok (by decide)
  obtain ⟨inner, hinner⟩ : ∃ inner,
      (swapped.compilePredicate (.all mixedEntries)).result = .ok inner :=
    Traced.exists_result_eq_ok (by decide)
  have hcondition : inner.isVacuous = false := by
    rw [isVacuous_eq_plan hinner]
    decide
  exact ⟨hstock, hcoherent, by decide, hentries, outer, inner, houter, hinner, hcondition,
    relocated_compilePredicate swapped hstock hcoherent (by decide) hentries houter hinner
      hcondition⟩

end Compiler

end Criteria
