import Criteria.Compiler
import Criteria.Proofs.Operator.Results
import Criteria.Proofs.Plan.Basic

/-!
# Compiling is realizing a plan

Compiling a query comes down to three steps: read it, ask for the expressions of
its requests in order, assemble them.  The first and the last cannot fail, and
only the last looks at whether factoring is switched on.

* `Compilation.realizes`: compiling realizes the query's plan, up to the events
  other than generator runs.
* `Compilation.result_run_eq_ok_iff`: when it gives a result, and which.
* `Compilation.filter_events_run`: the generators that it runs.
* `Compiler.evaluate_eq_plan`: a predicate says what the plan says.
-/

namespace Criteria

/-! ## Generator runs -/

/-- Whether an operator's generator is run. -/
def Event.isCall : Event → Bool
  | .resolving _ _ => true
  | _ => false

namespace Traced

variable {α β : Type}

/-- The computation with no events but generator runs. -/
def callsOnly (x : Traced α) : Traced α := ⟨x.events.filter Event.isCall, x.result⟩

@[simp] theorem result_callsOnly (x : Traced α) : x.callsOnly.result = x.result := rfl

@[simp] theorem callsOnly_pure (a : α) : callsOnly (pure a) = pure a := rfl

@[simp] theorem callsOnly_bind (x : Traced α) (f : α → Traced β) :
    callsOnly (x >>= f) = callsOnly x >>= fun a => callsOnly (f a) := by
  rcases x with ⟨events, result⟩
  cases result with
  | ok a =>
      have hcalls : (callsOnly ⟨events, .ok a⟩).result = .ok a := rfl
      rw [bind_of_ok f rfl, bind_of_ok _ hcalls]
      simp [callsOnly]
  | error e => rfl

@[simp] theorem callsOnly_map (f : α → β) (x : Traced α) :
    callsOnly (f <$> x) = f <$> callsOnly x := by
  rw [map_eq_pure_bind, callsOnly_bind, map_eq_pure_bind]
  rfl

/-- Results in sequence. -/
theorem result_bind_eq_ok_iff {x : Traced α} {f : α → Traced β} {b : β} :
    (x >>= f).result = .ok b ↔ ∃ a, x.result = .ok a ∧ (f a).result = .ok b := by
  cases h : x.result with
  | ok a => simp [bind_of_ok f h]
  | error e => simp [bind_of_error f h]

theorem exists_result_eq_ok {x : Traced α} (h : x.result.toBool = true) :
    ∃ a, x.result = .ok a := by
  cases hx : x.result with
  | ok a => exact ⟨a, rfl⟩
  | error e =>
      rw [hx] at h
      exact nomatch h

theorem result_bind_pure (x : Traced α) (f : α → β) :
    (x >>= fun a => pure (f a)).result = x.result.map f := by
  cases h : x.result with
  | ok a =>
      rw [bind_of_ok _ h]
      rfl
  | error e =>
      rw [bind_of_error _ h]
      rfl

end Traced

namespace Compilation

variable (c : Compilation)

/-! ## Realizing a plan -/

/-- The generator runs for a request, and its expression. -/
def answerTo (r : Request) : Traced Expr :=
  (c.resolve r.operator r.argument r.field r.enclosing).callsOnly

/-- The expression of a request; it matters only where there is one. -/
def answer (r : Request) : Expr :=
  match (c.answerTo r).result with
  | .ok e => e
  | .error _ => default

/-- The generator runs for a request. -/
def ask (r : Request) : Traced Unit := (fun _ => ()) <$> c.answerTo r

/-- The requests of a plan in order, then its expression. -/
def realize (scope : Scope) (p : Plan) : Traced (Option Expr) := do
  forM (p.requests scope) c.ask
  pure (p.assemble c.options.optimize c.answer scope)

/-- The requests of several plans in order, then their expressions. -/
def realizeAll (scope : Scope) (parts : List Plan) : Traced (List Expr) := do
  forM (Plan.requestsOfAll scope parts) c.ask
  pure (Plan.assembleAll c.options.optimize c.answer scope parts)

variable {c}

/-- Asking for a request and going on with its answer is one computation. -/
theorem ask_bind_answer {α : Type} (r : Request) (f : Expr → α) :
    (c.ask r >>= fun _ => pure (f (c.answer r))) = f <$> c.answerTo r := by
  simp only [ask, map_eq_pure_bind, bind_assoc, pure_bind]
  cases h : (c.answerTo r).result with
  | ok e => rw [Traced.bind_of_ok _ h, Traced.bind_of_ok _ h, answer, h]
  | error e => rw [Traced.bind_of_error _ h, Traced.bind_of_error _ h]

theorem realize_bare (scope : Scope) (operator : String) (argument : Query) :
    c.realize scope (.bare operator argument) =
      some <$> c.answerTo ⟨operator, argument, none, scope⟩ := by
  rw [← ask_bind_answer, realize, Plan.requests, List.forM_cons, List.forM_nil, bind_assoc]
  simp only [pure_bind]
  rfl

theorem realize_onField (scope : Scope) (field operator : String) (argument : Query) :
    c.realize scope (.onField field operator argument) =
      some <$> fieldTest scope <$> c.answerTo ⟨operator, argument, some field, scope⟩ := by
  rw [← ask_bind_answer, realize, Plan.requests, List.forM_cons, List.forM_nil, bind_assoc,
    map_bind]
  simp only [pure_bind, map_pure]
  rfl

theorem realize_within (scope : Scope) (field : String) (inner : Plan) :
    c.realize scope (.within field inner) =
      Option.map (guarded scope (scope.child field)) <$> c.realize (scope.child field) inner := by
  rw [realize, realize, map_bind]
  rfl

theorem realize_negated (scope : Scope) (inner : Plan) :
    c.realize scope (.negated inner) = Option.map .not <$> c.realize scope inner := by
  rw [realize, realize, map_bind]
  rfl

theorem realize_joined (scope : Scope) (connective : Connective) (parts : List Plan) :
    c.realize scope (.joined connective parts) = (do
      let fragments ← c.realizeAll scope parts
      pure (Plan.join c.options.optimize connective fragments)) := by
  rw [realize, realizeAll, bind_assoc]
  rfl

theorem realizeAll_cons (scope : Scope) (p : Plan) (rest : List Plan) :
    c.realizeAll scope (p :: rest) = (do
      let fragment ← c.realize scope p
      let fragments ← c.realizeAll scope rest
      pure (fragment.toList ++ fragments)) := by
  simp only [realize, realizeAll, Plan.requestsOfAll, List.forM_append, bind_assoc, pure_bind]
  rfl

/-! ## Compiling -/

theorem callsOnly_join (connective : Connective) (fragments : List Expr) :
    (c.join connective fragments).callsOnly =
      pure (Plan.join c.options.optimize connective fragments) := by
  unfold join Plan.join
  split
  · rfl
  · rfl

theorem realize_nothing (scope : Scope) : c.realize scope (.joined .and []) = pure none := by
  rw [realize_joined]
  change pure (Plan.join _ _ []) = _
  rw [Plan.join_nil]

/-- One more fragment in front of those of the rest, on both sides. -/
theorem callsOnly_cons {scope : Scope} {p : Plan} {rest : List Plan} {x : Traced (Option Expr)}
    {y : Traced (List Expr)} (hx : x.callsOnly = c.realize scope p)
    (hy : y.callsOnly = c.realizeAll scope rest) :
    Traced.callsOnly (do
      let fragment ← x
      let fragments ← y
      pure (fragment.toList ++ fragments)) = c.realizeAll scope (p :: rest) := by
  simp only [realizeAll_cons, Traced.callsOnly_bind, Traced.callsOnly_pure, hx, hy]

/-- A join of fragments, on both sides. -/
theorem callsOnly_bind_join {scope : Scope} {connective : Connective} {parts : List Plan}
    {y : Traced (List Expr)} (hy : y.callsOnly = c.realizeAll scope parts) :
    Traced.callsOnly (do
      let fragments ← y
      c.join connective fragments) = c.realize scope (.joined connective parts) := by
  simp only [realize_joined, Traced.callsOnly_bind, callsOnly_join, hy]

/-- What is said of a query: read at a scope, and as the value of a name, it is
compiled by realizing its plan. -/
def Realizes (c : Compilation) (q : Query) : Prop :=
  (∀ scope, (query c scope q).callsOnly = c.realize scope (q.plan c.options.negationKey)) ∧
    ∀ scope name, (property c scope name q).callsOnly =
      c.realize scope (q.planUnder c.options.negationKey name)

theorem callsOnly_queryBranches {branches : List Query} (h : ∀ q ∈ branches, c.Realizes q)
    (scope : Scope) :
    (queryBranches c scope branches).callsOnly =
      c.realizeAll scope (Query.planBranches c.options.negationKey branches) := by
  induction branches with
  | nil => rfl
  | cons q rest ih =>
      exact callsOnly_cons ((h q List.mem_cons_self).1 scope)
        (ih fun q hq => h q (List.mem_cons_of_mem _ hq))

theorem callsOnly_propertyBranches {branches : List Query} (h : ∀ q ∈ branches, c.Realizes q)
    (scope : Scope) (name : String) :
    (propertyBranches c scope name branches).callsOnly =
      c.realizeAll scope (Query.planBranchesUnder c.options.negationKey name branches) := by
  induction branches with
  | nil => rfl
  | cons q rest ih =>
      exact callsOnly_cons ((h q List.mem_cons_self).2 scope name)
        (ih fun q hq => h q (List.mem_cons_of_mem _ hq))

theorem callsOnly_queryEntries {entries : List (String × Query)}
    (h : ∀ entry ∈ entries, c.Realizes entry.2) (scope : Scope) :
    (queryEntries c scope entries).callsOnly =
      c.realizeAll scope (Query.planEntries c.options.negationKey entries) := by
  induction entries with
  | nil => rfl
  | cons entry rest ih =>
      obtain ⟨key, q⟩ := entry
      obtain ⟨hquery, hproperty⟩ := h (key, q) List.mem_cons_self
      refine callsOnly_cons ?_ (ih fun entry he => h entry (List.mem_cons_of_mem _ he))
      rw [negates]
      split
      · rw [realize_negated, Traced.callsOnly_map, hquery]
      · exact hproperty scope key

theorem callsOnly_propertyEntries {entries : List (String × Query)}
    (h : ∀ entry ∈ entries, c.Realizes entry.2) (scope : Scope) (name : String) :
    (propertyEntries c scope name entries).callsOnly =
      c.realizeAll scope (Query.planEntriesUnder c.options.negationKey name entries) := by
  induction entries with
  | nil => rfl
  | cons entry rest ih =>
      obtain ⟨key, q⟩ := entry
      have hproperty := (h (key, q) List.mem_cons_self).2
      refine callsOnly_cons ?_ (ih fun entry he => h entry (List.mem_cons_of_mem _ he))
      rw [negates]
      split
      · rw [realize_negated, Traced.callsOnly_map, hproperty]
      · split
        · rw [realize_within, Traced.callsOnly_map, hproperty]
        · rw [realize_onField, Traced.callsOnly_map, Traced.callsOnly_map]
          rfl

/-- Compiling realizes plans. -/
theorem realizes (c : Compilation) (q : Query) : c.Realizes q := by
  induction q with
  | any branches ih =>
      constructor
      · intro scope
        exact callsOnly_bind_join (callsOnly_queryBranches ih scope)
      · intro scope name
        exact callsOnly_bind_join (callsOnly_propertyBranches ih scope name)
  | all entries ih =>
      constructor
      · intro scope
        exact callsOnly_bind_join (callsOnly_queryEntries ih scope)
      · intro scope name
        exact callsOnly_bind_join (callsOnly_propertyEntries ih scope name)
  | scalar value =>
      constructor
      · intro scope
        exact (realize_nothing scope).symm
      · intro scope name
        rw [property, Query.planUnder, realize_bare, Traced.callsOnly_map]
        rfl
  | pattern p =>
      constructor
      · intro scope
        exact (realize_nothing scope).symm
      · intro scope name
        rw [property, Query.planUnder, realize_bare, Traced.callsOnly_map]
        rfl

/-- The scope that a query is compiled at. -/
def root (c : Compilation) : Scope := Scope.ofRoot c.options.entryName

/-- The plan of a query. -/
def plan (c : Compilation) (q : Query) : Plan := q.plan c.options.negationKey

/-- Compiling a whole query realizes its plan. -/
theorem callsOnly_run (c : Compilation) (q : Query) :
    (c.run q).callsOnly = c.realize c.root (c.plan q) := by
  rw [run, Traced.callsOnly_bind]
  simp only [Traced.callsOnly_bind, (realizes c q).1]
  change (pure () >>= fun _ => c.realize _ _ >>= fun e => pure () >>= fun _ => pure e) = _
  simp only [pure_bind, bind_pure]
  rfl

/-! ## Results -/

theorem answer_of_result_eq_ok {r : Request} {e : Expr} (h : (c.answerTo r).result = .ok e) :
    c.answer r = e := by
  rw [answer, h]

/-- Asking succeeds when every request has an expression. -/
theorem result_forM_ask_eq_ok_iff {requests : List Request} :
    (forM requests c.ask).result = .ok () ↔
      ∀ r ∈ requests, (c.answerTo r).result = .ok (c.answer r) := by
  induction requests with
  | nil => simp
  | cons r rest ih =>
      rw [List.forM_cons, List.forall_mem_cons, ← ih, Traced.result_bind_eq_ok_iff]
      simp only [ask, map_eq_pure_bind, Traced.result_bind_eq_ok_iff]
      constructor
      · rintro ⟨_, ⟨e, he, -⟩, hrest⟩
        exact ⟨by rw [he, answer_of_result_eq_ok he], hrest⟩
      · rintro ⟨he, hrest⟩
        exact ⟨(), ⟨c.answer r, he, rfl⟩, hrest⟩

/-- The result of a whole query: the first error of a request, or the assembled
plan. -/
theorem result_run (c : Compilation) (q : Query) :
    (c.run q).result =
      (forM ((c.plan q).requests c.root) c.ask).result.map fun _ =>
        (c.plan q).assemble c.options.optimize c.answer c.root := by
  rw [← Traced.result_callsOnly, callsOnly_run, realize, Traced.result_bind_pure]

/-- A whole query is compiled when its requests have expressions. -/
theorem result_run_eq_ok_iff {q : Query} {expr : Option Expr} :
    (c.run q).result = .ok expr ↔
      (∀ r ∈ (c.plan q).requests c.root,
        (c.answerTo r).result = .ok (c.answer r)) ∧
      (c.plan q).assemble c.options.optimize c.answer c.root = expr := by
  rw [result_run, ← result_forM_ask_eq_ok_iff]
  cases h : (forM ((c.plan q).requests c.root) c.ask).result with
  | ok u => simp [Except.map]
  | error e => simp [Except.map]

/-- Requests are made below the entry name. -/
theorem enclosing_of_mem_requests {q : Query} {r : Request}
    (hr : r ∈ (c.plan q).requests c.root) :
    r.enclosing = ⟨c.options.entryName, r.enclosing.keys⟩ := by
  have hroot : r.enclosing.root = c.options.entryName := Plan.root_of_mem_requests hr
  rw [← hroot]

/-- The expression of a request is given below the entry name. -/
theorem resolve_of_mem_requests {q : Query} {r : Request}
    (hr : r ∈ (c.plan q).requests c.root) (h : (c.answerTo r).result = .ok (c.answer r)) :
    (c.dictionary.resolve c.options.maxDepth.toNat r.operator r.argument r.field
      ⟨c.options.entryName, r.enclosing.keys⟩).result = .ok (c.answer r) :=
  enclosing_of_mem_requests hr ▸ h

/-- The expression of a request fits the tests that the dictionary makes below the
entry name. -/
theorem fit_answer {q : Query} {r : Request} (hr : r ∈ (c.plan q).requests c.root)
    (h : (c.answerTo r).result = .ok (c.answer r)) :
    (c.answer r).Fit
      (c.dictionary.MakesUnder c.options.maxDepth.toNat c.options.entryName) := by
  refine ⟨fun t ht => ⟨_, _, _, _, _, resolve_of_mem_requests hr h, ht⟩, fun hnil => ?_⟩
  have hempty : (c.answer r).isEmpty = false := Dictionary.isEmpty_of_resolve h
  rw [Expr.isEmpty_iff_atoms_eq_nil.mpr hnil] at hempty
  exact nomatch hempty

/-- The expression of a request to a local dictionary looks at the value under test. -/
theorem at_answer
    (hlocal : c.dictionary.Local c.options.maxDepth.toNat c.options.entryName) {q : Query}
    {r : Request} (hr : r ∈ (c.plan q).requests c.root)
    (h : (c.answerTo r).result = .ok (c.answer r)) : (c.answer r).At r.site.scope := by
  rw [Request.site, enclosing_of_mem_requests hr]
  exact hlocal _ _ _ _ _ (resolve_of_mem_requests hr h)

/-! ## Events -/

theorem events_ask (r : Request) : (c.ask r).events = (c.answerTo r).events := by
  rw [ask, map_eq_pure_bind]
  cases h : (c.answerTo r).result with
  | ok e => rw [Traced.bind_of_ok _ h, Traced.events_pure, List.append_nil]
  | error e => rw [Traced.bind_of_error _ h]

/-- Asking runs the generators of one request after another, up to the first
error. -/
theorem events_forM_ask_induction {P : List Event → Prop} (nil : P [])
    (append : ∀ xs ys, P xs → P ys → P (xs ++ ys)) {requests : List Request}
    (h : ∀ r ∈ requests, P (c.answerTo r).events) : P (forM requests c.ask).events := by
  induction requests with
  | nil => exact nil
  | cons r rest ih =>
      have hr : P (c.ask r).events := events_ask r ▸ h r List.mem_cons_self
      have hrest := ih fun r hr => h r (List.mem_cons_of_mem _ hr)
      rw [List.forM_cons]
      cases hres : (c.ask r).result with
      | ok u =>
          rw [Traced.bind_of_ok _ hres]
          exact append _ _ hr hrest
      | error e =>
          rw [Traced.bind_of_error _ hres]
          exact hr

/-- The generator runs of a whole query are those of its requests. -/
theorem filter_events_run (c : Compilation) (q : Query) :
    (c.run q).events.filter Event.isCall =
      (forM ((c.plan q).requests c.root) c.ask).events := by
  change (c.run q).callsOnly.events = _
  rw [callsOnly_run, realize]
  cases h : (forM ((c.plan q).requests c.root) c.ask).result with
  | ok u => rw [Traced.bind_of_ok _ h, Traced.events_pure, List.append_nil]
  | error e => rw [Traced.bind_of_error _ h]

end Compilation

namespace Compiler

/-- The compilation that the compiler stands for. -/
def compilation (c : Compiler) : Compilation := ⟨c.dictionary, c.options⟩

/-- The result for a query: the first error of a request, or the assembled
plan. -/
theorem result_compilePredicate (c : Compiler) (q : Query) :
    (c.compilePredicate q).result =
      (forM ((c.compilation.plan q).requests c.compilation.root)
          c.compilation.ask).result.map fun _ =>
        ⟨(c.compilation.plan q).assemble c.options.optimize c.compilation.answer
          c.compilation.root, c.options.entryName⟩ := by
  rw [compilePredicate, Traced.result_bind_pure]
  change Except.map _ (c.compilation.run q).result = _
  rw [Compilation.result_run]
  cases (forM ((c.compilation.plan q).requests c.compilation.root)
    c.compilation.ask).result with
  | ok u => rfl
  | error e => rfl

/-- The predicate of a query is its assembled plan, once its requests have
expressions. -/
theorem result_compilePredicate_eq_ok_iff {c : Compiler} {q : Query} {p : Predicate} :
    (c.compilePredicate q).result = .ok p ↔
      (∀ r ∈ (c.compilation.plan q).requests c.compilation.root,
        (c.compilation.answerTo r).result = .ok (c.compilation.answer r)) ∧
      ⟨(c.compilation.plan q).assemble c.options.optimize c.compilation.answer
        c.compilation.root, c.options.entryName⟩ = p := by
  rw [result_compilePredicate, ← Compilation.result_forM_ask_eq_ok_iff]
  cases h : (forM ((c.compilation.plan q).requests c.compilation.root)
      c.compilation.ask).result with
  | ok u => simp [Except.map]
  | error e => simp [Except.map]

/-- A predicate says what the plan says: without factoring always, and with it where
tests are tame. -/
theorem evaluate_eq_plan {c : Compiler}
    (hT : c.options.optimize = true →
      Test.Tame (c.dictionary.MakesUnder c.options.maxDepth.toNat c.options.entryName))
    {q : Query} {p : Predicate} (h : (c.compilePredicate q).result = .ok p)
    (input : Option Json) (context : Context) :
    p.evaluate input context =
      (c.compilation.plan q).evaluate c.compilation.answer c.compilation.root input context := by
  obtain ⟨ha, rfl⟩ := result_compilePredicate_eq_ok_iff.mp h
  have hfit := fun r hr => Compilation.fit_answer hr (ha r hr)
  exact (Plan.realized hT hfit).evaluate_eq c.options.entryName input context

end Compiler

end Criteria
