import Criteria.Proofs.Plan.Compiling

/-!
# Reading a query directly

A query can be answered without compiling it: walk it in order, ask an operator
whenever one is met, stop as soon as the answer is settled.  Without factoring,
the predicate of a query gives the same answers and leaves the same contexts.

* `Query.isVacuous`, `Query.isVacuousUnder`: whether a query has no condition.
* `Interpreter.evaluate`: the answer of a query on an input.
* `Interpreter.follows`: walking a query follows its plan.
* `Compiler.run_interpreter`: the predicate of a query answers as the interpreter
  does, whatever the tests do to the context.
-/

namespace Criteria

/-! ## Conditions in a query -/

namespace Query

mutual

/-- Whether a query has no condition at a scope: a value outside of all names is
none. -/
def isVacuous (negation : String) : Query → Bool
  | .any branches => areVacuous negation branches
  | .all entries => areVacuousEntries negation entries
  | .scalar _ | .pattern _ => true

/-- Whether no branch has a condition. -/
def areVacuous (negation : String) : List Query → Bool
  | [] => true
  | q :: rest => isVacuous negation q && areVacuous negation rest

/-- Whether no entry has a condition. -/
def areVacuousEntries (negation : String) : List (String × Query) → Bool
  | [] => true
  | (key, q) :: rest =>
    (if key == negation then isVacuous negation q else isVacuousUnder negation q)
      && areVacuousEntries negation rest

/-- Whether a query has no condition as the value of a name: an empty mapping or
list is one only under a further key. -/
def isVacuousUnder (negation : String) : Query → Bool
  | .any branches => areVacuousUnder negation branches
  | .all entries => areVacuousEntriesUnder negation entries
  | .scalar _ | .pattern _ => false

/-- Whether no branch has a condition as the value of a name. -/
def areVacuousUnder (negation : String) : List Query → Bool
  | [] => true
  | q :: rest => isVacuousUnder negation q && areVacuousUnder negation rest

/-- Whether no entry has a condition under a field. -/
def areVacuousEntriesUnder (negation : String) : List (String × Query) → Bool
  | [] => true
  | (key, q) :: rest =>
    (if key == negation then isVacuousUnder negation q
      else q.isNested && isVacuousUnder negation q)
      && areVacuousEntriesUnder negation rest

end

end Query

/-! ## The interpreter -/

/-- A computation that may change the context, and that an operator without a
condition stops. -/
abbrev Interpreter := StateT Context (Except CompileError)

namespace Interpreter

/-- Whether a value is an object or an array. -/
def isContainer : Option Json → Bool
  | some (.object _) | some (.array _) => true
  | _ => false

/-- One part, and then the rest unless the part settles the answer.  A part
without any condition is passed over. -/
def step (settles vacuous : Bool) (part rest : Interpreter Bool) : Interpreter Bool :=
  if vacuous then rest
  else do
    let holds ← part
    if holds = settles then pure holds else rest

/-- A part behind a guard. -/
def behind (guard : Bool) (part : Interpreter Bool) : Interpreter Bool :=
  if guard then part else pure false

section Walk

variable (c : Compilation) (input : Option Json)

/-- An operator's answer at a place. -/
def operator (key : String) (argument : Query) (field : Option String) (scope : Scope) :
    Interpreter Bool := fun context =>
  match (c.resolve key argument field scope).result with
  | .ok e => .ok (e.eval input context)
  | .error error => .error error

/-- Whether the field of a value can be entered: both are truthy, and the field is
an object or an array. -/
def canEnter (scope : Scope) (field : String) : Bool :=
  let inside := (scope.child field).resolve input
  Json.truthy (scope.resolve input) && (Json.truthy inside && isContainer inside)

mutual

/-- The answer of a query at a scope. -/
def query (scope : Scope) : Query → Interpreter Bool
  | .any branches => anyOf scope branches
  | .all entries => allOf scope entries
  | .scalar _ | .pattern _ => pure true

/-- Branches from left to right, up to the first that holds. -/
def anyOf (scope : Scope) : List Query → Interpreter Bool
  | [] => pure false
  | q :: rest =>
    step true (q.isVacuous c.options.negationKey) (query scope q) (anyOf scope rest)

/-- Entries from left to right, up to the first that fails. -/
def allOf (scope : Scope) : List (String × Query) → Interpreter Bool
  | [] => pure true
  | (key, q) :: rest =>
    if key == c.options.negationKey then
      step false (q.isVacuous c.options.negationKey) (Bool.not <$> query scope q)
        (allOf scope rest)
    else
      step false (q.isVacuousUnder c.options.negationKey) (value scope key q) (allOf scope rest)

/-- The answer of a query as the value of a name. -/
def value (scope : Scope) (name : String) : Query → Interpreter Bool
  | .any branches => anyValue scope name branches
  | .all entries => allUnder scope name entries
  | .scalar v => operator c input name (.scalar v) none scope
  | .pattern p => operator c input name (.pattern p) none scope

/-- Values of a name from left to right, up to the first that holds. -/
def anyValue (scope : Scope) (name : String) : List Query → Interpreter Bool
  | [] => pure false
  | q :: rest =>
    step true (q.isVacuousUnder c.options.negationKey) (value scope name q)
      (anyValue scope name rest)

/-- Entries under a field from left to right, up to the first that fails: what is
negated is read again as a value of the field, and a key with a mapping or list
below it is a name inside the field. -/
def allUnder (scope : Scope) (name : String) : List (String × Query) → Interpreter Bool
  | [] => pure true
  | (key, q) :: rest =>
    if key == c.options.negationKey then
      step false (q.isVacuousUnder c.options.negationKey) (Bool.not <$> value scope name q)
        (allUnder scope name rest)
    else if q.isNested then
      step false (q.isVacuousUnder c.options.negationKey)
        (behind (canEnter input scope name) (value (scope.child name) key q))
        (allUnder scope name rest)
    else
      step false false
        (behind (Json.truthy (scope.resolve input)) (operator c input key q (some name) scope))
        (allUnder scope name rest)

end

/-- The answer of a whole query; one without any condition holds. -/
def evaluate (q : Query) : Interpreter Bool :=
  if q.isVacuous c.options.negationKey then pure true
  else query c input (Scope.ofRoot c.options.entryName) q

end Walk

end Interpreter

/-! ## Conditions and requests -/

namespace Query

variable {negation : String}

/-- What is said of a query: read at a scope, and as the value of a name, it has
no condition when its plan makes no request. -/
def SameConditions (negation : String) (q : Query) : Prop :=
  (q.plan negation).isVacuous = q.isVacuous negation ∧
    ∀ name, (q.planUnder negation name).isVacuous = q.isVacuousUnder negation

theorem allVacuous_planBranches {branches : List Query}
    (h : ∀ q ∈ branches, q.SameConditions negation) :
    Plan.allVacuous (planBranches negation branches) = areVacuous negation branches := by
  induction branches with
  | nil => rfl
  | cons q rest ih =>
      rw [planBranches, Plan.allVacuous, areVacuous, (h q List.mem_cons_self).1,
        ih fun q hq => h q (List.mem_cons_of_mem _ hq)]

theorem allVacuous_planBranchesUnder {branches : List Query}
    (h : ∀ q ∈ branches, q.SameConditions negation) (name : String) :
    Plan.allVacuous (planBranchesUnder negation name branches) =
      areVacuousUnder negation branches := by
  induction branches with
  | nil => rfl
  | cons q rest ih =>
      rw [planBranchesUnder, Plan.allVacuous, areVacuousUnder, (h q List.mem_cons_self).2,
        ih fun q hq => h q (List.mem_cons_of_mem _ hq)]

theorem allVacuous_planEntries {entries : List (String × Query)}
    (h : ∀ entry ∈ entries, entry.2.SameConditions negation) :
    Plan.allVacuous (planEntries negation entries) = areVacuousEntries negation entries := by
  induction entries with
  | nil => rfl
  | cons entry rest ih =>
      obtain ⟨key, q⟩ := entry
      obtain ⟨hplan, hunder⟩ := h (key, q) List.mem_cons_self
      rw [planEntries, Plan.allVacuous, areVacuousEntries,
        ih fun entry he => h entry (List.mem_cons_of_mem _ he)]
      congr 1
      split
      · rw [Plan.isVacuous]
        exact hplan
      · exact hunder key

theorem allVacuous_planEntriesUnder {entries : List (String × Query)}
    (h : ∀ entry ∈ entries, entry.2.SameConditions negation) (name : String) :
    Plan.allVacuous (planEntriesUnder negation name entries) =
      areVacuousEntriesUnder negation entries := by
  induction entries with
  | nil => rfl
  | cons entry rest ih =>
      obtain ⟨key, q⟩ := entry
      have hunder := (h (key, q) List.mem_cons_self).2
      rw [planEntriesUnder, Plan.allVacuous, areVacuousEntriesUnder,
        ih fun entry he => h entry (List.mem_cons_of_mem _ he)]
      congr 1
      split
      · rw [Plan.isVacuous]
        exact hunder name
      · cases hq : q.isNested with
        | true =>
            rw [if_pos rfl, Plan.isVacuous, Bool.true_and]
            exact hunder key
        | false => rfl

/-- A query has no condition when its plan makes no request. -/
theorem sameConditions (negation : String) (q : Query) : q.SameConditions negation := by
  induction q with
  | any branches ih =>
      constructor
      · exact allVacuous_planBranches ih
      · exact allVacuous_planBranchesUnder ih
  | all entries ih =>
      constructor
      · exact allVacuous_planEntries ih
      · exact allVacuous_planEntriesUnder ih
  | scalar value => exact ⟨rfl, fun _ => rfl⟩
  | pattern p => exact ⟨rfl, fun _ => rfl⟩

end Query

/-! ## Following a plan -/

theorem Json.truthy_and_isContainer (v : Option Json) :
    (Json.truthy v && Interpreter.isContainer v) =
      (Json.truthy v && Json.typeOf v == "object") := by
  cases v with
  | none => rfl
  | some v => cases v <;> rfl

namespace Interpreter

variable {c : Compilation} {input : Option Json}

/-- A computation that no operator stops, with its answers and contexts. -/
def Returns (x : Interpreter Bool) (f : Context → Bool × Context) : Prop :=
  ∀ context, x.run context = .ok (f context)

theorem returns_pure (b : Bool) : Returns (pure b) fun context => (b, context) := fun _ => rfl

theorem Returns.not {x : Interpreter Bool} {f : Context → Bool × Context} (h : Returns x f) :
    Returns (Bool.not <$> x) fun context =>
      let (answer, after) := f context
      (!answer, after) := by
  intro context
  rw [StateT.run_map, h context]
  rfl

theorem Returns.behind {x : Interpreter Bool} {f : Context → Bool × Context} (h : Returns x f)
    (guard : Bool) :
    Returns (behind guard x) fun context => if guard then f context else (false, context) := by
  intro context
  cases guard with
  | true => exact h context
  | false => rfl

/-- A part in front of the rest of a join. -/
theorem Returns.step {connective : Connective} {answer : Request → Expr} {scope : Scope} {p : Plan}
    {parts : List Plan} {x rest : Interpreter Bool} {vacuous : Bool} (hv : p.isVacuous = vacuous)
    (hx : Returns x (p.eval answer input scope))
    (hrest : Returns rest (Plan.evalAll answer input connective scope parts)) :
    Returns (step connective.decisive vacuous x rest)
      (Plan.evalAll answer input connective scope (p :: parts)) := by
  intro context
  rw [Plan.evalAll, hv, Interpreter.step]
  cases vacuous with
  | true => exact hrest context
  | false =>
      rw [if_neg Bool.false_ne_true, if_neg Bool.false_ne_true, StateT.run_bind, hx context]
      rcases p.eval answer input scope context with ⟨holds, after⟩
      change StateT.run (if holds = connective.decisive then pure holds else rest) after =
        .ok (if holds = connective.decisive then (holds, after)
          else Plan.evalAll answer input connective scope parts after)
      split
      · rfl
      · exact hrest after

/-- All requests of a plan have expressions. -/
def Answered (c : Compilation) (requests : List Request) : Prop :=
  ∀ r ∈ requests, (c.answerTo r).result = .ok (c.answer r)

theorem Answered.of_append {xs ys : List Request} (h : Answered c (xs ++ ys)) :
    Answered c xs ∧ Answered c ys :=
  ⟨fun r hr => h r (List.mem_append_left _ hr), fun r hr => h r (List.mem_append_right _ hr)⟩

theorem Answered.returns_operator {r : Request} (h : Answered c [r]) :
    Returns (operator c input r.operator r.argument r.field r.enclosing)
      ((c.answer r).eval input) := by
  intro context
  have hr : (c.resolve r.operator r.argument r.field r.enclosing).result = .ok (c.answer r) :=
    h r List.mem_cons_self
  change (match (c.resolve r.operator r.argument r.field r.enclosing).result with
    | .ok e => _
    | .error error => _) = _
  rw [hr]

/-- What is said of a query: read at a scope, and as the value of a name, it is
walked as its plan says. -/
def Follows (c : Compilation) (input : Option Json) (q : Query) : Prop :=
  (∀ scope, Answered c ((q.plan c.options.negationKey).requests scope) →
    Returns (query c input scope q)
      ((q.plan c.options.negationKey).eval c.answer input scope)) ∧
  ∀ scope name, Answered c ((q.planUnder c.options.negationKey name).requests scope) →
    Returns (value c input scope name q)
      ((q.planUnder c.options.negationKey name).eval c.answer input scope)

theorem returns_anyOf {branches : List Query} (h : ∀ q ∈ branches, Follows c input q)
    {scope : Scope} (ha : Answered c
      (Plan.requestsOfAll scope (Query.planBranches c.options.negationKey branches))) :
    Returns (anyOf c input scope branches)
      (Plan.evalAll c.answer input .or scope
        (Query.planBranches c.options.negationKey branches)) := by
  induction branches with
  | nil => exact returns_pure false
  | cons q rest ih =>
      exact Returns.step (Query.sameConditions _ q).1
        ((h q List.mem_cons_self).1 scope ha.of_append.1)
        (ih (fun q hq => h q (List.mem_cons_of_mem _ hq)) ha.of_append.2)

theorem returns_anyValue {branches : List Query} (h : ∀ q ∈ branches, Follows c input q)
    {scope : Scope} {name : String} (ha : Answered c
      (Plan.requestsOfAll scope (Query.planBranchesUnder c.options.negationKey name branches))) :
    Returns (anyValue c input scope name branches)
      (Plan.evalAll c.answer input .or scope
        (Query.planBranchesUnder c.options.negationKey name branches)) := by
  induction branches with
  | nil => exact returns_pure false
  | cons q rest ih =>
      exact Returns.step ((Query.sameConditions _ q).2 name)
        ((h q List.mem_cons_self).2 scope name ha.of_append.1)
        (ih (fun q hq => h q (List.mem_cons_of_mem _ hq)) ha.of_append.2)

theorem returns_allOf {entries : List (String × Query)}
    (h : ∀ entry ∈ entries, Follows c input entry.2) {scope : Scope} (ha : Answered c
      (Plan.requestsOfAll scope (Query.planEntries c.options.negationKey entries))) :
    Returns (allOf c input scope entries)
      (Plan.evalAll c.answer input .and scope
        (Query.planEntries c.options.negationKey entries)) := by
  induction entries with
  | nil => exact returns_pure true
  | cons entry rest ih =>
      obtain ⟨key, q⟩ := entry
      obtain ⟨hquery, hvalue⟩ := h (key, q) List.mem_cons_self
      obtain ⟨hvacuous, hvacuousUnder⟩ := Query.sameConditions c.options.negationKey q
      have hrest := ih (fun entry he => h entry (List.mem_cons_of_mem _ he)) ha.of_append.2
      have hfirst := ha.of_append.1
      rw [allOf, Query.planEntries]
      split at hfirst
      · rename_i hkey
        rw [if_pos hkey, if_pos hkey]
        exact Returns.step (p := .negated _) hvacuous (hquery scope hfirst).not hrest
      · rename_i hkey
        rw [if_neg hkey, if_neg hkey]
        exact Returns.step (hvacuousUnder key) (hvalue scope key hfirst) hrest

theorem returns_allUnder {entries : List (String × Query)}
    (h : ∀ entry ∈ entries, Follows c input entry.2) {scope : Scope} {name : String}
    (ha : Answered c
      (Plan.requestsOfAll scope (Query.planEntriesUnder c.options.negationKey name entries))) :
    Returns (allUnder c input scope name entries)
      (Plan.evalAll c.answer input .and scope
        (Query.planEntriesUnder c.options.negationKey name entries)) := by
  induction entries with
  | nil => exact returns_pure true
  | cons entry rest ih =>
      obtain ⟨key, q⟩ := entry
      have hvalue := (h (key, q) List.mem_cons_self).2
      have hvacuous := (Query.sameConditions c.options.negationKey q).2
      have hrest := ih (fun entry he => h entry (List.mem_cons_of_mem _ he)) ha.of_append.2
      have hfirst := ha.of_append.1
      rw [allUnder, Query.planEntriesUnder]
      split at hfirst
      · rename_i hkey
        rw [if_pos hkey, if_pos hkey]
        exact Returns.step (p := .negated _) (hvacuous name) (hvalue scope name hfirst).not hrest
      · rename_i hkey
        rw [if_neg hkey, if_neg hkey]
        split at hfirst
        · rename_i hq
          rw [if_pos hq, if_pos hq, canEnter, Json.truthy_and_isContainer]
          exact Returns.step (p := .within name _) (hvacuous key)
            ((hvalue (scope.child name) key hfirst).behind _) hrest
        · rename_i hq
          rw [if_neg hq, if_neg hq]
          exact Returns.step (p := .onField name key q) rfl (hfirst.returns_operator.behind _) hrest

/-- Walking a query follows its plan. -/
theorem follows (c : Compilation) (input : Option Json) (q : Query) : Follows c input q := by
  induction q with
  | any branches ih =>
      constructor
      · intro scope ha
        exact returns_anyOf ih ha
      · intro scope name ha
        exact returns_anyValue ih ha
  | all entries ih =>
      constructor
      · intro scope ha
        exact returns_allOf ih ha
      · intro scope name ha
        exact returns_allUnder ih ha
  | scalar value =>
      constructor
      · intro scope _
        exact returns_pure true
      · intro scope name ha
        exact ha.returns_operator
  | pattern p =>
      constructor
      · intro scope _
        exact returns_pure true
      · intro scope name ha
        exact ha.returns_operator

/-- The interpreter's answer on a query whose requests have expressions. -/
theorem run_evaluate {q : Query} (ha : Answered c ((c.plan q).requests c.root))
    (context : Context) :
    (evaluate c input q).run context =
      .ok ((c.plan q).evaluate c.answer c.root input context) := by
  rw [evaluate, Plan.evaluate, ← (Query.sameConditions c.options.negationKey q).1]
  change StateT.run (if (c.plan q).isVacuous = true then _ else _) context = _
  split
  · rfl
  · exact (follows c input q).1 c.root ha context

end Interpreter

namespace Compiler

/-- Without factoring, a predicate answers as the interpreter does and leaves the
same context, whatever the tests do to it. -/
theorem run_interpreter (c : Compiler) (hoff : c.options.optimize = false) {q : Query}
    {p : Predicate} (h : (c.compilePredicate q).result = .ok p) (input : Option Json)
    (context : Context) :
    (Interpreter.evaluate c.compilation input q).run context =
      .ok (p.evaluate input context) := by
  obtain ⟨ha, rfl⟩ := result_compilePredicate_eq_ok_iff.mp h
  have hT : c.options.optimize = true →
      Test.Tame (c.dictionary.MakesUnder c.options.maxDepth.toNat c.options.entryName) :=
    fun hon => nomatch hoff.symm.trans hon
  have hfit := fun r hr => Compilation.fit_answer hr (ha r hr)
  rw [Interpreter.run_evaluate ha, (Plan.realized hT hfit).evaluate_eq]

/-- A compiler for operators that count their evaluations, without factoring. -/
def counting : Compiler := ⟨Stock.runtime, { Options.standard with optimize := false }, by decide⟩

/-- Counts on both sides of a negation under a field, with an alternative one level
deeper, parts without conditions, and a variable asked for after them. -/
def interleavedCounts : Query := .ofJson (.object
  [("a", .array
    [.object [("_", .null), ("!not", .object [("_", .null)])],
     .object [("b", .object [("_", .null)]), ("c", .object [("d", .array [.object []])])]]),
   ("!not", .object [("_", .null), ("a", .object [])]),
   ("e", .object [("var", .string "foo")])])

theorem run_interpreter_interleavedCounts :
    counting.options.optimize = false ∧
    ∃ p, (counting.compilePredicate interleavedCounts).result = .ok p ∧
      ∀ input context,
        (Interpreter.evaluate counting.compilation input interleavedCounts).run context =
          .ok (p.evaluate input context) := by
  obtain ⟨p, hp⟩ : ∃ p, (counting.compilePredicate interleavedCounts).result = .ok p :=
    Traced.exists_result_eq_ok (by decide)
  exact ⟨rfl, p, hp, run_interpreter counting rfl hp⟩

end Compiler

end Criteria
