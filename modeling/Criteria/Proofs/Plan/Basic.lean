import Criteria.Compile
import Criteria.Predicate
import Criteria.Proofs.Expr.Factoring

/-!
# Plans

What a query asks for, once every key is read as a field, an operator or the
negation.  A plan knows nothing of dictionaries and options: reading a query
gives the same plan whatever its operators do.

* `Query.plan`, `Query.planUnder`: a query read at a scope, or as the value of a
  name.
* `Plan.requests`: the operators it applies, in order, each with its place.
* `Plan.assemble`: its expression, once the requests are answered.
* `Plan.stable_of_assemble`: a stable property of the answers holds of the expression.
* `Plan.assemble_eq_none_iff`: only a plan that makes no request has no expression.
* `Plan.eval`: what it means.
* `Plan.realized`: the expression means what the plan means.
-/

namespace Criteria

/-- An operator that is applied to an argument at a place. -/
structure Request where
  /-- The name of the operator. -/
  operator : String
  /-- What it is applied to. -/
  argument : Query
  /-- The field it is written under, if it is. -/
  field : Option String
  /-- The scope around it. -/
  enclosing : Scope

/-- The place of a request. -/
def Request.site (r : Request) : Site := ⟨r.operator, r.enclosing, r.field, 0⟩

/-- A query with its keys read. -/
inductive Plan where
  /-- An operator on the value at the scope itself. -/
  | bare (operator : String) (argument : Query)
  /-- An operator on a field of the value at the scope. -/
  | onField (field operator : String) (argument : Query)
  /-- A plan for a field that has something below it. -/
  | within (field : String) (inner : Plan)
  /-- The opposite. -/
  | negated (inner : Plan)
  /-- Plans for the same scope, joined. -/
  | joined (connective : Connective) (parts : List Plan)

namespace Plan

/-- Structural induction, with the hypothesis for every part of a join. -/
@[elab_as_elim, induction_eliminator]
theorem induct {motive : Plan → Prop}
    (bare : ∀ operator argument, motive (.bare operator argument))
    (onField : ∀ field operator argument, motive (.onField field operator argument))
    (within : ∀ field inner, motive inner → motive (.within field inner))
    (negated : ∀ inner, motive inner → motive (.negated inner))
    (joined : ∀ c parts, (∀ p ∈ parts, motive p) → motive (.joined c parts)) (p : Plan) :
    motive p := by
  refine @Plan.rec motive (fun parts => ∀ p ∈ parts, motive p) bare onField within negated
    joined ?_ ?_ p
  · exact fun p h => absurd h List.not_mem_nil
  · intro first rest hfirst hrest p h
    rcases List.mem_cons.mp h with rfl | h
    · exact hfirst
    · exact hrest p h

end Plan

/-! ## Reading queries -/

namespace Query

/-- Structural induction, with the hypothesis for every value of a mapping and
every branch of a list. -/
@[elab_as_elim, induction_eliminator]
theorem induct {motive : Query → Prop}
    (all : ∀ entries, (∀ entry ∈ entries, motive entry.2) → motive (.all entries))
    (any : ∀ branches, (∀ q ∈ branches, motive q) → motive (.any branches))
    (scalar : ∀ value, motive (.scalar value)) (pattern : ∀ p, motive (.pattern p)) (q : Query) :
    motive q := by
  refine @Query.rec motive (fun entries => ∀ entry ∈ entries, motive entry.2)
    (fun branches => ∀ q ∈ branches, motive q) (fun entry => motive entry.2) all any scalar
    pattern ?_ ?_ ?_ ?_ (fun _ _ h => h) q
  · exact fun entry h => absurd h List.not_mem_nil
  · intro first rest hfirst hrest entry h
    rcases List.mem_cons.mp h with rfl | h
    · exact hfirst
    · exact hrest entry h
  · exact fun q h => absurd h List.not_mem_nil
  · intro first rest hfirst hrest q h
    rcases List.mem_cons.mp h with rfl | h
    · exact hfirst
    · exact hrest q h

mutual

/-- A query at a scope: the names in a mapping are fields or operators. -/
def plan (negation : String) : Query → Plan
  | .any branches => .joined .or (planBranches negation branches)
  | .all entries => .joined .and (planEntries negation entries)
  | .scalar _ | .pattern _ => .joined .and []

/-- Alternatives at a scope. -/
def planBranches (negation : String) : List Query → List Plan
  | [] => []
  | q :: rest => plan negation q :: planBranches negation rest

/-- Entries at a scope. -/
def planEntries (negation : String) : List (String × Query) → List Plan
  | [] => []
  | (key, q) :: rest =>
    (if key == negation then .negated (plan negation q) else planUnder negation key q)
      :: planEntries negation rest

/-- The value of a name: operators for the field, deeper fields, or the argument
of the name as operator. -/
def planUnder (negation name : String) : Query → Plan
  | .any branches => .joined .or (planBranchesUnder negation name branches)
  | .all entries => .joined .and (planEntriesUnder negation name entries)
  | .scalar value => .bare name (.scalar value)
  | .pattern p => .bare name (.pattern p)

/-- Alternative values of a name. -/
def planBranchesUnder (negation name : String) : List Query → List Plan
  | [] => []
  | q :: rest => planUnder negation name q :: planBranchesUnder negation name rest

/-- The entries under a field. -/
def planEntriesUnder (negation name : String) : List (String × Query) → List Plan
  | [] => []
  | (key, q) :: rest =>
    (if key == negation then .negated (planUnder negation name q)
      else if q.isNested then .within name (planUnder negation key q)
      else .onField name key q)
      :: planEntriesUnder negation name rest

end

section Maps

variable {negation : String}

theorem planBranches_eq_map (branches : List Query) :
    planBranches negation branches = branches.map (plan negation) := by
  induction branches with
  | nil => rfl
  | cons q rest ih => rw [planBranches, ih, List.map_cons]

theorem planBranchesUnder_eq_map (name : String) (branches : List Query) :
    planBranchesUnder negation name branches = branches.map (planUnder negation name) := by
  induction branches with
  | nil => rfl
  | cons q rest ih => rw [planBranchesUnder, ih, List.map_cons]

/-- The plan of one entry at a scope. -/
def planEntry (negation : String) (entry : String × Query) : Plan :=
  if entry.1 == negation then .negated (plan negation entry.2)
  else planUnder negation entry.1 entry.2

theorem planEntries_eq_map (entries : List (String × Query)) :
    planEntries negation entries = entries.map (planEntry negation) := by
  induction entries with
  | nil => rfl
  | cons entry rest ih =>
      rw [planEntries, ih, List.map_cons]
      rfl

/-- The plan of one entry under a field. -/
def planEntryUnder (negation name : String) (entry : String × Query) : Plan :=
  if entry.1 == negation then .negated (planUnder negation name entry.2)
  else if entry.2.isNested then .within name (planUnder negation entry.1 entry.2)
  else .onField name entry.1 entry.2

theorem planEntriesUnder_eq_map (name : String) (entries : List (String × Query)) :
    planEntriesUnder negation name entries = entries.map (planEntryUnder negation name) := by
  induction entries with
  | nil => rfl
  | cons entry rest ih =>
      rw [planEntriesUnder, ih, List.map_cons]
      rfl

end Maps

end Query

namespace Plan

/-! ## Requests -/

mutual

/-- The requests of a plan at a scope, in order. -/
def requests : Scope → Plan → List Request
  | scope, .bare operator argument => [⟨operator, argument, none, scope⟩]
  | scope, .onField field operator argument => [⟨operator, argument, some field, scope⟩]
  | scope, .within field inner => requests (scope.child field) inner
  | scope, .negated inner => requests scope inner
  | scope, .joined _ parts => requestsOfAll scope parts

/-- The requests of several plans, one after another. -/
def requestsOfAll : Scope → List Plan → List Request
  | _, [] => []
  | scope, p :: rest => requests scope p ++ requestsOfAll scope rest

end

theorem requestsOfAll_eq_flatMap (scope : Scope) (parts : List Plan) :
    requestsOfAll scope parts = parts.flatMap (Plan.requests scope) := by
  induction parts with
  | nil => rfl
  | cons p rest ih => rw [requestsOfAll, ih, List.flatMap_cons]

theorem mem_requestsOfAll {r : Request} {scope : Scope} {parts : List Plan} :
    r ∈ requestsOfAll scope parts ↔ ∃ p ∈ parts, r ∈ p.requests scope := by
  induction parts with
  | nil => simp [requestsOfAll]
  | cons p rest ih => simp [requestsOfAll, ih]

/-- Going down fields keeps the root. -/
theorem root_of_mem_requests {r : Request} {p : Plan} {scope : Scope}
    (hr : r ∈ p.requests scope) : r.enclosing.root = scope.root := by
  induction p generalizing scope with
  | bare operator argument => rw [List.mem_singleton.mp hr]
  | onField field operator argument => rw [List.mem_singleton.mp hr]
  | within field inner ih =>
      have hinner : r.enclosing.root = (scope.child field).root := ih hr
      exact hinner
  | negated inner ih => exact ih hr
  | joined c parts ih =>
      obtain ⟨p, hp, hpr⟩ := mem_requestsOfAll.mp hr
      exact ih p hp hpr

mutual

/-- Whether a plan makes no request. -/
def isVacuous : Plan → Bool
  | .bare _ _ | .onField _ _ _ => false
  | .within _ inner | .negated inner => isVacuous inner
  | .joined _ parts => allVacuous parts

/-- Whether none of the plans makes a request. -/
def allVacuous : List Plan → Bool
  | [] => true
  | p :: rest => isVacuous p && allVacuous rest

end

theorem allVacuous_iff {parts : List Plan} :
    allVacuous parts = true ↔ ∀ p ∈ parts, p.isVacuous = true := by
  induction parts with
  | nil => simp [allVacuous]
  | cons p rest ih => simp [allVacuous, ih]

/-! ## Assembling -/

/-- Fragments joined, after factoring if that is asked for. -/
def join (optimize : Bool) (c : Connective) (fragments : List Expr) : Option Expr :=
  c.combine? (if optimize then factor Expr.connectives c fragments else fragments)

section Assemble

variable (optimize : Bool) (answer : Request → Expr)

mutual

/-- The expression of a plan at a scope, given the expressions of its requests. -/
def assemble : Scope → Plan → Option Expr
  | scope, .bare operator argument => some (answer ⟨operator, argument, none, scope⟩)
  | scope, .onField field operator argument =>
    some (Compilation.fieldTest scope (answer ⟨operator, argument, some field, scope⟩))
  | scope, .within field inner =>
    (assemble (scope.child field) inner).map (Compilation.guarded scope (scope.child field))
  | scope, .negated inner => (assemble scope inner).map .not
  | scope, .joined c parts => join optimize c (assembleAll scope parts)

/-- The expressions of those plans that make a request. -/
def assembleAll : Scope → List Plan → List Expr
  | _, [] => []
  | scope, p :: rest => (assemble scope p).toList ++ assembleAll scope rest

end

theorem mem_assembleAll {scope : Scope} {parts : List Plan} {e : Expr} :
    e ∈ assembleAll optimize answer scope parts ↔
      ∃ p ∈ parts, assemble optimize answer scope p = some e := by
  induction parts with
  | nil => simp [assembleAll]
  | cons p rest ih => simp [assembleAll, ih]

theorem assembleAll_eq_nil_iff {scope : Scope} {parts : List Plan} :
    assembleAll optimize answer scope parts = [] ↔
      ∀ p ∈ parts, p.assemble optimize answer scope = none := by
  induction parts with
  | nil => simp [assembleAll]
  | cons p rest ih => simp [assembleAll, ih]

end Assemble

/-! ## Meaning -/

section Eval

variable (answer : Request → Expr) (input : Option Json)

mutual

/-- What a plan means at a scope: an operator on a field is asked only where the
value around it is truthy, and a deeper field entered only where the value around
it and its own value are truthy and the latter is an object.  Parts that make no
request are passed over. -/
def eval : Scope → Plan → Context → Bool × Context
  | scope, .bare operator argument, context =>
    (answer ⟨operator, argument, none, scope⟩).eval input context
  | scope, .onField field operator argument, context =>
    if Json.truthy (scope.resolve input) then
      (answer ⟨operator, argument, some field, scope⟩).eval input context
    else (false, context)
  | scope, .within field inner, context =>
    if Json.truthy (scope.resolve input) && (Json.truthy ((scope.child field).resolve input)
        && Json.typeOf ((scope.child field).resolve input) == "object") then
      eval (scope.child field) inner context
    else (false, context)
  | scope, .negated inner, context =>
    let (answer, after) := eval scope inner context
    (!answer, after)
  | scope, .joined c parts, context => evalAll c scope parts context

/-- Plans from left to right, up to the first that settles the answer. -/
def evalAll : Connective → Scope → List Plan → Context → Bool × Context
  | c, _, [], context => (!c.decisive, context)
  | c, scope, p :: rest, context =>
    if isVacuous p then evalAll c scope rest context
    else
      let (answer, after) := eval scope p context
      if answer = c.decisive then (answer, after) else evalAll c scope rest after

end

end Eval

end Plan

/-! ## The expression means what the plan means -/

/-- What an expression has to be before it is joined: its tests are of a kind,
and there is a condition in it. -/
def Expr.Fit (T : Test → Prop) (e : Expr) : Prop := e.Over T ∧ e.atoms ≠ []

namespace Expr

variable {T : Test → Prop} {input : Option Json} {context : Context}

theorem Fit.not {e : Expr} (h : e.Fit T) : (not e).Fit T := h

theorem Fit.fieldTest {e : Expr} (scope : Scope) (h : e.Fit T) :
    (Compilation.fieldTest scope e).Fit T := by
  refine ⟨?_, by simp [Compilation.fieldTest]⟩
  simpa [Compilation.fieldTest] using h.1

theorem Fit.guarded {e : Expr} (scope child : Scope) (h : e.Fit T) :
    (Compilation.guarded scope child e).Fit T := by
  refine ⟨?_, by simp [Compilation.guarded]⟩
  simpa [Compilation.guarded] using h.1

theorem Fit.combine {c : Connective} {parts : List Expr} (hne : parts ≠ [])
    (h : ∀ e ∈ parts, e.Fit T) : (c.combine parts).Fit T := by
  refine ⟨over_combine.mpr fun e he => (h e he).1, ?_⟩
  obtain ⟨e, he⟩ := List.exists_mem_of_ne_nil _ hne
  obtain ⟨a, ha⟩ := List.exists_mem_of_ne_nil _ (h e he).2
  rw [atoms_combine]
  exact List.ne_nil_of_mem (mem_atomsOfAll.mpr ⟨e, he, ha⟩)

theorem Fit.factor {rank : Rank} {c : Connective} {fragments : List Expr} {e : Expr}
    (h : ∀ d ∈ fragments, d.Fit T) (he : e ∈ factor rank c fragments) : e.Fit T :=
  ⟨stable_over.of_mem_factor (fun d hd => (h d hd).1) he,
    atoms_ne_nil_of_mem_factor (fun d hd => (h d hd).2) he⟩

theorem eval_fieldTest (scope : Scope) (e : Expr) :
    eval input (Compilation.fieldTest scope e) context =
      if Json.truthy (scope.resolve input) then eval input e context else (false, context) := by
  rw [Compilation.fieldTest, eval_all, evalParts_pair, eval_truthy]
  cases Json.truthy (scope.resolve input) <;> rfl

theorem eval_guarded (scope child : Scope) (e : Expr) :
    eval input (Compilation.guarded scope child e) context =
      if Json.truthy (scope.resolve input) && (Json.truthy (child.resolve input)
          && Json.typeOf (child.resolve input) == "object") then eval input e context
      else (false, context) := by
  rw [Compilation.guarded, eval_all, evalParts_cons, evalParts_cons, evalParts_pair, eval_truthy,
    eval_truthy, eval_isObject]
  cases Json.truthy (scope.resolve input) <;> cases Json.truthy (child.resolve input) <;>
    cases Json.typeOf (child.resolve input) == "object" <;> rfl

end Expr

namespace Plan

variable {T : Test → Prop} {optimize : Bool} {answer : Request → Expr}

theorem join_nil (optimize : Bool) (c : Connective) : join optimize c [] = none := by
  cases optimize <;> rfl

theorem combine?_eq_some {c : Connective} {parts : List Expr} {e : Expr}
    (h : c.combine? parts = some e) : parts ≠ [] ∧ c.combine parts = e := by
  rw [Connective.combine?] at h
  split at h
  · exact absurd h.symm (Option.some_ne_none e)
  · rename_i hne
    exact ⟨by simpa using hne, Option.some.inj h⟩

theorem fit_of_join {c : Connective} {fragments : List Expr} {e : Expr}
    (h : ∀ d ∈ fragments, d.Fit T) (he : join optimize c fragments = some e) : e.Fit T := by
  obtain ⟨hne, rfl⟩ := combine?_eq_some he
  refine Expr.Fit.combine hne fun d hd => ?_
  cases optimize with
  | false => exact h d hd
  | true => exact Expr.Fit.factor h hd

/-- A join runs like its fragments one after another: without factoring always,
and with it where tests are tame. -/
theorem eval_join (hT : optimize = true → Test.Tame T) {c : Connective} {fragments : List Expr}
    {e : Expr} (h : ∀ d ∈ fragments, d.Fit T) (he : join optimize c fragments = some e)
    (input : Option Json) (context : Context) :
    e.eval input context = Expr.evalParts input c fragments context := by
  obtain ⟨-, rfl⟩ := combine?_eq_some he
  cases optimize with
  | false => exact Expr.eval_combine fragments
  | true =>
      exact eval_combine_factor (hT rfl) fun d hd => ⟨(h d hd).1, Expr.terms_ne_nil (h d hd).2⟩

/-- What the assembled expressions of a plan have in common, shown by what each
way of putting expressions together keeps. -/
theorem assemble_induction {P : Scope → Expr → Prop}
    (guarded : ∀ scope field e, P (scope.child field) e →
      P scope (Compilation.guarded scope (scope.child field) e))
    (not : ∀ scope e, P scope e → P scope (.not e))
    (join : ∀ scope c fragments e, (∀ d ∈ fragments, P scope d) →
      Plan.join optimize c fragments = some e → P scope e)
    {p : Plan} {scope : Scope} {e : Expr}
    (bare : ∀ r ∈ p.requests scope, r.field = none → P r.enclosing (answer r))
    (onField : ∀ r ∈ p.requests scope, ∀ field, r.field = some field →
      P r.enclosing (Compilation.fieldTest r.enclosing (answer r)))
    (h : p.assemble optimize answer scope = some e) : P scope e := by
  induction p generalizing scope e with
  | bare operator argument =>
      rw [← Option.some.inj h]
      exact bare _ List.mem_cons_self rfl
  | onField field operator argument =>
      rw [← Option.some.inj h]
      exact onField _ List.mem_cons_self field rfl
  | within field inner ih =>
      obtain ⟨d, hd, rfl⟩ := Option.map_eq_some_iff.mp h
      exact guarded scope field d (ih bare onField hd)
  | negated inner ih =>
      obtain ⟨d, hd, rfl⟩ := Option.map_eq_some_iff.mp h
      exact not scope d (ih bare onField hd)
  | joined c parts ih =>
      refine join scope c _ e (fun d hd => ?_) h
      obtain ⟨p, hp, hpd⟩ := (mem_assembleAll _ _).mp hd
      exact ih p hp (fun r hr => bare r (mem_requestsOfAll.mpr ⟨p, hp, hr⟩))
        (fun r hr => onField r (mem_requestsOfAll.mpr ⟨p, hp, hr⟩)) hpd

/-- A stable property of all answers holds of the assembled expression. -/
theorem stable_of_assemble {P : Expr → Prop} (hP : Expr.Stable P) {p : Plan} {scope : Scope}
    {e : Expr} (ha : ∀ r ∈ p.requests scope, P (answer r))
    (h : p.assemble optimize answer scope = some e) : P e := by
  refine assemble_induction (P := fun _ e => P e) (fun scope field e he => ?_)
    (fun _ e he => hP.not e he) (fun scope c fragments e hall hjoin => ?_)
    (fun r hr _ => ha r hr) (fun r hr _ _ => ?_) h
  · rw [Compilation.guarded, Expr.all]
    refine hP.combine .and _ (List.cons_ne_nil _ _) ?_
    simpa using ⟨hP.truthy scope, hP.truthy _, hP.isObject _, he⟩
  · obtain ⟨hne, rfl⟩ := combine?_eq_some hjoin
    refine hP.combine c _ hne fun d hd => ?_
    cases optimize with
    | false => exact hall d hd
    | true => exact hP.of_mem_factor hall hd
  · rw [Compilation.fieldTest, Expr.all]
    refine hP.combine .and _ (List.cons_ne_nil _ _) ?_
    simpa using ⟨hP.truthy r.enclosing, ha r hr⟩

/-- Answers that fit are assembled to expressions that fit. -/
theorem fit_of_assemble {p : Plan} {scope : Scope} {e : Expr}
    (ha : ∀ r ∈ p.requests scope, (answer r).Fit T)
    (h : p.assemble optimize answer scope = some e) : e.Fit T :=
  assemble_induction (P := fun _ e => e.Fit T)
    (fun scope field _ h => h.guarded scope (scope.child field)) (fun _ _ h => h.not)
    (fun _ _ _ _ => fit_of_join) (fun r hr _ => ha r hr)
    (fun r hr _ _ => (ha r hr).fieldTest r.enclosing) h

theorem fit_of_mem_assembleAll {scope : Scope} {parts : List Plan} {d : Expr}
    (ha : ∀ r ∈ requestsOfAll scope parts, (answer r).Fit T)
    (hd : d ∈ assembleAll optimize answer scope parts) : d.Fit T := by
  obtain ⟨p, hp, hpd⟩ := (mem_assembleAll _ _).mp hd
  exact fit_of_assemble (fun r hr => ha r (mem_requestsOfAll.mpr ⟨p, hp, hr⟩)) hpd

/-- Only nothing is joined to nothing. -/
theorem combine?_eq_none_iff {c : Connective} {parts : List Expr} :
    c.combine? parts = none ↔ parts = [] := by
  cases parts with
  | nil => exact iff_of_true rfl rfl
  | cons e rest => simp [Connective.combine?]

/-- Fragments that fit vanish in a join only if there are none. -/
theorem join_eq_none_iff {c : Connective} {fragments : List Expr}
    (h : ∀ d ∈ fragments, d.Fit T) : join optimize c fragments = none ↔ fragments = [] := by
  cases optimize with
  | false => exact combine?_eq_none_iff
  | true =>
      refine combine?_eq_none_iff.trans ⟨fun hnil => ?_, fun hnil => by rw [hnil]; rfl⟩
      by_contra hne
      exact factor_ne_nil hne (fun d hd => Expr.terms_ne_nil (h d hd).2) hnil

/-- With answers that fit, only a vacuous plan has no expression. -/
theorem assemble_eq_none_iff {p : Plan} {scope : Scope}
    (ha : ∀ r ∈ p.requests scope, (answer r).Fit T) :
    p.assemble optimize answer scope = none ↔ p.isVacuous = true := by
  induction p generalizing scope with
  | bare operator argument => simp [assemble, isVacuous]
  | onField field operator argument => simp [assemble, isVacuous]
  | within field inner ih =>
      rw [assemble, Option.map_eq_none_iff]
      exact ih ha
  | negated inner ih =>
      rw [assemble, Option.map_eq_none_iff]
      exact ih ha
  | joined c parts ih =>
      rw [assemble, join_eq_none_iff fun _ => fit_of_mem_assembleAll ha, assembleAll_eq_nil_iff,
        isVacuous, allVacuous_iff]
      exact forall₂_congr fun p hp =>
        ih p hp fun r hr => ha r (mem_requestsOfAll.mpr ⟨p, hp, hr⟩)

/-- A plan has no expression if it makes no request, and otherwise one that runs
as the plan says. -/
def Realized (optimize : Bool) (answer : Request → Expr) (scope : Scope) (p : Plan) : Prop :=
  (p.isVacuous = true ∧ p.assemble optimize answer scope = none) ∨
    (p.isVacuous = false ∧ ∃ e, p.assemble optimize answer scope = some e ∧
      ∀ input context, e.eval input context = p.eval answer input scope context)

/-- The fragments of parts run like the parts. -/
theorem evalParts_assembleAll {scope : Scope} {parts : List Plan}
    (h : ∀ p ∈ parts, p.Realized optimize answer scope) {c : Connective} (input : Option Json)
    (context : Context) :
    Expr.evalParts input c (assembleAll optimize answer scope parts) context =
      evalAll answer input c scope parts context := by
  induction parts generalizing context with
  | nil => rfl
  | cons p rest ih =>
      have hrest := ih fun q hq => h q (List.mem_cons_of_mem _ hq)
      rw [assembleAll, evalAll]
      rcases h p List.mem_cons_self with ⟨hv, hnone⟩ | ⟨hv, e, he, heval⟩
      · rw [hnone, if_pos hv]
        exact hrest context
      · rw [he, if_neg (by simp [hv]), Option.toList_some, List.singleton_append,
          Expr.evalParts_cons, heval, hrest]

/-- The expression of a plan means what the plan means: without factoring always,
and with it where tests are tame. -/
theorem realized (hT : optimize = true → Test.Tame T) {p : Plan} {scope : Scope}
    (ha : ∀ r ∈ p.requests scope, (answer r).Fit T) : p.Realized optimize answer scope := by
  induction p generalizing scope with
  | bare operator argument => exact .inr ⟨rfl, _, rfl, fun _ _ => rfl⟩
  | onField field operator argument =>
      exact .inr ⟨rfl, _, rfl, fun _ _ => Expr.eval_fieldTest _ _⟩
  | within field inner ih =>
      rcases ih ha with ⟨hv, hnone⟩ | ⟨hv, e, he, heval⟩
      · exact .inl ⟨hv, by rw [assemble, hnone, Option.map_none]⟩
      · refine .inr ⟨hv, _, by rw [assemble, he, Option.map_some], fun input context => ?_⟩
        rw [Expr.eval_guarded, heval, eval]
  | negated inner ih =>
      rcases ih ha with ⟨hv, hnone⟩ | ⟨hv, e, he, heval⟩
      · exact .inl ⟨hv, by rw [assemble, hnone, Option.map_none]⟩
      · refine .inr ⟨hv, _, by rw [assemble, he, Option.map_some], fun input context => ?_⟩
        rw [Expr.eval_not, heval, eval]
  | joined c parts ih =>
      have hparts : ∀ p ∈ parts, p.Realized optimize answer scope := fun p hp =>
        ih p hp fun r hr => ha r (mem_requestsOfAll.mpr ⟨p, hp, hr⟩)
      by_cases hv : allVacuous parts = true
      · exact .inl ⟨hv, (assemble_eq_none_iff ha).mpr hv⟩
      · obtain ⟨e, he⟩ : ∃ e, (joined c parts).assemble optimize answer scope = some e :=
          Option.ne_none_iff_exists'.mp (mt (assemble_eq_none_iff ha).mp hv)
        refine .inr ⟨Bool.eq_false_iff.mpr hv, e, he, fun input context => ?_⟩
        rw [eval_join hT (fun _ => fit_of_mem_assembleAll ha) he, evalParts_assembleAll hparts,
          eval]

/-- What a plan says of an input: one that makes no request accepts everything. -/
def evaluate (answer : Request → Expr) (scope : Scope) (p : Plan) (input : Option Json)
    (context : Context) : Bool × Context :=
  if p.isVacuous then (true, context) else p.eval answer input scope context

/-- A predicate made from a plan says what the plan says. -/
theorem Realized.evaluate_eq {scope : Scope} {p : Plan} (h : p.Realized optimize answer scope)
    (entryName : String) (input : Option Json) (context : Context) :
    Predicate.evaluate ⟨p.assemble optimize answer scope, entryName⟩ input context =
      p.evaluate answer scope input context := by
  rcases h with ⟨hv, hnone⟩ | ⟨hv, e, he, heval⟩
  · rw [hnone, Plan.evaluate, if_pos hv]
    rfl
  · rw [he, Plan.evaluate, if_neg (by simp [hv]), ← heval]
    rfl

end Plan

end Criteria
