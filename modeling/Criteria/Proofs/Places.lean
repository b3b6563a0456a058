import Criteria.Proofs.Operator.Calls
import Criteria.Proofs.Plan.Compiling
import Mathlib.Data.List.Forall2

/-!
# Places of operators

Where an operator is applied can be read off the query: it is named by the last
name above a leaf, and the names before that are the path to the value under test.
Negations and lists on the way do not count.  What an operator asks for is applied
at the operator's own place.

* `Query.leaves`: the leaves of a query with their paths, in order.
* `Query.operands`: the leaves that are handed to an operator.
* `Query.asks`: the requests of a query's plan are those for its operands.
* `Compilation.places`: the generator runs of a compilation.
-/

namespace Criteria

/-! ## Leaves -/

/-- One step down a query. -/
inductive Step where
  /-- To the value of a key. -/
  | key (name : String)
  /-- To a member of a list. -/
  | item

/-- A part of a query that has nothing below it. -/
structure Leaf where
  /-- How it is reached from the query's root. -/
  path : List Step
  /-- A value, or an empty mapping or list. -/
  value : Query

/-- The name that a step adds to a path: that of a key other than the negation
key. -/
def Step.name? (negation : String) : Step → Option String
  | .key name => if name == negation then none else some name
  | .item => none

/-- The names on a path. -/
def namesOn (negation : String) (path : List Step) : List String :=
  path.filterMap (Step.name? negation)

/-- Whether a path ends in a name below another one: the other one is the field,
and the last one its operator. -/
def endsInField (negation : String) (path : List Step) : Bool :=
  (path.getLast?.bind (Step.name? negation)).isSome && !(namesOn negation path.dropLast).isEmpty

namespace Leaf

/-- Whether the leaf is handed to an operator: a value below some name is, and an
empty mapping or list where it is the value of an operator on a field. -/
def isOperand (negation : String) (leaf : Leaf) : Bool :=
  match leaf.value with
  | .scalar _ | .pattern _ => !(namesOn negation leaf.path).isEmpty
  | .all _ | .any _ => endsInField negation leaf.path

/-- What is said of a leaf and the call that it is handed to: the names on the
leaf's path are the keys of the call's scope and then the operator.  The field is
the last key if the path ends in it and the operator, and left out otherwise. -/
structure HandedTo (entryName negation : String) (leaf : Leaf) (call : Call) : Prop where
  /-- The names on the path. -/
  names : namesOn negation leaf.path = call.site.scope.keys ++ [call.site.operator]
  /-- The scope starts at the input. -/
  root : call.site.scope.root = entryName
  /-- The field. -/
  field : call.site.field =
    if endsInField negation leaf.path then call.site.scope.keys.getLast? else none
  /-- The argument. -/
  argument : call.argument = .ofQuery leaf.value

end Leaf

namespace Query

mutual

/-- The leaves below a path, in order. -/
def leaves (path : List Step) : Query → List Leaf
  | .all entries =>
    if entries.isEmpty then [⟨path, .all entries⟩] else leavesOfEntries path entries
  | .any branches =>
    if branches.isEmpty then [⟨path, .any branches⟩] else leavesOfBranches path branches
  | .scalar value => [⟨path, .scalar value⟩]
  | .pattern p => [⟨path, .pattern p⟩]

/-- The leaves of entries, one after another. -/
def leavesOfEntries (path : List Step) : List (String × Query) → List Leaf
  | [] => []
  | (key, q) :: rest => leaves (path ++ [.key key]) q ++ leavesOfEntries path rest

/-- The leaves of branches, one after another. -/
def leavesOfBranches (path : List Step) : List Query → List Leaf
  | [] => []
  | q :: rest => leaves (path ++ [.item]) q ++ leavesOfBranches path rest

end

/-- The leaves that are handed to an operator, in order. -/
def operands (negation : String) (q : Query) : List Leaf :=
  (q.leaves []).filter (Leaf.isOperand negation)

/-- A query that opens no deeper level is a leaf. -/
theorem leaves_of_isNested_eq_false {q : Query} (h : q.isNested = false) (path : List Step) :
    q.leaves path = [⟨path, q⟩] := by
  cases q with
  | all entries =>
      rw [leaves, if_pos (by simpa [isNested] using h)]
  | any branches =>
      rw [leaves, if_pos (by simpa [isNested] using h)]
  | _ => rfl

end Query

/-! ## Names on longer paths -/

section Names

variable {negation : String} {path : List Step}

theorem namesOn_item : namesOn negation (path ++ [.item]) = namesOn negation path := by
  simp [namesOn, Step.name?]

theorem namesOn_negation {key : String} (h : (key == negation) = true) :
    namesOn negation (path ++ [.key key]) = namesOn negation path := by
  simp [namesOn, Step.name?, h]

theorem namesOn_name {key : String} (h : ¬ (key == negation) = true) :
    namesOn negation (path ++ [.key key]) = namesOn negation path ++ [key] := by
  simp [namesOn, Step.name?, h]

theorem endsInField_item : endsInField negation (path ++ [.item]) = false := by
  simp [endsInField, Step.name?]

theorem endsInField_negation {key : String} (h : (key == negation) = true) :
    endsInField negation (path ++ [.key key]) = false := by
  simp [endsInField, Step.name?, h]

/-- A name ends in a field where there is a name above it. -/
theorem endsInField_name {key : String} (h : ¬ (key == negation) = true) :
    endsInField negation (path ++ [.key key]) = !(namesOn negation path).isEmpty := by
  simp [endsInField, Step.name?, h]

/-- A path without names ends in no field. -/
theorem endsInField_of_namesOn_eq_nil (h : namesOn negation path = []) :
    endsInField negation path = false := by
  have hfront : namesOn negation path.dropLast = [] :=
    List.sublist_nil.mp (h ▸ (List.dropLast_sublist path).filterMap _)
  simp [endsInField, hfront]

end Names

/-! ## Requests and leaves -/

/-- The call that answers a request. -/
def Request.call (r : Request) : Call := ⟨.ofQuery r.argument, r.site⟩

/-- Whether requests are those for the operands among leaves, one after another. -/
def Leaf.Ask (negation : String) (scope : Scope) (leaves : List Leaf) (requests : List Request) :
    Prop :=
  List.Forall₂ (fun leaf r => leaf.HandedTo scope.root negation r.call)
    (leaves.filter (Leaf.isOperand negation)) requests

namespace Leaf

variable {negation : String} {scope : Scope}

theorem ask_nil : Ask negation scope [] [] := .nil

theorem Ask.append {xs ys : List Leaf} {rs ss : List Request} (hxs : Ask negation scope xs rs)
    (hys : Ask negation scope ys ss) : Ask negation scope (xs ++ ys) (rs ++ ss) := by
  rw [Ask, List.filter_append]
  exact List.rel_append hxs hys

/-- A leaf that no operator is handed. -/
theorem ask_of_isOperand_eq_false {leaf : Leaf} (h : leaf.isOperand negation = false) :
    Ask negation scope [leaf] [] := by
  rw [Ask, List.filter_cons_of_neg (by simp [h])]
  exact .nil

/-- A leaf that an operator is handed. -/
theorem ask_of_isOperand {leaf : Leaf} {r : Request} (h : leaf.isOperand negation = true)
    (hr : leaf.HandedTo scope.root negation r.call) : Ask negation scope [leaf] [r] := by
  rw [Ask, List.filter_cons_of_pos h]
  exact .cons hr .nil

/-- A value of a name off a field is handed to the name. -/
theorem ask_bare {value : Query} {path : List Step} {name : String}
    (hpath : namesOn negation path = scope.keys ++ [name])
    (hoff : endsInField negation path = false)
    (hvalue : isOperand negation ⟨path, value⟩ = true) :
    Ask negation scope [⟨path, value⟩] [⟨name, value, none, scope⟩] := by
  refine ask_of_isOperand hvalue ⟨hpath, rfl, ?_, rfl⟩
  rw [if_neg (by simp [hoff])]
  rfl

/-- A leaf on a field is handed to the operator whose value it is. -/
theorem ask_onField {value : Query} {path : List Step} {name operator : String}
    (hpath : namesOn negation path = scope.keys ++ [name])
    (hoperator : ¬ (operator == negation) = true) :
    Ask negation scope [⟨path ++ [.key operator], value⟩]
      [⟨operator, value, some name, scope⟩] := by
  have hnames : namesOn negation (path ++ [.key operator]) =
      (scope.child name).keys ++ [operator] := by
    rw [namesOn_name hoperator, hpath, Scope.child]
  have hfield : endsInField negation (path ++ [.key operator]) = true := by
    rw [endsInField_name hoperator, hpath]
    simp
  refine ask_of_isOperand ?_ ⟨hnames, rfl, ?_, rfl⟩
  · cases value with
    | scalar value => simp [isOperand, hnames]
    | pattern p => simp [isOperand, hnames]
    | _ => exact hfield
  · rw [if_pos hfield]
    exact List.getLast?_concat.symm

end Leaf

namespace Query

variable {negation : String}

/-- What is said of a query as the value of a name: below a path whose names are the
keys of the scope and then the name, its plan asks for its operands.  A leaf stands
there only off the field, in a list or under a negation or at the root. -/
def AsksUnder (negation : String) (q : Query) : Prop :=
  ∀ path scope name, namesOn negation path = scope.keys ++ [name] →
    (q.isNested = false → endsInField negation path = false) →
    Leaf.Ask negation scope (q.leaves path) ((q.planUnder negation name).requests scope)

theorem ask_branchesUnder {branches : List Query} (h : ∀ q ∈ branches, q.AsksUnder negation)
    {path : List Step} {scope : Scope} {name : String}
    (hpath : namesOn negation path = scope.keys ++ [name]) :
    Leaf.Ask negation scope (leavesOfBranches path branches)
      (Plan.requestsOfAll scope (planBranchesUnder negation name branches)) := by
  induction branches with
  | nil => exact Leaf.ask_nil
  | cons q rest ih =>
      refine Leaf.Ask.append ?_ (ih fun q hq => h q (List.mem_cons_of_mem _ hq))
      exact h q List.mem_cons_self _ scope name (namesOn_item.trans hpath) fun _ => endsInField_item

theorem ask_entriesUnder {entries : List (String × Query)}
    (h : ∀ entry ∈ entries, entry.2.AsksUnder negation) {path : List Step} {scope : Scope}
    {name : String} (hpath : namesOn negation path = scope.keys ++ [name]) :
    Leaf.Ask negation scope (leavesOfEntries path entries)
      (Plan.requestsOfAll scope (planEntriesUnder negation name entries)) := by
  induction entries with
  | nil => exact Leaf.ask_nil
  | cons entry rest ih =>
      obtain ⟨key, q⟩ := entry
      have hq := h (key, q) List.mem_cons_self
      refine Leaf.Ask.append ?_ (ih fun entry he => h entry (List.mem_cons_of_mem _ he))
      split
      · rename_i hkey
        refine hq _ scope name ((namesOn_negation hkey).trans hpath) fun _ => ?_
        exact endsInField_negation hkey
      · rename_i hkey
        split
        · rename_i hnested
          refine hq _ (scope.child name) key ?_ fun hflat => nomatch hnested.symm.trans hflat
          rw [namesOn_name hkey, hpath, Scope.child]
        · rename_i hflat
          rw [leaves_of_isNested_eq_false (Bool.eq_false_iff.mpr hflat)]
          exact Leaf.ask_onField hpath hkey

/-- An empty mapping or list that does not stand on a field makes no request. -/
theorem isOperand_empty {q : Query} {path : List Step} (hq : q = .all [] ∨ q = .any [])
    (hpath : endsInField negation path = false) : Leaf.isOperand negation ⟨path, q⟩ = false := by
  rcases hq with rfl | rfl
  · exact hpath
  · exact hpath

theorem asksUnder (negation : String) (q : Query) : q.AsksUnder negation := by
  induction q with
  | any branches ih =>
      intro path scope name hpath hflat
      cases branches with
      | nil => exact Leaf.ask_of_isOperand_eq_false (isOperand_empty (.inr rfl) (hflat rfl))
      | cons q rest => exact ask_branchesUnder ih hpath
  | all entries ih =>
      intro path scope name hpath hflat
      cases entries with
      | nil => exact Leaf.ask_of_isOperand_eq_false (isOperand_empty (.inl rfl) (hflat rfl))
      | cons entry rest => exact ask_entriesUnder ih hpath
  | scalar value =>
      intro path scope name hpath hflat
      exact Leaf.ask_bare hpath (hflat rfl) (by simp [Leaf.isOperand, hpath])
  | pattern p =>
      intro path scope name hpath hflat
      exact Leaf.ask_bare hpath (hflat rfl) (by simp [Leaf.isOperand, hpath])

/-- What is said of a query outside of all names: below a path without names, its
plan asks for its operands. -/
def Asks (negation : String) (q : Query) : Prop :=
  ∀ path entryName, namesOn negation path = [] →
    Leaf.Ask negation (Scope.ofRoot entryName) (q.leaves path)
      ((q.plan negation).requests (Scope.ofRoot entryName))

theorem ask_branches {branches : List Query} (h : ∀ q ∈ branches, q.Asks negation)
    {path : List Step} {entryName : String} (hpath : namesOn negation path = []) :
    Leaf.Ask negation (Scope.ofRoot entryName) (leavesOfBranches path branches)
      (Plan.requestsOfAll (Scope.ofRoot entryName) (planBranches negation branches)) := by
  induction branches with
  | nil => exact Leaf.ask_nil
  | cons q rest ih =>
      refine Leaf.Ask.append ?_ (ih fun q hq => h q (List.mem_cons_of_mem _ hq))
      exact h q List.mem_cons_self _ entryName (namesOn_item.trans hpath)

theorem ask_entries {entries : List (String × Query)}
    (h : ∀ entry ∈ entries, entry.2.Asks negation) {path : List Step} {entryName : String}
    (hpath : namesOn negation path = []) :
    Leaf.Ask negation (Scope.ofRoot entryName) (leavesOfEntries path entries)
      (Plan.requestsOfAll (Scope.ofRoot entryName) (planEntries negation entries)) := by
  induction entries with
  | nil => exact Leaf.ask_nil
  | cons entry rest ih =>
      obtain ⟨key, q⟩ := entry
      refine Leaf.Ask.append ?_ (ih fun entry he => h entry (List.mem_cons_of_mem _ he))
      split
      · rename_i hkey
        exact h (key, q) List.mem_cons_self _ entryName ((namesOn_negation hkey).trans hpath)
      · rename_i hkey
        -- The first name on the path has no field above it.
        refine asksUnder negation q _ _ key ?_ fun _ => ?_
        · rw [namesOn_name hkey, hpath]
          rfl
        · rw [endsInField_name hkey, hpath]
          rfl

theorem asks (negation : String) (q : Query) : q.Asks negation := by
  induction q with
  | any branches ih =>
      intro path entryName hpath
      cases branches with
      | nil =>
          have hoff : endsInField negation path = false := endsInField_of_namesOn_eq_nil hpath
          exact Leaf.ask_of_isOperand_eq_false (isOperand_empty (.inr rfl) hoff)
      | cons q rest => exact ask_branches ih hpath
  | all entries ih =>
      intro path entryName hpath
      cases entries with
      | nil =>
          have hoff : endsInField negation path = false := endsInField_of_namesOn_eq_nil hpath
          exact Leaf.ask_of_isOperand_eq_false (isOperand_empty (.inl rfl) hoff)
      | cons entry rest => exact ask_entries ih hpath
  | scalar value =>
      intro path entryName hpath
      exact Leaf.ask_of_isOperand_eq_false (by simp [Leaf.isOperand, hpath])
  | pattern p =>
      intro path entryName hpath
      exact Leaf.ask_of_isOperand_eq_false (by simp [Leaf.isOperand, hpath])

end Query

/-! ## Calls of a compilation -/

/-- Whether no other operator makes the call. -/
def Call.isOutermost (call : Call) : Bool := call.site.depth == 0

/-- What an outermost call makes is not outermost. -/
theorem Call.Below.filter_isOutermost {top : Call} {calls : List Call} (h : Below top calls)
    (htop : top.isOutermost = true) : (top :: calls).filter isOutermost = [top] := by
  rw [List.filter_cons_of_pos htop, List.filter_eq_nil_iff.mpr]
  intro call hcall houter
  have hpos := h.depth_pos hcall
  rw [beq_iff_eq.mp houter] at hpos
  exact absurd hpos (Nat.lt_irrefl 0)

theorem Traced.calls_callsOnly {α : Type} (x : Traced α) : x.callsOnly.calls = x.calls := by
  rw [calls, callsOnly, List.filterMap_filter]
  refine List.filterMap_congr fun event _ => ?_
  cases event <;> rfl

namespace Compilation

variable {c : Compilation}

theorem opens_answerTo (r : Request) : Dictionary.Opens r.call (c.answerTo r) := by
  rw [Dictionary.Opens, answerTo, Traced.calls_callsOnly]
  exact Dictionary.opens_resolve r.operator r.argument r.field r.enclosing

theorem opens_ask (r : Request) :
    (∃ e, (c.ask r).result = .error e) ∧ (c.ask r).calls = [] ∨
      ∃ below, (c.ask r).calls = r.call :: below ∧ Call.Below r.call below := by
  have hcalls : (c.ask r).calls = (c.answerTo r).calls := by
    rw [Traced.calls, events_ask, Traced.calls]
  rw [hcalls]
  rcases opens_answerTo (c := c) r with ⟨⟨e, he⟩, hnone⟩ | hcall
  · refine .inl ⟨⟨e, ?_⟩, hnone⟩
    rw [ask, map_eq_pure_bind, Traced.result_bind_pure, he]
    rfl
  · exact .inr hcall

/-- Outermost calls are those for the requests, up to the first error. -/
theorem outermost_forM_ask (requests : List Request) :
    ∃ n, (forM requests c.ask).calls.filter Call.isOutermost = (requests.take n).map Request.call ∧
      ((forM requests c.ask).result = .ok () → requests.length ≤ n) := by
  induction requests with
  | nil => exact ⟨0, rfl, fun _ => Nat.le_refl _⟩
  | cons r rest ih =>
      rw [List.forM_cons]
      cases hres : (c.ask r).result with
      | ok u =>
          rcases opens_ask r with ⟨⟨e, he⟩, -⟩ | ⟨below, hcalls, hbelow⟩
          · exact nomatch hres.symm.trans he
          · obtain ⟨n, hn, hlength⟩ := ih
            refine ⟨n + 1, ?_, fun hok => ?_⟩
            · rw [Traced.calls_bind_of_ok _ hres, hcalls, List.filter_append,
                hbelow.filter_isOutermost rfl, hn]
              rfl
            · rw [Traced.bind_of_ok _ hres] at hok
              exact Nat.succ_le_succ (hlength hok)
      | error e =>
          have hstop : (c.ask r >>= fun _ => forM rest c.ask).result ≠ .ok () := by
            rw [Traced.bind_of_error _ hres]
            exact nofun
          rw [Traced.calls_bind_of_error _ hres]
          rcases opens_ask r with ⟨-, hcalls⟩ | ⟨below, hcalls, hbelow⟩
          · exact ⟨0, by rw [hcalls]; rfl, fun hok => absurd hok hstop⟩
          · refine ⟨1, ?_, fun hok => absurd hok hstop⟩
            rw [hcalls, hbelow.filter_isOutermost rfl]
            rfl

/-- Calls below the calls for requests follow their callers. -/
theorem nested_calls_forM_ask (requests : List Request) :
    Call.Nested (forM requests c.ask).calls := by
  refine events_forM_ask_induction (P := fun events => Call.Nested (events.filterMap Event.call?))
    Call.nested_nil (fun xs ys hxs hys => ?_) fun r _ => ?_
  · rw [List.filterMap_append]
    exact hxs.append hys
  · change Call.Nested (c.answerTo r).calls
    rcases opens_answerTo (c := c) r with ⟨-, hnone⟩ | ⟨below, hcalls, hbelow⟩
    · rw [hnone]
      exact Call.nested_nil
    · rw [hcalls]
      exact hbelow.nested rfl

/-- The calls of a whole query are those for its plan's requests. -/
theorem calls_run (c : Compilation) (q : Query) :
    (c.run q).calls = (forM ((c.plan q).requests c.root) c.ask).calls := by
  rw [← Traced.calls_callsOnly, Traced.calls, Traced.callsOnly, filter_events_run, Traced.calls]

/-- The outermost calls of a compilation are made for the operands of the query, in
order and each at its place; if nothing fails, for all of them.  Every other call is
at the place of the call that it comes from. -/
theorem places (c : Compilation) (q : Query) :
    (∃ made, made <+: q.operands c.options.negationKey ∧
      ((∃ expr, (c.run q).result = .ok expr) → made = q.operands c.options.negationKey) ∧
      List.Forall₂ (Leaf.HandedTo c.options.entryName c.options.negationKey) made
        ((c.run q).calls.filter Call.isOutermost)) ∧
    Call.Nested (c.run q).calls := by
  rw [calls_run]
  refine ⟨?_, nested_calls_forM_ask _⟩
  have hask : List.Forall₂ _ (q.operands c.options.negationKey) ((c.plan q).requests c.root) :=
    Query.asks c.options.negationKey q [] c.options.entryName rfl
  obtain ⟨n, hcalls, hlength⟩ := outermost_forM_ask (c := c) ((c.plan q).requests c.root)
  refine ⟨(q.operands c.options.negationKey).take n, List.take_prefix _ _, ?_, ?_⟩
  · rintro ⟨expr, hexpr⟩
    refine List.take_of_length_le ?_
    rw [hask.length_eq]
    refine hlength (result_forM_ask_eq_ok_iff.mpr (result_run_eq_ok_iff.mp hexpr).1)
  · rw [hcalls, List.forall₂_map_right_iff]
    exact List.forall₂_take n hask

end Compilation

end Criteria
