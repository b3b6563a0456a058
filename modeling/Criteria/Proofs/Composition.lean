import Criteria.Operator.Combinators
import Criteria.Proofs.FirstError
import Criteria.Proofs.Operator.Moving
import Mathlib.Tactic.IntervalCases

/-!
# Operators that call each other

Calls between operators end, also where they go in a circle: an operator may be the
last of so many hops as the depth limit says, and one hop more is refused.  The limit
is looked at before the name is, so a refused call does not tell whether there is such
an operator.

* `Generator.IsLeaf`, `Generator.IsAlias`: operators that call nothing, and those that
  stand for another one.
* `Dictionary.Chain`: where aliases lead, hop by hop.
* `Dictionary.depth_resolveWithin`: no generator runs deeper than the limit.
* `Dictionary.result_resolveWithin_of_leaf`, `Dictionary.result_resolveWithin_of_unknown`,
  `Dictionary.result_resolveWithin_of_hops`: the three ways in which a chain ends.
* `Compiler.bounded_composition`: both for a compiler.
-/

namespace Criteria

/-! ## How deep generators run -/

namespace Dictionary

variable {d : Dictionary} {limit : Nat}

/-- What holds of an operator's own call and of the calls for what its generator asks for
holds of all calls. -/
theorem forall_calls_invoke {P : Call → Prop} {answer : String → Query → Traced Expr}
    {site : Site} {argument : Argument} (hsite : P ⟨argument, site⟩)
    (h : ∀ g, d.get? site.operator = some g → ∀ r ∈ (g argument site).asked answer,
      ∀ call ∈ (answer r.1 r.2).calls, P call) :
    ∀ call ∈ (d.invoke answer site argument).calls, P call := by
  cases hget : d.get? site.operator with
  | none =>
      rw [invoke_unknown hget]
      exact fun _ hcall => absurd hcall List.not_mem_nil
  | some g =>
      rw [calls_invoke hget, Generation.calls_run]
      refine List.forall_mem_cons.mpr ⟨hsite, fun call hcall => ?_⟩
      obtain ⟨r, hr, hmem⟩ := List.mem_flatMap.mp hcall
      exact h g hget r hr call hmem

/-- The depth of a site and the levels left below it add up to no more than the limit,
so no generator runs deeper. -/
theorem depth_resolveWithin {levels : Nat} {site : Site} (h : site.depth + levels ≤ limit)
    (q : Query) : ∀ call ∈ (d.resolveWithin limit levels site q).calls,
      call.site.depth ≤ limit := by
  induction levels generalizing site q with
  | zero =>
      refine forall_calls_invoke h fun g _ r _ call hcall => ?_
      exact absurd hcall List.not_mem_nil
  | succ levels ih =>
      have hsite : site.depth ≤ limit := by omega
      have hbelow : site.depth + 1 + levels ≤ limit := by omega
      exact forall_calls_invoke hsite fun g _ r _ => ih hbelow r.2

end Dictionary

/-! ## Leaves and aliases -/

namespace Generator

/-- The operator calls no other one. -/
def IsLeaf (g : Generator) : Prop := ∀ argument site, ∃ result, g argument site = .done result

/-- The operator hands its argument to another one and gives what that one gives. -/
def IsAlias (g : Generator) (target : String) : Prop :=
  ∀ argument site, ∃ q, Argument.ofQuery q = argument ∧ g argument site = .call target q .done

variable {g : Generator}

/-- An operator stands for one other operator at most. -/
theorem IsAlias.target_eq {s t : String} (hs : g.IsAlias s) (ht : g.IsAlias t) : s = t := by
  let site : Site := ⟨"", .ofRoot "", none, 0⟩
  obtain ⟨p, -, hp⟩ := hs (.literal .null) site
  obtain ⟨q, -, hq⟩ := ht (.literal .null) site
  exact (Generation.call.inj (hp.symm.trans hq)).1

theorem IsAlias.not_isLeaf {target : String} (h : g.IsAlias target) : ¬ g.IsLeaf := by
  intro hleaf
  let site : Site := ⟨"", .ofRoot "", none, 0⟩
  obtain ⟨q, -, hq⟩ := h (.literal .null) site
  obtain ⟨result, hresult⟩ := hleaf (.literal .null) site
  exact nomatch hq.symm.trans hresult

end Generator

mutual

/-- A query written as plain JSON has that JSON form. -/
theorem Query.toJson_ofJson : ∀ v : Json, (Query.ofJson v).toJson = v
  | .object members => by rw [ofJson, toJson, toMembers_ofMembers members]
  | .array items => by rw [ofJson, toJson, toItems_ofItems items]
  | .null | .bool _ | .number _ | .string _ => rfl

theorem Query.toItems_ofItems : ∀ items : List Json, toItems (ofItems items) = items
  | [] => rfl
  | v :: rest => by rw [ofItems, toItems, Query.toJson_ofJson v, Query.toItems_ofItems rest]

theorem Query.toMembers_ofMembers :
    ∀ members : List (String × Json), toMembers (ofMembers members) = members
  | [] => rfl
  | (key, v) :: rest => by
      rw [ofMembers, toMembers, Query.toJson_ofJson v, Query.toMembers_ofMembers rest]

end

/-- An argument that is handed on arrives as it was. -/
theorem Argument.ofQuery_toQuery (a : Argument) : ofQuery a.toQuery = a := by
  cases a with
  | pattern p => rfl
  | literal value =>
      have hvalue : ofQuery (.ofJson value) = .literal (Query.ofJson value).toJson := by
        cases value <;> rfl
      rw [toQuery, hvalue, Query.toJson_ofJson]

theorem Generator.isAlias_forward (target : String) : (forward target).IsAlias target := by
  intro argument site
  refine ⟨argument.toQuery, argument.ofQuery_toQuery, ?_⟩
  change Generation.call target argument.toQuery _ = _
  congr 1
  funext result
  cases result with
  | ok e => rfl
  | error error => rfl

namespace Dictionary

/-- From one name to another in so many hops, each from an alias to the operator that
it stands for. -/
inductive Chain (d : Dictionary) : String → Nat → String → Prop where
  /-- No hop. -/
  | here (name : String) : Chain d name 0 name
  /-- One hop in front. -/
  | hop {name target last : String} {n : Nat} {g : Generator} (known : d.get? name = some g)
    (stands : g.IsAlias target) (rest : Chain d target n last) : Chain d name (n + 1) last

namespace Chain

variable {d : Dictionary}

/-- Aliases leave no choice: so many hops from a name lead to one name. -/
theorem unique {key s t : String} {n : Nat} (hs : d.Chain key n s) (ht : d.Chain key n t) :
    s = t := by
  induction hs with
  | here name =>
      cases ht
      rfl
  | hop known stands _ ih =>
      cases ht with
      | hop known' stands' rest' =>
          obtain rfl := Option.some.inj (known.symm.trans known')
          rw [← stands.target_eq stands'] at rest'
          exact ih rest'

end Chain

/-- What an operator gives for the result of its generator: an empty expression is
refused. -/
def checked (name : String) (result : Except CompileError Expr) : Except CompileError Expr := do
  let e ← result
  if e.isEmpty then .error (.emptyExpression name) else .ok e

variable {d : Dictionary} {limit : Nat}

/-- A result that is not empty passes. -/
theorem checked_of_nonempty {name : String} {result : Except CompileError Expr}
    (h : ∀ e, result = .ok e → e.isEmpty = false) : checked name result = result := by
  cases result with
  | error error => rfl
  | ok e =>
      change ite _ _ _ = _
      rw [if_neg (by simp [h e rfl])]

/-! ### One step -/

section Step

variable {site : Site} {g : Generator} (hget : d.get? site.operator = some g)

include hget

/-- A leaf gives what its generator gives, however many levels are left. -/
theorem result_resolveWithin_leaf (hleaf : g.IsLeaf) (levels : Nat) (q : Query) :
    ∃ result, g (.ofQuery q) site = .done result ∧
      (d.resolveWithin limit levels site q).result = checked site.operator result := by
  obtain ⟨result, hresult⟩ := hleaf (.ofQuery q) site
  refine ⟨result, hresult, ?_⟩
  rw [resolveWithin_eq_invoke, result_invoke hget, hresult]
  rfl

/-- An alias is refused its call when no level is left. -/
theorem result_resolveWithin_zero {target : String} (halias : g.IsAlias target) (q : Query) :
    (d.resolveWithin limit 0 site q).result = .error (.depthLimit target limit) := by
  obtain ⟨p, -, hcall⟩ := halias (.ofQuery q) site
  rw [resolveWithin, result_invoke hget, hcall]
  rfl

/-- Otherwise an alias gives what its target gives one level down. -/
theorem result_resolveWithin_succ {target : String} (halias : g.IsAlias target) (levels : Nat)
    (q : Query) :
    (d.resolveWithin limit (levels + 1) site q).result =
      (d.resolveWithin limit levels { site with operator := target, depth := site.depth + 1 }
        q).result := by
  obtain ⟨p, hp, hcall⟩ := halias (.ofQuery q) site
  rw [resolveWithin, result_invoke hget, hcall]
  change checked site.operator (d.resolveWithin limit levels _ p).result = _
  rw [resolveWithin_congr hp, checked_of_nonempty fun _ he => isEmpty_of_resolveWithin he]

end Step

/-- Without an operator of that name there is nothing but the error. -/
theorem result_resolveWithin_unknown {site : Site} (hget : d.get? site.operator = none)
    (levels : Nat) (q : Query) :
    (d.resolveWithin limit levels site q).result =
      .error (.unknownOperator site.operator d.keys) := by
  rw [resolveWithin_eq_invoke, invoke_unknown hget]
  rfl

/-! ### Whole chains -/

section Chain

variable {key name : String} {n levels depth : Nat} {q : Query} {field : Option String}
  {enclosing : Scope}

/-- A chain that reaches a leaf within the limit gives what the leaf gives, and the leaf
sees at which hop it is. -/
theorem result_resolveWithin_of_leaf (hchain : d.Chain key n name) (hn : n ≤ levels)
    {g : Generator} (hget : d.get? name = some g) (hleaf : g.IsLeaf) :
    ∃ result, g (.ofQuery q) ⟨name, enclosing, field, depth + n⟩ = .done result ∧
      (d.resolveWithin limit levels ⟨key, enclosing, field, depth⟩ q).result =
        checked name result := by
  induction hchain generalizing levels depth with
  | here name => exact result_resolveWithin_leaf hget hleaf levels q
  | @hop first target last n g' known stands rest ih =>
      obtain ⟨levels, rfl⟩ : ∃ fewer, levels = fewer + 1 := ⟨levels - 1, by omega⟩
      obtain ⟨result, hresult, hrest⟩ := @ih levels (depth + 1) (Nat.le_of_succ_le_succ hn) hget
      refine ⟨result, ?_, ?_⟩
      · rw [← hresult]
        congr 2
        omega
      · rw [result_resolveWithin_succ known stands]
        exact hrest

/-- A chain that reaches an unknown name within the limit fails with that name. -/
theorem result_resolveWithin_of_unknown (hchain : d.Chain key n name) (hn : n ≤ levels)
    (hget : d.get? name = none) :
    (d.resolveWithin limit levels ⟨key, enclosing, field, depth⟩ q).result =
      .error (.unknownOperator name d.keys) := by
  induction hchain generalizing levels depth with
  | here name => exact result_resolveWithin_unknown hget levels q
  | hop known stands rest ih =>
      obtain ⟨levels, rfl⟩ : ∃ fewer, levels = fewer + 1 := ⟨levels - 1, by omega⟩
      rw [result_resolveWithin_succ known stands]
      exact ih (Nat.le_of_succ_le_succ hn) hget

/-- A chain that meets aliases only, up to the limit, is refused the next hop, wherever
that leads. -/
theorem result_resolveWithin_of_hops
    (halias : ∀ n name, n ≤ levels → d.Chain key n name →
      ∃ g target, d.get? name = some g ∧ g.IsAlias target) :
    ∃ last, d.Chain key (levels + 1) last ∧
      (d.resolveWithin limit levels ⟨key, enclosing, field, depth⟩ q).result =
        .error (.depthLimit last limit) := by
  induction levels generalizing key depth with
  | zero =>
      obtain ⟨g, target, hget, hg⟩ := halias 0 key (Nat.le_refl 0) (.here key)
      exact ⟨target, .hop hget hg (.here target), result_resolveWithin_zero hget hg q⟩
  | succ levels ih =>
      obtain ⟨g, target, hget, hg⟩ := halias 0 key (Nat.zero_le _) (.here key)
      obtain ⟨last, hchain, hresult⟩ := @ih target (depth + 1) fun n name hn hchain =>
        halias (n + 1) name (Nat.succ_le_succ hn) (.hop hget hg hchain)
      refine ⟨last, .hop hget hg hchain, ?_⟩
      rw [result_resolveWithin_succ hget hg]
      exact hresult

end Chain

end Dictionary

/-! ## Compilers -/

namespace Compiler

/-- No generator runs at a depth beyond the compiler's limit.  Where all operators are
leaves or aliases, resolving one follows the chain of aliases: the leaf that it reaches
within the limit gives the result, an unknown name within the limit is reported with all
known ones, and otherwise the first hop beyond the limit is refused. -/
theorem bounded_composition (c : Compiler) :
    (∀ q, ∀ call ∈ (c.compilePredicate q).calls,
      call.site.depth ≤ c.options.maxDepth.toNat) ∧
    ((∀ name g, c.dictionary.get? name = some g → g.IsLeaf ∨ ∃ target, g.IsAlias target) →
      ∀ key q field enclosing,
        (∀ n name g, n ≤ c.options.maxDepth.toNat → c.dictionary.Chain key n name →
          c.dictionary.get? name = some g → g.IsLeaf →
          ∃ result, g (.ofQuery q) ⟨name, enclosing, field, n⟩ = .done result ∧
            (c.compilation.resolve key q field enclosing).result =
              Dictionary.checked name result) ∧
        (∀ n name, n ≤ c.options.maxDepth.toNat → c.dictionary.Chain key n name →
          c.dictionary.get? name = none →
          (c.compilation.resolve key q field enclosing).result =
            .error (.unknownOperator name c.dictionary.keys)) ∧
        ((∀ n name, n ≤ c.options.maxDepth.toNat → c.dictionary.Chain key n name →
            ∃ g, c.dictionary.get? name = some g ∧ ¬ g.IsLeaf) →
          ∃ last, c.dictionary.Chain key (c.options.maxDepth.toNat + 1) last ∧
            (c.compilation.resolve key q field enclosing).result =
              .error (.depthLimit last c.options.maxDepth.toNat))) := by
  refine ⟨fun q => ?_, fun hoperators key q field enclosing => ⟨?_, ?_, ?_⟩⟩
  · rw [calls_compilePredicate, Compilation.calls_run]
    refine Compilation.events_forM_ask_induction
      (P := fun events => ∀ call ∈ events.filterMap Event.call?,
        call.site.depth ≤ c.options.maxDepth.toNat)
      (fun _ hcall => absurd hcall List.not_mem_nil) (fun xs ys hxs hys => ?_) fun r _ => ?_
    · rw [List.filterMap_append]
      exact List.forall_mem_append.mpr ⟨hxs, hys⟩
    · change ∀ call ∈ (c.compilation.answerTo r).calls, _
      rw [Compilation.answerTo, Traced.calls_callsOnly]
      exact Dictionary.depth_resolveWithin (Nat.le_of_eq (Nat.zero_add _)) r.argument
  · intro n name g hn hchain hget hleaf
    have hyields : ∃ result, g (.ofQuery q) ⟨name, enclosing, field, 0 + n⟩ = .done result ∧
        (c.compilation.resolve key q field enclosing).result = Dictionary.checked name result :=
      Dictionary.result_resolveWithin_of_leaf hchain hn hget hleaf
    rwa [Nat.zero_add] at hyields
  · intro n name hn hchain hget
    exact Dictionary.result_resolveWithin_of_unknown hchain hn hget
  · intro hopen
    refine Dictionary.result_resolveWithin_of_hops fun n name hn hchain => ?_
    obtain ⟨g, hget, hnot⟩ := hopen n name hn hchain
    obtain ⟨target, hg⟩ := (hoperators name g hget).resolve_left hnot
    exact ⟨g, target, hget, hg⟩

end Compiler

namespace Stock

/-- An operator under two more names, two that stand for each other, and one that stands
for nothing. -/
def relays : Dictionary :=
  .ofList
    [("show", showScope), ("near", Generator.forward "show"), ("far", Generator.forward "near"),
      ("ping", Generator.forward "pong"), ("pong", Generator.forward "ping"),
      ("lost", Generator.forward "nowhere")]

/-- Every relay is a leaf or an alias. -/
theorem of_get?_relays {name : String} {g : Generator} (h : relays.get? name = some g) :
    g.IsLeaf ∨ ∃ target, g.IsAlias target := by
  have hmem : (name, g) ∈ [("show", showScope), ("near", Generator.forward "show"),
      ("far", Generator.forward "near"), ("ping", Generator.forward "pong"),
      ("pong", Generator.forward "ping"), ("lost", Generator.forward "nowhere")] :=
    OrderedMap.mem_entries_of_get? h
  simp only [List.mem_cons, Prod.mk.injEq, List.not_mem_nil, or_false] at hmem
  rcases hmem with ⟨-, rfl⟩ | ⟨-, rfl⟩ | ⟨-, rfl⟩ | ⟨-, rfl⟩ | ⟨-, rfl⟩ | ⟨-, rfl⟩
  · exact .inl fun _ _ => ⟨_, rfl⟩
  all_goals exact .inr ⟨_, Generator.isAlias_forward _⟩

end Stock

namespace Compiler

/-- A compiler for relays that may call each other twice in a row. -/
def relaying : Compiler := ⟨Stock.relays, { Options.standard with maxDepth := 2 }, by decide⟩

theorem bounded_composition_relaying :
    (∀ name g, relaying.dictionary.get? name = some g →
      g.IsLeaf ∨ ∃ target, g.IsAlias target) ∧
    (∀ call ∈ (relaying.compilePredicate (.all [("far", .scalar .null)])).calls,
      call.site.depth ≤ 2) ∧
    ∀ field enclosing,
      (relaying.compilation.resolve "far" (.scalar .null) field enclosing).result =
          .ok (.truthy (Site.scope ⟨"show", enclosing, field, 2⟩)) ∧
        (relaying.compilation.resolve "lost" (.scalar .null) field enclosing).result =
          .error (.unknownOperator "nowhere" ["show", "near", "far", "ping", "pong", "lost"]) ∧
        (relaying.compilation.resolve "ping" (.scalar .null) field enclosing).result =
          .error (.depthLimit "pong" 2) := by
  have hoperators : ∀ name g, relaying.dictionary.get? name = some g →
      g.IsLeaf ∨ ∃ target, g.IsAlias target := fun _ _ => Stock.of_get?_relays
  obtain ⟨hdepth, hresolve⟩ := bounded_composition relaying
  refine ⟨hoperators, hdepth _, fun field enclosing => ⟨?_, ?_, ?_⟩⟩
  · have hfar : relaying.dictionary.Chain "far" 2 "show" :=
      .hop rfl (Generator.isAlias_forward "near")
        (.hop rfl (Generator.isAlias_forward "show") (.here "show"))
    obtain ⟨result, hresult, hgiven⟩ := (hresolve hoperators "far" (.scalar .null) field
      enclosing).1 2 "show" Stock.showScope (Nat.le_refl 2) hfar rfl fun _ _ => ⟨_, rfl⟩
    rw [hgiven, ← Generation.done.inj hresult]
    rfl
  · have hlost : relaying.dictionary.Chain "lost" 1 "nowhere" :=
      .hop rfl (Generator.isAlias_forward "nowhere") (.here "nowhere")
    exact (hresolve hoperators "lost" (.scalar .null) field enclosing).2.1 1 "nowhere"
      (by decide) hlost rfl
  · have halias : ∀ key target, relaying.dictionary.get? key = some (Generator.forward target) →
        ∀ n last, relaying.dictionary.Chain target n last →
          relaying.dictionary.Chain key (n + 1) last :=
      fun _ target hget _ _ hrest => .hop hget (Generator.isAlias_forward target) hrest
    have hcircle : relaying.dictionary.Chain "ping" 1 "pong" ∧
        relaying.dictionary.Chain "ping" 2 "ping" ∧ relaying.dictionary.Chain "ping" 3 "pong" :=
      ⟨halias _ "pong" rfl _ _ (.here _),
        halias _ "pong" rfl _ _ (halias _ "ping" rfl _ _ (.here _)),
        halias _ "pong" rfl _ _ (halias _ "ping" rfl _ _ (halias _ "pong" rfl _ _ (.here _)))⟩
    have hopen : ∀ n name, n ≤ 2 → relaying.dictionary.Chain "ping" n name →
        ∃ g, relaying.dictionary.get? name = some g ∧ ¬ g.IsLeaf := by
      intro n name hn hchain
      have hforward : ∀ target, ¬ (Generator.forward target).IsLeaf := fun target =>
        (Generator.isAlias_forward target).not_isLeaf
      interval_cases n
      · rw [hchain.unique (.here _)]
        exact ⟨_, rfl, hforward "pong"⟩
      · rw [hchain.unique hcircle.1]
        exact ⟨_, rfl, hforward "ping"⟩
      · rw [hchain.unique hcircle.2.1]
        exact ⟨_, rfl, hforward "pong"⟩
    obtain ⟨last, hlast, hrefused⟩ :=
      (hresolve hoperators "ping" (.scalar .null) field enclosing).2.2 hopen
    rw [hrefused, hlast.unique hcircle.2.2]
    rfl

end Compiler

end Criteria
