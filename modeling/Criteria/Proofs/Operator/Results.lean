import Criteria.Operator.Resolve
import Criteria.Operator.Stock
import Criteria.Proofs.Expr.Tame

/-!
# What operators give

The expressions that the operators of a dictionary give when a query asks for
them.  A statement about all of them needs to look at single generators only:
what every generator keeps, given that the operators it calls keep it, holds of
every result, however deep operators call each other.

* `Dictionary.isEmpty_of_resolve`: no operator gives an empty expression.
* `Dictionary.property_of_resolve`: the induction over calls.
* `Dictionary.MakesUnder`: the tests in such expressions, below an entry name.
* `Dictionary.Local`: all guards and tests look at the value under test.
* `Stock.gives_literal`, `Stock.gives_text`: operators that refuse some arguments.
-/

namespace Criteria

namespace Generation

/-- A generator gives only expressions with a property, as long as the operators
it calls do. -/
def Gives (P : Expr → Prop) : Generation → Prop
  | .done (.ok e) => P e
  | .done (.error _) => True
  | .call _ _ next => ∀ result, (∀ e, result = .ok e → P e) → (next result).Gives P

variable {P : Expr → Prop}

/-- Calling another operator and handing its error on. -/
theorem gives_ask {key : String} {argument : Query} {next : Expr → Generation}
    (h : ∀ e, P e → (next e).Gives P) : (ask key argument next).Gives P := by
  intro result hresult
  cases result with
  | ok e => exact h e (hresult e rfl)
  | error e => exact trivial

/-- What a generator gives when the calls are answered. -/
theorem Gives.of_result_run {answer : String → Query → Traced Expr}
    (ha : ∀ key q e, (answer key q).result = .ok e → P e) {g : Generation} (h : g.Gives P)
    {e : Expr} (he : (g.run answer).result = .ok e) : P e := by
  induction g with
  | done result =>
      obtain rfl : result = .ok e := he
      exact h
  | call key argument next ih =>
      exact ih _ (h _ (ha key argument)) he

end Generation

namespace Dictionary

variable {d : Dictionary} {limit : Nat}

/-! ## Results of a call -/

/-- An operator that gives a result is known, and the result is its generator's
and not empty. -/
theorem invoke_eq_ok {answer : String → Query → Traced Expr} {site : Site} {argument : Argument}
    {e : Expr} (h : (d.invoke answer site argument).result = .ok e) :
    ∃ generator, d.get? site.operator = some generator ∧
      ((generator argument site).run answer).result = .ok e ∧ e.isEmpty = false := by
  cases hget : d.get? site.operator with
  | none =>
      rw [invoke_unknown hget] at h
      exact nomatch h
  | some generator =>
      refine ⟨generator, rfl, ?_⟩
      rw [result_invoke hget] at h
      cases hrun : ((generator argument site).run answer).result with
      | error error =>
          rw [hrun] at h
          exact nomatch h
      | ok f =>
          rw [hrun] at h
          by_cases hempty : f.isEmpty = true
          · exact nomatch (if_pos hempty).symm.trans h
          · obtain rfl : f = e := Except.ok.inj ((if_neg hempty).symm.trans h)
            exact ⟨rfl, Bool.eq_false_iff.mpr hempty⟩

theorem isEmpty_of_resolveWithin {levels : Nat} {site : Site} {q : Query} {e : Expr}
    (h : (d.resolveWithin limit levels site q).result = .ok e) : e.isEmpty = false := by
  rw [resolveWithin_eq_invoke] at h
  obtain ⟨-, -, -, hempty⟩ := invoke_eq_ok h
  exact hempty

/-- No operator gives an empty expression. -/
theorem isEmpty_of_resolve {key : String} {q : Query} {field : Option String} {enclosing : Scope}
    {e : Expr} (h : (d.resolve limit key q field enclosing).result = .ok e) :
    e.isEmpty = false := isEmpty_of_resolveWithin h

/-- A property that all generators keep at a place holds of all results there. -/
theorem property_of_resolve {P : Expr → Prop} {field : Option String} {enclosing : Scope}
    (h : ∀ key generator, d.get? key = some generator →
      ∀ argument depth, (generator argument ⟨key, enclosing, field, depth⟩).Gives P)
    {key : String} {q : Query} {e : Expr}
    (he : (d.resolve limit key q field enclosing).result = .ok e) : P e := by
  suffices hlevels : ∀ levels key depth q e,
      (d.resolveWithin limit levels ⟨key, enclosing, field, depth⟩ q).result = .ok e → P e from
    hlevels _ _ _ _ _ he
  intro levels
  induction levels with
  | zero =>
      intro key depth q e he
      obtain ⟨generator, hget, hrun, -⟩ := invoke_eq_ok he
      exact (h key generator hget _ _).of_result_run (fun _ _ _ hcall => nomatch hcall) hrun
  | succ levels ih =>
      intro key depth q e he
      obtain ⟨generator, hget, hrun, -⟩ := invoke_eq_ok he
      exact (h key generator hget _ _).of_result_run (fun key q e => ih key (depth + 1) q e) hrun

end Dictionary

/-! ## Assumptions on dictionaries -/

/-- All guards and tests of an expression look at the value at one scope. -/
def Expr.At (scope : Scope) (e : Expr) : Prop :=
  ∀ a ∈ e.atoms, ∀ s, a.scope? = some s → s = scope

namespace Expr

theorem at_truthy (scope : Scope) : (truthy scope).At scope := by
  intro a ha s hs
  cases List.mem_singleton.mp ha
  exact (Option.some.inj hs).symm

theorem at_testAt (scope : Scope) (source : String) (check : Check) :
    (testAt scope source check).At scope := by
  intro a ha s hs
  cases List.mem_singleton.mp ha
  exact (Option.some.inj hs).symm

theorem at_not {scope : Scope} {e : Expr} (h : e.At scope) : (not e).At scope := h

theorem at_combine {scope : Scope} {c : Connective} {parts : List Expr}
    (h : ∀ e ∈ parts, e.At scope) : (c.combine parts).At scope := by
  intro a ha
  rw [atoms_combine] at ha
  obtain ⟨e, he, hae⟩ := mem_atomsOfAll.mp ha
  exact h e he a hae

end Expr

namespace Dictionary

/-- The tests that stand in results of the dictionary's operators below an entry
name. -/
def MakesUnder (d : Dictionary) (limit : Nat) (entryName : String) (t : Test) : Prop :=
  ∃ key q field path e,
    (d.resolve limit key q field ⟨entryName, path⟩).result = .ok e ∧ .test t ∈ e.atoms

/-- Below an entry name, the results of the dictionary's operators look at the value
under test only. -/
def Local (d : Dictionary) (limit : Nat) (entryName : String) : Prop :=
  ∀ key q field path e, (d.resolve limit key q field ⟨entryName, path⟩).result = .ok e →
    e.At (Site.scope ⟨key, ⟨entryName, path⟩, field, 0⟩)

end Dictionary

/-! ## Arguments of stock operators -/

namespace Stock

section Arguments

variable {P : Expr → Prop} {argument : Argument} {site : Site}

/-- What an operator gives for a value; it refuses patterns. -/
theorem gives_literal {next : Json → Generation}
    (h : ∀ value, argument = .literal value → (next value).Gives P) :
    (withLiteral next argument site).Gives P := by
  cases argument with
  | literal value => exact h value rfl
  | pattern p => exact trivial

/-- What an operator gives for a text; it refuses everything else. -/
theorem gives_text {next : String → Generation}
    (h : ∀ text, argument = .literal (.string text) → (next text).Gives P) :
    (withText next argument site).Gives P := by
  cases argument with
  | literal value =>
      cases value with
      | string text => exact h text rfl
      | _ => exact trivial
  | pattern p => exact trivial

end Arguments

end Stock

end Criteria
