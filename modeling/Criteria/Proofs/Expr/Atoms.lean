import Criteria.Expr.Factor

/-!
# Atoms of expressions

The conditions an expression is made of: constants, guards and tests, one entry
for every occurrence, in the order of the text.  Flattening rearranges nodes and
leaves the atoms alone, so a fact about all atoms passes through
`Connective.combine` and `Expr.terms` in both directions.

* `Expr.atoms_combine`, `Expr.atomsOfAll_terms`: flattening keeps the atoms.
* `Expr.isEmpty_iff_atoms_eq_nil`: an expression without any condition is one
  without atoms.
* `Expr.same_refl`, `Expr.sameParts_atoms`: every expression is the same condition
  as itself, and the same conditions have the same atoms.
-/

namespace Criteria

namespace Expr

/-! ## Induction

The recursor of `Expr` speaks about lists of parts separately.  This principle
hands the hypothesis out for the members of a node. -/

/-- Structural induction, with the hypothesis for every part of a node. -/
@[elab_as_elim, induction_eliminator]
theorem induct {motive : Expr → Prop} (bool : ∀ b, motive (.bool b))
    (truthy : ∀ s, motive (.truthy s)) (isObject : ∀ s, motive (.isObject s))
    (test : ∀ t, motive (.test t)) (not : ∀ inner, motive inner → motive (.not inner))
    (node : ∀ c parts, (∀ e ∈ parts, motive e) → motive (.node c parts)) (e : Expr) :
    motive e := by
  refine @Expr.rec motive (fun parts => ∀ e ∈ parts, motive e) bool truthy isObject test not
    node ?_ ?_ e
  · exact fun e h => absurd h List.not_mem_nil
  · intro first rest hfirst hrest e h
    rcases List.mem_cons.mp h with rfl | h
    · exact hfirst
    · exact hrest e h

/-! ## Atoms -/

mutual

/-- The constants, guards and tests of an expression, in order. -/
def atoms : Expr → List Expr
  | .not inner => atoms inner
  | .node _ parts => atomsOfAll parts
  | e => [e]

/-- The atoms of several expressions, one after another. -/
def atomsOfAll : List Expr → List Expr
  | [] => []
  | e :: rest => atoms e ++ atomsOfAll rest

end

/-- The scope that an atom looks at. -/
def scope? : Expr → Option Scope
  | .truthy s | .isObject s => some s
  | .test t => some t.scope
  | _ => none

@[simp] theorem atoms_bool (b : Bool) : atoms (.bool b) = [.bool b] := rfl

@[simp] theorem atoms_truthy (s : Scope) : atoms (.truthy s) = [.truthy s] := rfl

@[simp] theorem atoms_isObject (s : Scope) : atoms (.isObject s) = [.isObject s] := rfl

@[simp] theorem atoms_test (t : Test) : atoms (.test t) = [.test t] := rfl

@[simp] theorem atoms_not (e : Expr) : atoms (.not e) = e.atoms := rfl

@[simp] theorem atoms_node (c : Connective) (parts : List Expr) :
    atoms (.node c parts) = atomsOfAll parts := rfl

@[simp] theorem atomsOfAll_nil : atomsOfAll [] = [] := rfl

@[simp] theorem atomsOfAll_cons (e : Expr) (rest : List Expr) :
    atomsOfAll (e :: rest) = e.atoms ++ atomsOfAll rest := rfl

@[simp] theorem atomsOfAll_append (xs ys : List Expr) :
    atomsOfAll (xs ++ ys) = atomsOfAll xs ++ atomsOfAll ys := by
  induction xs with
  | nil => rfl
  | cons e rest ih => rw [List.cons_append, atomsOfAll_cons, ih, atomsOfAll_cons, List.append_assoc]

theorem mem_atomsOfAll {a : Expr} {parts : List Expr} :
    a ∈ atomsOfAll parts ↔ ∃ e ∈ parts, a ∈ e.atoms := by
  induction parts with
  | nil => simp
  | cons e rest ih => simp [ih]

/-! ## Flattening -/

/-- Splicing keeps the atoms. -/
@[simp] theorem atomsOfAll_operands (c : Connective) (e : Expr) :
    atomsOfAll (e.operands c) = e.atoms := by
  cases e with
  | node d parts =>
      simp only [operands]
      split
      · rfl
      · simp
  | _ => simp [operands]

theorem atomsOfAll_flatMap_operands (c : Connective) (parts : List Expr) :
    atomsOfAll (parts.flatMap (operands c)) = atomsOfAll parts := by
  induction parts with
  | nil => rfl
  | cons e rest ih => simp [List.flatMap_cons, ih]

/-- Joining keeps the atoms. -/
@[simp] theorem atoms_combine (c : Connective) (parts : List Expr) :
    (c.combine parts).atoms = atomsOfAll parts := by
  rw [← atomsOfAll_flatMap_operands c parts, Connective.combine]
  split
  · rename_i only h
    rw [h]
    simp
  · rfl

@[simp] theorem atoms_all (parts : List Expr) : (Expr.all parts).atoms = atomsOfAll parts :=
  atoms_combine .and parts

/-- The terms of several expressions are those of each. -/
theorem termsOfAll_eq_flatMap (parts : List Expr) : termsOfAll parts = parts.flatMap terms := by
  induction parts with
  | nil => rfl
  | cons e rest ih => rw [termsOfAll, ih, List.flatMap_cons]

/-- Reading an expression as a chain of terms keeps the atoms. -/
@[simp] theorem atomsOfAll_terms (e : Expr) : atomsOfAll e.terms = e.atoms := by
  induction e with
  | node c parts ih =>
      cases c with
      | or => simp [terms]
      | and =>
          rw [terms, termsOfAll_eq_flatMap, atoms_node]
          induction parts with
          | nil => rfl
          | cons e rest ih_rest =>
              rw [List.flatMap_cons, atomsOfAll_append, ih e List.mem_cons_self,
                ih_rest fun e he => ih e (List.mem_cons_of_mem _ he), atomsOfAll_cons]
  | _ => simp [terms]

/-- The atoms of a term are atoms of the expression. -/
theorem mem_atoms_of_mem_terms {e t a : Expr} (ht : t ∈ e.terms) (ha : a ∈ t.atoms) :
    a ∈ e.atoms := by
  rw [← atomsOfAll_terms]
  exact mem_atomsOfAll.mpr ⟨t, ht, ha⟩

theorem allEmpty_eq_all (parts : List Expr) : allEmpty parts = parts.all isEmpty := by
  induction parts with
  | nil => rfl
  | cons e rest ih => rw [allEmpty, ih, List.all_cons]

/-- An expression without any condition is one without atoms. -/
theorem isEmpty_iff_atoms_eq_nil {e : Expr} : e.isEmpty = true ↔ e.atoms = [] := by
  induction e with
  | not inner ih => exact ih
  | node c parts ih =>
      rw [isEmpty, allEmpty_eq_all, List.all_eq_true, atoms_node, List.eq_nil_iff_forall_not_mem]
      constructor
      · intro h a ha
        obtain ⟨e, he, hae⟩ := mem_atomsOfAll.mp ha
        rw [(ih e he).mp (h e he)] at hae
        exact List.not_mem_nil hae
      · intro h e he
        rw [ih e he, List.eq_nil_iff_forall_not_mem]
        exact fun a hae => h a (mem_atomsOfAll.mpr ⟨e, he, hae⟩)
  | _ => simp [isEmpty, atoms]

/-- An expression with a condition has a term. -/
theorem terms_ne_nil {e : Expr} (h : e.atoms ≠ []) : e.terms ≠ [] := fun hnil =>
  h (by rw [← atomsOfAll_terms, hnil, atomsOfAll_nil])

/-! ## Sameness -/

/-- Every expression is the same condition as itself. -/
theorem same_refl (e : Expr) : e.same e = true := by
  induction e with
  | node c parts ih =>
      suffices sameParts parts parts = true by simpa [same]
      induction parts with
      | nil => rfl
      | cons e rest ih_rest =>
          simp only [sameParts, ih e List.mem_cons_self, Bool.true_and]
          exact ih_rest fun e he => ih e (List.mem_cons_of_mem _ he)
  | _ => simp_all [same, Test.same]

instance : ReflBEq Expr := ⟨same_refl _⟩

theorem sameParts_append {xs ys xs' ys' : List Expr} (h : sameParts xs ys = true)
    (h' : sameParts xs' ys' = true) : sameParts (xs ++ xs') (ys ++ ys') = true := by
  induction xs generalizing ys with
  | nil =>
      cases ys with
      | nil => exact h'
      | cons y ys => simp [sameParts] at h
  | cons x xs ih =>
      cases ys with
      | nil => simp [sameParts] at h
      | cons y ys =>
          simp only [sameParts, Bool.and_eq_true] at h
          simp only [List.cons_append, sameParts, Bool.and_eq_true]
          exact ⟨h.1, ih h.2⟩

theorem ne_nil_of_sameParts {xs ys : List Expr} (h : sameParts xs ys = true) (hx : xs ≠ []) :
    ys ≠ [] := by
  rintro rfl
  cases xs with
  | nil => exact hx rfl
  | cons x xs => simp [sameParts] at h

/-- Expressions that are the same condition have the same atoms. -/
theorem sameParts_atoms {d e : Expr} (h : d.same e = true) :
    sameParts d.atoms e.atoms = true := by
  induction d generalizing e with
  | not inner ih =>
      cases e with
      | not other => exact ih (e := other) h
      | _ => simp [same] at h
  | node c xs ih =>
      cases e with
      | node c' ys =>
          simp only [same, Bool.and_eq_true] at h
          rw [atoms_node, atoms_node]
          replace h := h.2
          induction xs generalizing ys with
          | nil => cases ys <;> simp_all [sameParts]
          | cons x xs ih_rest =>
              cases ys with
              | nil => simp [sameParts] at h
              | cons y ys =>
                  simp only [sameParts, Bool.and_eq_true] at h
                  exact sameParts_append (ih x List.mem_cons_self h.1)
                    (ih_rest (fun e he => ih e (List.mem_cons_of_mem _ he)) ys h.2)
      | _ => simp [same] at h
  | _ => cases e <;> simp_all [same, sameParts, atoms]

end Expr

end Criteria
