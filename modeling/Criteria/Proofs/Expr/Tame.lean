import Criteria.Proofs.Expr.Flattening

/-!
# Tame tests

A kind of tests is tame when its tests leave the context alone and two of them
with the same scope and source always give the same answer.  Expressions over
tame tests have an answer of their own, independent of the order of evaluation:
a join is the conjunction or disjunction of the answers of its parts, and
expressions that are the same condition have the same answer.

* `Test.Tame`, `Expr.Over`: the two assumptions.
* `Connective.fold`: a connective applied to answers.
* `Expr.eval_of_over`, `Expr.evalParts_of_over`: evaluation by answers.
* `Expr.holds_of_same`: sameness implies equal answers.
-/

namespace Criteria

/-! ## Answers under a connective -/

namespace Connective

/-- Two answers joined. -/
def op : Connective → Bool → Bool → Bool
  | .and => (· && ·)
  | .or => (· || ·)

/-- Answers joined, starting from the answer that settles nothing. -/
def fold (c : Connective) (answers : List Bool) : Bool := answers.foldr c.op (!c.decisive)

theorem op_comm (c : Connective) (a b : Bool) : c.op a b = c.op b a := by
  cases c
  · exact Bool.and_comm a b
  · exact Bool.or_comm a b

theorem op_assoc (c : Connective) (a b d : Bool) : c.op (c.op a b) d = c.op a (c.op b d) := by
  cases c
  · exact Bool.and_assoc a b d
  · exact Bool.or_assoc a b d

@[simp] theorem op_self (c : Connective) (a : Bool) : c.op a a = a := by
  cases c
  · exact Bool.and_self a
  · exact Bool.or_self a

@[simp] theorem op_unit (c : Connective) (a : Bool) : c.op a (!c.decisive) = a := by
  cases c <;> cases a <;> rfl

@[simp] theorem unit_op (c : Connective) (a : Bool) : c.op (!c.decisive) a = a := by
  cases c <;> cases a <;> rfl

@[simp] theorem decisive_op (c : Connective) (a : Bool) : c.op c.decisive a = c.decisive := by
  cases c <;> cases a <;> rfl

/-- A condition in front of a join may be put in front of its parts: by
distributivity for a disjunction, by idempotence for a conjunction. -/
theorem and_op (c : Connective) (a b d : Bool) : (a && c.op b d) = c.op (a && b) (a && d) := by
  cases c <;> cases a <;> cases b <;> cases d <;> rfl

@[simp] theorem fold_nil (c : Connective) : c.fold [] = !c.decisive := rfl

@[simp] theorem fold_cons (c : Connective) (a : Bool) (rest : List Bool) :
    c.fold (a :: rest) = c.op a (c.fold rest) := rfl

@[simp] theorem fold_append (c : Connective) (xs ys : List Bool) :
    c.fold (xs ++ ys) = c.op (c.fold xs) (c.fold ys) := by
  induction xs with
  | nil => exact (c.unit_op _).symm
  | cons a rest ih => rw [List.cons_append, fold_cons, ih, fold_cons, op_assoc]

/-- The order of the answers does not matter. -/
theorem fold_perm (c : Connective) {xs ys : List Bool} (h : xs.Perm ys) :
    c.fold xs = c.fold ys := by
  induction h with
  | nil => rfl
  | cons a _ ih => rw [fold_cons, ih, fold_cons]
  | swap a b rest => rw [fold_cons, fold_cons, ← op_assoc, op_comm c b a, op_assoc]; rfl
  | trans _ _ ih₁ ih₂ => exact ih₁.trans ih₂

/-- A conjunction of answers holds when all of them do. -/
theorem fold_and_eq_true_iff {answers : List Bool} :
    Connective.and.fold answers = true ↔ ∀ a ∈ answers, a = true := by
  induction answers with
  | nil => exact ⟨fun _ _ h => absurd h List.not_mem_nil, fun _ => rfl⟩
  | cons a rest ih =>
      rw [fold_cons, List.forall_mem_cons, ← ih]
      exact Bool.and_eq_true_iff

/-- An answer that is there already adds nothing. -/
theorem fold_op_of_mem (c : Connective) {a : Bool} {answers : List Bool} (h : a ∈ answers) :
    c.op (c.fold answers) a = c.fold answers := by
  induction answers with
  | nil => exact absurd h List.not_mem_nil
  | cons b rest ih =>
      rw [fold_cons]
      rcases List.mem_cons.mp h with rfl | h
      · rw [op_comm, ← op_assoc, op_self]
      · rw [op_assoc, ih h]

end Connective

/-! ## Tame tests -/

/-- Tests of a kind leave the context alone, and the scope and source of a test
say what it answers. -/
structure Test.Tame (T : Test → Prop) : Prop where
  /-- No test changes the context. -/
  readOnly : ∀ t, T t → ∀ value context, (t.check value context).2 = context
  /-- Tests with equal scope and source agree. -/
  coherent : ∀ s t, T s → T t → s.scope = t.scope → s.source = t.source →
    ∀ value context, (s.check value context).1 = (t.check value context).1

/-- Fewer tests are tame if more are. -/
theorem Test.Tame.mono {S T : Test → Prop} (hT : Test.Tame T) (h : ∀ t, S t → T t) :
    Test.Tame S where
  readOnly t ht := hT.readOnly t (h t ht)
  coherent s t hs ht := hT.coherent s t (h s hs) (h t ht)

namespace Expr

/-- All tests of the expression are of a kind. -/
def Over (T : Test → Prop) (e : Expr) : Prop := ∀ t, .test t ∈ e.atoms → T t

section Over

variable {T : Test → Prop}

@[simp] theorem over_bool (b : Bool) : (bool b).Over T := by simp [Over]

@[simp] theorem over_truthy (s : Scope) : (truthy s).Over T := by simp [Over]

@[simp] theorem over_isObject (s : Scope) : (isObject s).Over T := by simp [Over]

@[simp] theorem over_test {t : Test} : (test t).Over T ↔ T t := by simp [Over]

@[simp] theorem over_not {e : Expr} : (not e).Over T ↔ e.Over T := Iff.rfl

theorem over_atomsOfAll {parts : List Expr} :
    (∀ t, test t ∈ atomsOfAll parts → T t) ↔ ∀ e ∈ parts, e.Over T := by
  constructor
  · exact fun h e he t ht => h t (mem_atomsOfAll.mpr ⟨e, he, ht⟩)
  · intro h t ht
    obtain ⟨e, he, hte⟩ := mem_atomsOfAll.mp ht
    exact h e he t hte

@[simp] theorem over_node {c : Connective} {parts : List Expr} :
    (node c parts).Over T ↔ ∀ e ∈ parts, e.Over T := over_atomsOfAll

@[simp] theorem over_combine {c : Connective} {parts : List Expr} :
    (c.combine parts).Over T ↔ ∀ e ∈ parts, e.Over T := by
  rw [Over, atoms_combine, over_atomsOfAll]

@[simp] theorem over_all {parts : List Expr} :
    (Expr.all parts).Over T ↔ ∀ e ∈ parts, e.Over T := over_combine

theorem Over.pair {c : Connective} {d e : Expr} (hd : d.Over T) (he : e.Over T) :
    (c.combine [d, e]).Over T :=
  over_combine.mpr (List.forall_mem_cons.mpr ⟨hd, List.forall_mem_singleton.mpr he⟩)

theorem Over.of_mem_terms {e t : Expr} (h : e.Over T) (ht : t ∈ e.terms) : t.Over T :=
  fun s hs => h s (mem_atoms_of_mem_terms ht hs)

end Over

/-! ## Answers -/

/-- The answer of an expression in a context. -/
def holds (input : Option Json) (context : Context) (e : Expr) : Bool := (eval input e context).1

section Tame

variable {T : Test → Prop} {input : Option Json} {context : Context}

/-- Tame tests leave the context as it is. -/
theorem eval_snd_of_over (hT : Test.Tame T) {e : Expr} (h : e.Over T) :
    (eval input e context).2 = context := by
  induction e with
  | test t => exact hT.readOnly t (over_test.mp h) _ _
  | not inner ih => exact ih h
  | node c parts ih =>
      rw [over_node] at h
      rw [eval_node]
      induction parts with
      | nil => rfl
      | cons e rest ih_rest =>
          have hafter := ih e List.mem_cons_self (h e List.mem_cons_self)
          rw [evalParts_cons, hafter]
          split
          · exact hafter
          · exact ih_rest (fun e he => ih e (List.mem_cons_of_mem _ he))
              fun e he => h e (List.mem_cons_of_mem _ he)
  | _ => rfl

theorem eval_of_over (hT : Test.Tame T) {e : Expr} (h : e.Over T) :
    eval input e context = (holds input context e, context) :=
  Prod.ext rfl (eval_snd_of_over hT h)

/-- Parts over tame tests answer by their answers. -/
theorem evalParts_of_over (hT : Test.Tame T) {c : Connective} {parts : List Expr}
    (h : ∀ e ∈ parts, e.Over T) :
    evalParts input c parts context = (c.fold (parts.map (holds input context)), context) := by
  induction parts with
  | nil => rfl
  | cons e rest ih =>
      have he : eval input e context = (holds input context e, context) :=
        eval_of_over hT (h e List.mem_cons_self)
      rw [List.map_cons, Connective.fold_cons]
      by_cases hd : holds input context e = c.decisive
      · rw [evalParts_cons_of_eq _ hd, he, hd, Connective.decisive_op]
      · rw [evalParts_cons_of_ne _ hd, he, ih fun e he => h e (List.mem_cons_of_mem _ he),
          Bool.eq_not_of_ne hd, Connective.unit_op]

theorem holds_node (hT : Test.Tame T) {c : Connective} {parts : List Expr}
    (h : ∀ e ∈ parts, e.Over T) :
    holds input context (.node c parts) = c.fold (parts.map (holds input context)) :=
  congrArg Prod.fst (evalParts_of_over hT h)

theorem holds_combine (hT : Test.Tame T) {c : Connective} {parts : List Expr}
    (h : ∀ e ∈ parts, e.Over T) :
    holds input context (c.combine parts) = c.fold (parts.map (holds input context)) := by
  rw [holds, eval_combine, evalParts_of_over hT h]

/-- An expression holds when all of its terms do. -/
theorem holds_eq_fold_terms (hT : Test.Tame T) {e : Expr} (h : e.Over T) :
    holds input context e = Connective.and.fold (e.terms.map (holds input context)) := by
  rw [holds, ← evalParts_terms, evalParts_of_over hT fun t ht => h.of_mem_terms ht]

/-- Expressions that are the same condition have the same answer. -/
theorem holds_of_same (hT : Test.Tame T) {d e : Expr} (hd : d.Over T) (he : e.Over T)
    (h : (d == e) = true) : holds input context d = holds input context e := by
  change d.same e = true at h
  induction d generalizing e with
  | bool b => cases e <;> simp_all [same]
  | truthy s => cases e <;> simp_all [same]
  | isObject s => cases e <;> simp_all [same]
  | test s =>
      cases e with
      | test t =>
          simp only [same, Test.same, Bool.and_eq_true, beq_iff_eq] at h
          change (s.check _ _).1 = (t.check _ _).1
          rw [h.1]
          exact hT.coherent s t (over_test.mp hd) (over_test.mp he) h.1 h.2 _ _
      | _ => simp [same] at h
  | not inner ih =>
      cases e with
      | not other => exact congrArg Bool.not (ih hd he h)
      | _ => simp [same] at h
  | node c xs ih =>
      cases e with
      | node c' ys =>
          simp only [same, Bool.and_eq_true, beq_iff_eq] at h
          obtain ⟨rfl, h⟩ := h
          rw [over_node] at hd he
          rw [holds_node hT hd, holds_node hT he]
          congr 1
          -- The two lists are walked together.
          induction xs generalizing ys with
          | nil => cases ys <;> simp_all [sameParts]
          | cons x xs ih_rest =>
              cases ys with
              | nil => simp [sameParts] at h
              | cons y ys =>
                  simp only [sameParts, Bool.and_eq_true] at h
                  simp only [List.map_cons, List.cons.injEq]
                  exact ⟨ih x List.mem_cons_self (hd x List.mem_cons_self)
                      (he y List.mem_cons_self) h.1,
                    ih_rest (fun e he => ih e (List.mem_cons_of_mem _ he))
                      (fun e he => hd e (List.mem_cons_of_mem _ he)) ys h.2
                      (fun e h => he e (List.mem_cons_of_mem _ h))⟩
      | _ => simp [same] at h

end Tame

end Expr

end Criteria
