import Criteria.Expr.Eval
import Criteria.Proofs.Expr.Atoms

/-!
# Evaluation and flattening

Evaluation goes through parts from left to right and hands the context on.
Splicing nested nodes, unwrapping single parts and reading an expression as its
chain of terms change none of that: the same atoms are evaluated in the same
order, whatever the tests do to the context.

* `Expr.evalParts_append`: parts in two runs, one after the other.
* `Expr.run_allM_eval`, `Expr.run_anyM_eval`: parts are asked one after another, with
  the context as the state, until one settles the answer.
* `Expr.eval_combine`, `Expr.evalParts_terms`, `Expr.eval_flattened`: flattening keeps
  the answer and the context.
* `Expr.reached`: the atoms that an evaluation comes to, in order.
* `Expr.reached_combine`, `Expr.reachedParts_terms`: flattening keeps those too.
-/

namespace Criteria.Expr

variable {input : Option Json} {c : Connective} {context : Context}

/-! ## Answer and context -/

@[simp] theorem eval_bool (b : Bool) : eval input (.bool b) context = (b, context) := rfl

@[simp] theorem eval_truthy (s : Scope) :
    eval input (.truthy s) context = (Json.truthy (s.resolve input), context) := rfl

@[simp] theorem eval_isObject (s : Scope) :
    eval input (.isObject s) context = (Json.typeOf (s.resolve input) == "object", context) := rfl

@[simp] theorem eval_test (t : Test) : eval input (.test t) context = t.run input context := rfl

@[simp] theorem eval_not (e : Expr) :
    eval input (.not e) context = (!(eval input e context).1, (eval input e context).2) := rfl

@[simp] theorem eval_node (parts : List Expr) :
    eval input (.node c parts) context = evalParts input c parts context := rfl

@[simp] theorem evalParts_nil : evalParts input c [] context = (!c.decisive, context) := rfl

theorem evalParts_cons (e : Expr) (rest : List Expr) :
    evalParts input c (e :: rest) context =
      if (eval input e context).1 = c.decisive then eval input e context
      else evalParts input c rest (eval input e context).2 := rfl

/-- A part that settles the answer is the last one. -/
theorem evalParts_cons_of_eq {e : Expr} (rest : List Expr)
    (h : (eval input e context).1 = c.decisive) :
    evalParts input c (e :: rest) context = eval input e context := by
  rw [evalParts_cons, if_pos h]

/-- After a part that leaves the answer open the rest goes on. -/
theorem evalParts_cons_of_ne {e : Expr} (rest : List Expr)
    (h : (eval input e context).1 ≠ c.decisive) :
    evalParts input c (e :: rest) context = evalParts input c rest (eval input e context).2 := by
  rw [evalParts_cons, if_neg h]

/-- A single part gives its own answer. -/
@[simp] theorem evalParts_singleton (e : Expr) :
    evalParts input c [e] context = eval input e context := by
  by_cases h : (eval input e context).1 = c.decisive
  · exact evalParts_cons_of_eq [] h
  · rw [evalParts_cons_of_ne [] h, evalParts_nil]
    exact Prod.ext (Bool.eq_not_of_ne h).symm rfl

/-- Two parts: the second goes on where the first leaves the answer open. -/
theorem evalParts_pair (d e : Expr) :
    evalParts input c [d, e] context =
      if (eval input d context).1 = c.decisive then eval input d context
      else eval input e (eval input d context).2 := by
  rw [evalParts_cons, evalParts_singleton]

/-- Parts in two runs: the second goes on where the first leaves the answer
open. -/
theorem evalParts_append (xs ys : List Expr) :
    evalParts input c (xs ++ ys) context =
      if (evalParts input c xs context).1 = c.decisive then evalParts input c xs context
      else evalParts input c ys (evalParts input c xs context).2 := by
  induction xs generalizing context with
  | nil => cases c <;> rfl
  | cons e rest ih =>
      rw [List.cons_append]
      by_cases h : (eval input e context).1 = c.decisive
      · rw [evalParts_cons_of_eq _ h, evalParts_cons_of_eq _ h, if_pos h]
      · rw [evalParts_cons_of_ne _ h, evalParts_cons_of_ne _ h]
        exact ih

/-- The operands of a part run like the part. -/
theorem evalParts_operands (e : Expr) :
    evalParts input c (e.operands c) context = eval input e context := by
  cases e with
  | node d parts =>
      simp only [operands]
      split
      · rename_i h
        rw [eval_node, h]
      · exact evalParts_singleton _
  | _ => exact evalParts_singleton _

theorem evalParts_flatMap_operands (parts : List Expr) :
    evalParts input c (parts.flatMap (operands c)) context = evalParts input c parts context := by
  induction parts generalizing context with
  | nil => rfl
  | cons e rest ih =>
      rw [List.flatMap_cons, evalParts_append, evalParts_operands, ih, evalParts_cons]

/-- Joining parts keeps the answer and the context. -/
theorem eval_combine (parts : List Expr) :
    eval input (c.combine parts) context = evalParts input c parts context := by
  rw [← evalParts_flatMap_operands, Connective.combine]
  split
  · rename_i only h
    rw [h, evalParts_singleton]
  · rfl

theorem eval_all (parts : List Expr) :
    eval input (Expr.all parts) context = evalParts input .and parts context := eval_combine parts

/-- The chain of terms runs like the expression. -/
theorem evalParts_terms (e : Expr) :
    evalParts input .and e.terms context = eval input e context := by
  induction e generalizing context with
  | node d parts ih =>
      cases d with
      | or => exact evalParts_singleton _
      | and =>
          rw [terms, termsOfAll_eq_flatMap, eval_node]
          induction parts generalizing context with
          | nil => rfl
          | cons e rest ih_rest =>
              rw [List.flatMap_cons, evalParts_append, ih e List.mem_cons_self,
                ih_rest fun e he => ih e (List.mem_cons_of_mem _ he), evalParts_cons]
  | _ => exact evalParts_singleton _

/-- An expression as a computation with the context as its state. -/
theorem run_eval (e : Expr) :
    StateT.run (m := Id) (eval input e) context = eval input e context := rfl

/-- Parts of a conjunction are asked from left to right, up to the first that fails. -/
theorem run_allM_eval (parts : List Expr) :
    (parts.allM (m := StateM Context) (eval input)).run context =
      evalParts input .and parts context := by
  induction parts generalizing context with
  | nil => rfl
  | cons e rest ih =>
      rw [List.allM, StateT.run_bind, run_eval, evalParts_cons]
      rcases eval input e context with ⟨answer, after⟩
      cases answer with
      | true => exact ih
      | false => rfl

/-- Parts of a disjunction are asked from left to right, up to the first that holds. -/
theorem run_anyM_eval (parts : List Expr) :
    (parts.anyM (m := StateM Context) (eval input)).run context =
      evalParts input .or parts context := by
  induction parts generalizing context with
  | nil => rfl
  | cons e rest ih =>
      rw [List.anyM, StateT.run_bind, run_eval, evalParts_cons]
      rcases eval input e context with ⟨answer, after⟩
      cases answer with
      | true => rfl
      | false => exact ih

/-- Joined parts give the answer of the node that holds them as they are, and leave its
context, which are those of asking the parts from left to right; and so does asking the terms
of an expression from left to right, up to the first that fails, instead of the expression. -/
theorem eval_flattened (input : Option Json) (context : Context) :
    (∀ parts : List Expr,
      ((Expr.all parts).eval input context = (Expr.node .and parts).eval input context ∧
        (Expr.node .and parts).eval input context =
          (parts.allM (m := StateM Context) (eval input)).run context) ∧
      (Expr.any parts).eval input context = (Expr.node .or parts).eval input context ∧
        (Expr.node .or parts).eval input context =
          (parts.anyM (m := StateM Context) (eval input)).run context) ∧
    ∀ e : Expr,
      e.eval input context = (e.terms.allM (m := StateM Context) (eval input)).run context := by
  refine ⟨fun parts => ⟨⟨?_, ?_⟩, ?_, ?_⟩, fun e => ?_⟩
  · rw [eval_all, eval_node]
  · rw [run_allM_eval, eval_node]
  · rw [any, eval_combine, eval_node]
  · rw [run_anyM_eval, eval_node]
  · rw [run_allM_eval, evalParts_terms]

/-! ## Reached atoms -/

mutual

/-- The atoms that an evaluation comes to, in order: those behind a part that
settles the answer are left out. -/
def reached (input : Option Json) : Expr → Context → List Expr
  | .not inner, context => reached input inner context
  | .node connective parts, context => reachedParts input connective parts context
  | e, _ => [e]

/-- The atoms that are come to in parts evaluated from left to right. -/
def reachedParts (input : Option Json) (connective : Connective) :
    List Expr → Context → List Expr
  | [], _ => []
  | e :: rest, context =>
    let (answer, after) := eval input e context
    reached input e context
      ++ if answer = connective.decisive then [] else reachedParts input connective rest after

end

@[simp] theorem reached_not (e : Expr) :
    reached input (.not e) context = reached input e context := rfl

@[simp] theorem reached_node (parts : List Expr) :
    reached input (.node c parts) context = reachedParts input c parts context := rfl

@[simp] theorem reachedParts_nil : reachedParts input c [] context = [] := rfl

theorem reachedParts_cons (e : Expr) (rest : List Expr) :
    reachedParts input c (e :: rest) context =
      reached input e context ++
        if (eval input e context).1 = c.decisive then []
        else reachedParts input c rest (eval input e context).2 := rfl

@[simp] theorem reachedParts_singleton (e : Expr) :
    reachedParts input c [e] context = reached input e context := by
  rw [reachedParts_cons, reachedParts_nil, ite_self, List.append_nil]

theorem reachedParts_pair (d e : Expr) :
    reachedParts input c [d, e] context =
      reached input d context ++
        if (eval input d context).1 = c.decisive then []
        else reached input e (eval input d context).2 := by
  rw [reachedParts_cons, reachedParts_singleton]

/-- Only atoms of the expression are reached. -/
theorem mem_atoms_of_mem_reached {e a : Expr} (h : a ∈ reached input e context) : a ∈ e.atoms := by
  induction e generalizing context with
  | not inner ih => exact ih h
  | node d parts ih =>
      rw [reached_node] at h
      rw [atoms_node]
      induction parts generalizing context with
      | nil => exact absurd h List.not_mem_nil
      | cons e rest ih_rest =>
          rw [reachedParts_cons, List.mem_append] at h
          rw [atomsOfAll_cons, List.mem_append]
          rcases h with h | h
          · exact .inl (ih e List.mem_cons_self h)
          · split at h
            · exact absurd h List.not_mem_nil
            · exact .inr (ih_rest (fun e he => ih e (List.mem_cons_of_mem _ he)) h)
  | _ => exact h

/-- Parts in two runs: the second is come to where the first leaves the answer
open. -/
theorem reachedParts_append (xs ys : List Expr) :
    reachedParts input c (xs ++ ys) context =
      reachedParts input c xs context ++
        if (evalParts input c xs context).1 = c.decisive then []
        else reachedParts input c ys (evalParts input c xs context).2 := by
  induction xs generalizing context with
  | nil => cases c <;> rfl
  | cons e rest ih =>
      rw [List.cons_append, reachedParts_cons, reachedParts_cons]
      by_cases h : (eval input e context).1 = c.decisive
      · rw [evalParts_cons_of_eq _ h, if_pos h, if_pos h, List.append_nil, if_pos h,
          List.append_nil]
      · rw [evalParts_cons_of_ne _ h, if_neg h, if_neg h, ih, List.append_assoc]

theorem reachedParts_operands (e : Expr) :
    reachedParts input c (e.operands c) context = reached input e context := by
  cases e with
  | node d parts =>
      simp only [operands]
      split
      · rename_i h
        rw [reached_node, h]
      · exact reachedParts_singleton _
  | _ => exact reachedParts_singleton _

/-- Joining parts keeps what is reached. -/
theorem reached_combine (parts : List Expr) :
    reached input (c.combine parts) context = reachedParts input c parts context := by
  have hflat : reachedParts input c (parts.flatMap (operands c)) context =
      reachedParts input c parts context := by
    induction parts generalizing context with
    | nil => rfl
    | cons e rest ih =>
        rw [List.flatMap_cons, reachedParts_append, reachedParts_operands, evalParts_operands, ih,
          reachedParts_cons]
  rw [← hflat, Connective.combine]
  split
  · rename_i only h
    rw [h, reachedParts_singleton]
  · rfl

theorem reached_all (parts : List Expr) :
    reached input (Expr.all parts) context = reachedParts input .and parts context :=
  reached_combine parts

/-- Reading an expression as its chain of terms keeps what is reached. -/
theorem reachedParts_terms (e : Expr) :
    reachedParts input .and e.terms context = reached input e context := by
  induction e generalizing context with
  | node d parts ih =>
      cases d with
      | or => exact reachedParts_singleton _
      | and =>
          rw [terms, termsOfAll_eq_flatMap, reached_node]
          induction parts generalizing context with
          | nil => rfl
          | cons e rest ih_rest =>
              rw [List.flatMap_cons, reachedParts_append, evalParts_terms,
                ih e List.mem_cons_self,
                ih_rest fun e he => ih e (List.mem_cons_of_mem _ he), reachedParts_cons]
  | _ => exact reachedParts_singleton _

end Criteria.Expr
