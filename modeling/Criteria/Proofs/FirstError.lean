import Criteria.Proofs.Places
import Criteria.Proofs.Transparency

/-!
# The first error

A query does not compile when some operator in it cannot be resolved, and then the
error is that of the first such operator in the order of the text.  The operators
before it have been resolved by then, those after it are not run, and factoring has
no part in any of this.

* `Traced.forM_append_of_ok`: computations in sequence, up to the first that may
  fail.
* `Compilation.resolution`: resolving the operator that a leaf is handed to.
* `Compilation.forM_ask_requests`: asking for a plan's requests is resolving the
  operators of the query's operands.
* `Compiler.firstError_compilePredicate`: the outcome of a compilation and the generators
  that it runs.
-/

namespace Criteria

/-! ## Computations in sequence -/

namespace Traced

variable {α β : Type}

/-- Computations that give their results are run one after another, and then the
rest. -/
theorem forM_append_of_ok {f : β → Traced Unit} {before : List β}
    (h : ∀ b ∈ before, (f b).result = .ok ()) (rest : List β) :
    forM (before ++ rest) f =
      ⟨before.flatMap (fun b => (f b).events) ++ (forM rest f).events, (forM rest f).result⟩ := by
  induction before with
  | nil => rfl
  | cons b before ih =>
      rw [List.cons_append, List.forM_cons, bind_of_ok _ (h b List.mem_cons_self),
        ih fun b hb => h b (List.mem_cons_of_mem _ hb), List.flatMap_cons, List.append_assoc]

theorem forM_of_ok {f : β → Traced Unit} {xs : List β} (h : ∀ b ∈ xs, (f b).result = .ok ()) :
    forM xs f = ⟨xs.flatMap fun b => (f b).events, .ok ()⟩ := by
  have hsequence : forM (xs ++ []) f = _ := forM_append_of_ok h []
  rw [List.append_nil, List.forM_nil, events_pure, List.append_nil] at hsequence
  exact hsequence

/-- The first computation that fails is the last one. -/
theorem forM_of_error {f : β → Traced Unit} {before : List β} {b : β} {error : CompileError}
    (h : ∀ b ∈ before, (f b).result = .ok ()) (hb : (f b).result = .error error)
    (after : List β) :
    forM (before ++ b :: after) f =
      ⟨(before ++ [b]).flatMap fun b => (f b).events, .error error⟩ := by
  rw [forM_append_of_ok h, List.forM_cons, bind_of_error _ hb, List.flatMap_append,
    List.flatMap_singleton]

/-- Either all computations give results, or there is a first one that fails. -/
theorem all_ok_or_first_error (f : β → Traced α) (xs : List β) :
    (∀ x ∈ xs, ∃ a, (f x).result = .ok a) ∨
      ∃ before x after error, xs = before ++ x :: after ∧
        (∀ y ∈ before, ∃ a, (f y).result = .ok a) ∧ (f x).result = .error error := by
  induction xs with
  | nil => exact .inl fun _ h => absurd h List.not_mem_nil
  | cons x xs ih =>
      cases hx : (f x).result with
      | error error =>
          exact .inr ⟨[], x, xs, error, rfl, fun _ h => absurd h List.not_mem_nil, hx⟩
      | ok a =>
          rcases ih with hall | ⟨before, y, after, error, rfl, hbefore, hy⟩
          · exact .inl (List.forall_mem_cons.mpr ⟨⟨a, hx⟩, hall⟩)
          · refine .inr ⟨x :: before, y, after, error, rfl, ?_, hy⟩
            exact List.forall_mem_cons.mpr ⟨⟨a, hx⟩, hbefore⟩

theorem events_map (f : α → β) (x : Traced α) : (f <$> x).events = x.events := by
  rw [map_eq_pure_bind]
  cases h : x.result with
  | ok a => rw [bind_of_ok _ h, events_pure, List.append_nil]
  | error error => rw [bind_of_error _ h]

end Traced

/-! ## Resolving the operator of a leaf -/

namespace Compilation

variable {c : Compilation}

/-- Resolve the operator that a leaf is handed to: it is the last name on the leaf's
path.  Where the path ends in a field, that is the name before it, and the names
before the field lead to the scope around it; elsewhere there is no field, and all
names before the operator lead there. -/
def resolution (c : Compilation) (leaf : Leaf) : Traced Expr :=
  let names := namesOn c.options.negationKey leaf.path
  let operator := names.getLast?.getD ""
  let keys := names.dropLast
  if endsInField c.options.negationKey leaf.path then
    c.resolve operator leaf.value keys.getLast? ⟨c.options.entryName, keys.dropLast⟩
  else c.resolve operator leaf.value none ⟨c.options.entryName, keys⟩

/-- An operator does not see more of its argument than what it is handed. -/
theorem resolve_congr {p q : Query} (h : Argument.ofQuery p = .ofQuery q) (key : String)
    (field : Option String) (enclosing : Scope) :
    c.resolve key p field enclosing = c.resolve key q field enclosing := by
  rw [resolve, resolve]
  exact Dictionary.resolveWithin_congr h _ _

theorem resolution_of_names {leaf : Leaf} {keys : List String} {operator : String}
    (h : namesOn c.options.negationKey leaf.path = keys ++ [operator]) :
    c.resolution leaf =
      if endsInField c.options.negationKey leaf.path then
        c.resolve operator leaf.value keys.getLast? ⟨c.options.entryName, keys.dropLast⟩
      else c.resolve operator leaf.value none ⟨c.options.entryName, keys⟩ := by
  rw [resolution, h, List.getLast?_concat, List.dropLast_concat]
  rfl

/-- The request for a leaf is answered by resolving the leaf's operator. -/
theorem answerTo_eq_resolution {leaf : Leaf} {r : Request}
    (h : leaf.HandedTo c.options.entryName c.options.negationKey r.call) :
    c.answerTo r = (c.resolution leaf).callsOnly := by
  rw [resolution_of_names h.names]
  obtain ⟨operator, argument, field, root, keys⟩ := r
  have hargument : Argument.ofQuery argument = .ofQuery leaf.value := h.argument
  have hroot : root = c.options.entryName := by
    cases field with
    | none => exact h.root
    | some field => exact h.root
  subst hroot
  rw [answerTo, resolve_congr hargument]
  congr 1
  have hfield := h.field
  split at hfield
  · rename_i hends
    rw [if_pos hends, ← hfield]
    cases field with
    | none =>
        have hnil : keys = [] := List.getLast?_eq_none_iff.mp hfield.symm
        rw [hnil]
        rfl
    | some field =>
        change _ = c.resolve operator leaf.value (some field)
          ⟨c.options.entryName, (keys ++ [field]).dropLast⟩
        rw [List.dropLast_concat]
  · rename_i hends
    obtain rfl : field = none := hfield
    rw [if_neg hends]
    rfl

/-- Resolve the operator of a leaf and keep its generator runs only. -/
def attempt (c : Compilation) (leaf : Leaf) : Traced Unit :=
  (fun _ => ()) <$> (c.resolution leaf).callsOnly

theorem result_attempt_of_ok {leaf : Leaf} (h : ∃ e, (c.resolution leaf).result = .ok e) :
    (c.attempt leaf).result = .ok () := by
  obtain ⟨e, he⟩ := h
  rw [attempt, map_eq_pure_bind, Traced.result_bind_pure, Traced.result_callsOnly, he]
  rfl

theorem result_attempt_of_error {leaf : Leaf} {error : CompileError}
    (h : (c.resolution leaf).result = .error error) : (c.attempt leaf).result = .error error := by
  rw [attempt, map_eq_pure_bind, Traced.result_bind_pure, Traced.result_callsOnly, h]
  rfl

/-- The generators run for leaves one after another are those run for each. -/
theorem calls_attempts (leaves : List Leaf) :
    (leaves.flatMap fun leaf => (c.attempt leaf).events).filterMap Event.call? =
      leaves.flatMap fun leaf => (c.resolution leaf).calls := by
  rw [List.filterMap_flatMap]
  refine List.flatMap_congr fun leaf _ => ?_
  rw [attempt, Traced.events_map]
  exact Traced.calls_callsOnly _

/-- The requests of a query are answered by resolving the operators of its operands,
one for one and in order. -/
theorem map_answerTo_requests (c : Compilation) (q : Query) :
    ((c.plan q).requests c.root).map c.answerTo =
      (q.operands c.options.negationKey).map fun leaf => (c.resolution leaf).callsOnly := by
  have hasks : List.Forall₂ _ (q.operands c.options.negationKey) ((c.plan q).requests c.root) :=
    Query.asks c.options.negationKey q [] c.options.entryName rfl
  rw [eq_comm, ← List.forall₂_eq_eq_eq, List.forall₂_map_left_iff, List.forall₂_map_right_iff]
  exact hasks.imp fun leaf r h => (answerTo_eq_resolution h).symm

/-- The answer to a request is the result of resolving the operator of an operand. -/
theorem exists_operand {q : Query} {r : Request} (h : r ∈ (c.plan q).requests c.root) :
    ∃ leaf ∈ q.operands c.options.negationKey,
      (c.answerTo r).result = (c.resolution leaf).result := by
  have hmem : c.answerTo r ∈ ((c.plan q).requests c.root).map c.answerTo := List.mem_map_of_mem h
  rw [map_answerTo_requests] at hmem
  obtain ⟨leaf, hleaf, heq⟩ := List.mem_map.mp hmem
  exact ⟨leaf, hleaf, by rw [← heq, Traced.result_callsOnly]⟩

/-- Asking for the requests of a query is resolving the operators of its operands,
in order. -/
theorem forM_ask_requests (c : Compilation) (q : Query) :
    forM ((c.plan q).requests c.root) c.ask =
      forM (q.operands c.options.negationKey) c.attempt := by
  let forget : Traced Expr → Traced Unit := fun x => (fun _ => ()) <$> x
  let resolved (leaf : Leaf) : Traced Expr := (c.resolution leaf).callsOnly
  calc forM ((c.plan q).requests c.root) c.ask
      = forM (((c.plan q).requests c.root).map c.answerTo) forget := by
        rw [List.forM_map]
        rfl
    _ = forM ((q.operands c.options.negationKey).map resolved) forget := by
        rw [map_answerTo_requests]
    _ = forM (q.operands c.options.negationKey) c.attempt := by
        rw [List.forM_map]
        rfl

end Compilation

namespace Compiler

theorem calls_compilePredicate (c : Compiler) (q : Query) :
    (c.compilePredicate q).calls = (c.compilation.run q).calls := by
  rw [compilePredicate, ← map_eq_pure_bind, Traced.calls, Traced.events_map]
  rfl

/-- Either every operator of a query can be resolved, and then it compiles and the
generators run are those of its operands one after another; or the error of the
first one that cannot is the error of the compilation, and the generators run are
those of the operands up to it.  Factoring makes no difference. -/
theorem firstError_compilePredicate (c : Compiler) (q : Query) :
    ((∀ leaf ∈ q.operands c.options.negationKey,
        ∃ e, (c.compilation.resolution leaf).result = .ok e) ∧
      ∀ on, (∃ p, ((c.withOptimizer on).compilePredicate q).result = .ok p) ∧
        ((c.withOptimizer on).compilePredicate q).calls =
          (q.operands c.options.negationKey).flatMap fun leaf =>
            (c.compilation.resolution leaf).calls) ∨
    ∃ before leaf after error, q.operands c.options.negationKey = before ++ leaf :: after ∧
      (∀ other ∈ before, ∃ e, (c.compilation.resolution other).result = .ok e) ∧
      (c.compilation.resolution leaf).result = .error error ∧
      ∀ on, ((c.withOptimizer on).compilePredicate q).result = .error error ∧
        ((c.withOptimizer on).compilePredicate q).calls =
          (before ++ [leaf]).flatMap fun leaf => (c.compilation.resolution leaf).calls := by
  -- Neither the operands nor their operators know of the switch.
  let tried := forM (q.operands c.options.negationKey) c.compilation.attempt
  have hresult : ∀ on, ((c.withOptimizer on).compilePredicate q).result =
      tried.result.map fun _ =>
        ⟨(c.compilation.plan q).assemble on c.compilation.answer c.compilation.root,
          c.options.entryName⟩ := by
    intro on
    rw [result_compilePredicate, Compilation.forM_ask_requests]
    rfl
  have hcalls : ∀ on, ((c.withOptimizer on).compilePredicate q).calls = tried.calls := by
    intro on
    rw [calls_compilePredicate, Compilation.calls_run, Compilation.forM_ask_requests]
    rfl
  rcases Traced.all_ok_or_first_error c.compilation.resolution (q.operands c.options.negationKey)
    with hall | ⟨before, leaf, after, error, hsplit, hbefore, hleaf⟩
  · have htried : tried = _ := Traced.forM_of_ok fun leaf hl =>
      Compilation.result_attempt_of_ok (hall leaf hl)
    refine .inl ⟨hall, fun on => ⟨⟨_, by rw [hresult, htried]; rfl⟩, ?_⟩⟩
    rw [hcalls, htried]
    exact Compilation.calls_attempts _
  · have htried : tried = _ := hsplit ▸ Traced.forM_of_error
      (fun leaf hl => Compilation.result_attempt_of_ok (hbefore leaf hl))
      (Compilation.result_attempt_of_error hleaf) after
    refine .inr ⟨before, leaf, after, error, hsplit, hbefore, hleaf, fun on => ⟨?_, ?_⟩⟩
    · rw [hresult, htried]
      rfl
    · rw [hcalls, htried]
      exact Compilation.calls_attempts _

end Compiler

end Criteria
