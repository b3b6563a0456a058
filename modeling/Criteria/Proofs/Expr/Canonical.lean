import Criteria.Proofs.Expr.Counting

/-!
# Canonical expressions

An expression is canonical when no conjunction or disjunction in it could have been
written shorter: each has at least two members, and none of its members is joined by the
same connective.  Joins splice one level and unwrap single parts, which is enough where
the parts are canonical themselves, so all that is put together from canonical parts is
canonical.

* `Expr.isCanonical`: the form.
* `Expr.isCanonical_combine`: joins keep it.
* `Expr.stable_isCanonical`: taking to pieces and joining again keeps it.
-/

namespace Criteria.Expr

/-- Whether the expression is a node of the connective. -/
def joins (c : Connective) : Expr → Bool
  | .node d _ => d == c
  | _ => false

mutual

/-- Whether every node has at least two members, and none that is a node of the same
connective. -/
def isCanonical : Expr → Bool
  | .not inner => isCanonical inner
  | .node c parts => decide (2 ≤ parts.length) && allCanonical c parts
  | _ => true

/-- Whether all expressions of a list are canonical and none is a node of the
connective. -/
def allCanonical (c : Connective) : List Expr → Bool
  | [] => true
  | e :: rest => !joins c e && isCanonical e && allCanonical c rest

end

theorem allCanonical_iff {c : Connective} {parts : List Expr} :
    allCanonical c parts = true ↔ ∀ e ∈ parts, e.joins c = false ∧ e.isCanonical = true := by
  induction parts with
  | nil => simp [allCanonical]
  | cons e rest ih => simp [allCanonical, ih]

theorem isCanonical_node {c : Connective} {parts : List Expr} :
    (node c parts).isCanonical = true ↔
      2 ≤ parts.length ∧ ∀ e ∈ parts, e.joins c = false ∧ e.isCanonical = true := by
  rw [isCanonical, Bool.and_eq_true, decide_eq_true_iff, allCanonical_iff]

/-- What is no node of the connective is its own operand. -/
theorem operands_of_joins_eq_false {c : Connective} {e : Expr} (h : e.joins c = false) :
    e.operands c = [e] := by
  cases e with
  | node d parts => exact if_neg (by simpa [joins] using h)
  | _ => rfl

/-- A canonical expression has canonical operands, and they are no nodes of the
connective. -/
theorem operands_of_isCanonical {c : Connective} {e : Expr} (h : e.isCanonical = true) :
    e.operands c ≠ [] ∧ ∀ d ∈ e.operands c, d.joins c = false ∧ d.isCanonical = true := by
  cases hjoins : e.joins c with
  | false =>
      rw [operands_of_joins_eq_false hjoins]
      exact ⟨List.cons_ne_nil _ _, List.forall_mem_singleton.mpr ⟨hjoins, h⟩⟩
  | true =>
      cases e with
      | node d parts =>
          obtain rfl : d = c := eq_of_beq hjoins
          obtain ⟨hlength, hparts⟩ := isCanonical_node.mp h
          rw [operands, if_pos rfl]
          exact ⟨List.ne_nil_of_length_pos (Nat.lt_of_lt_of_le Nat.zero_lt_two hlength), hparts⟩
      | _ => exact absurd hjoins Bool.false_ne_true

/-- Canonical parts are joined to a canonical expression. -/
theorem isCanonical_combine {c : Connective} {parts : List Expr} (hne : parts ≠ [])
    (h : ∀ e ∈ parts, e.isCanonical = true) : (c.combine parts).isCanonical = true := by
  have hflat : ∀ d ∈ parts.flatMap (operands c), d.joins c = false ∧ d.isCanonical = true := by
    intro d hd
    obtain ⟨e, he, hde⟩ := List.mem_flatMap.mp hd
    exact (operands_of_isCanonical (h e he)).2 d hde
  have hflat_ne : parts.flatMap (operands c) ≠ [] := by
    obtain ⟨e, he⟩ := List.exists_mem_of_ne_nil _ hne
    obtain ⟨d, hd⟩ := List.exists_mem_of_ne_nil _ (operands_of_isCanonical (c := c) (h e he)).1
    exact List.ne_nil_of_mem (List.mem_flatMap.mpr ⟨e, he, hd⟩)
  rw [Connective.combine]
  split
  · rename_i only honly
    exact (hflat only (honly ▸ List.mem_cons_self)).2
  · rename_i hmany
    refine isCanonical_node.mpr ⟨?_, hflat⟩
    -- Neither empty nor a single part.
    rcases hparts : parts.flatMap (operands c) with _ | ⟨only, _ | ⟨second, rest⟩⟩
    · exact absurd hparts hflat_ne
    · exact absurd hparts (hmany only)
    · simp

/-- Taking canonical expressions to pieces and joining them again leaves them
canonical. -/
theorem stable_isCanonical : Stable fun e => e.isCanonical = true where
  truthy _ := rfl
  isObject _ := rfl
  not _ h := h
  combine _ _ := isCanonical_combine
  parts _ h e he := ((isCanonical_node.mp h).2 e he).2

/-- A canonical expression has no empty node. -/
theorem isFull_of_isCanonical {e : Expr} (h : e.isCanonical = true) : e.isFull = true := by
  induction e with
  | not inner ih => exact ih h
  | node c parts ih =>
      obtain ⟨hlength, hparts⟩ := isCanonical_node.mp h
      exact isFull_node.mpr ⟨List.ne_nil_of_length_pos (Nat.lt_of_lt_of_le Nat.zero_lt_two hlength),
        fun e he => ih e he (hparts e he).2⟩
  | _ => rfl

end Criteria.Expr
