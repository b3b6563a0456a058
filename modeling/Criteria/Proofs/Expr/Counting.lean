import Criteria.Proofs.Expr.Factoring
import Mathlib.Algebra.Order.Group.Multiset

/-!
# Counting conditions

Sameness of expressions leaves out the checks of tests and nothing else, so it is
equality of what is left, and the atoms of an expression can be counted up to
sameness as a multiset.  Joining and reading chains of terms keep that multiset.
Factoring makes it smaller, since it drops terms that are repeated and merges equal
leading terms, but no condition is lost altogether.

* `Expr.same_iff`: sameness is equality without checks, and thus an equivalence.
* `Expr.conditions`: the atoms of an expression, counted up to sameness.
* `Thins`: fewer occurrences of the same things.
* `thins_factor`: factoring thins the conditions of its fragments.
* `Expr.connectives_add_one`: without empty nodes, the connectives of an expression
  are one fewer than its atoms.
-/

namespace Criteria

namespace Expr

/-! ## Sameness is equality without checks -/

mutual

/-- The expression with all checks replaced by one that accepts everything. -/
def unchecked : Expr → Expr
  | .test t => .test { t with check := .ofValue fun _ => true }
  | .not inner => .not (unchecked inner)
  | .node c parts => .node c (uncheckedAll parts)
  | e => e

/-- Several expressions without their checks. -/
def uncheckedAll : List Expr → List Expr
  | [] => []
  | e :: rest => unchecked e :: uncheckedAll rest

end

/-- Expressions are the same condition when they are equal without their checks. -/
theorem same_iff {d e : Expr} : d.same e = true ↔ d.unchecked = e.unchecked := by
  induction d generalizing e with
  | not inner ih =>
      cases e with
      | not other => rw [same, ih, unchecked, unchecked, not.injEq]
      | _ => simp [same, unchecked]
  | node c xs ih =>
      cases e with
      | node c' ys =>
          rw [same, Bool.and_eq_true, beq_iff_eq, unchecked, unchecked, node.injEq]
          refine and_congr_right fun _ => ?_
          -- The two lists are walked together.
          induction xs generalizing ys with
          | nil => cases ys <;> simp [sameParts, uncheckedAll]
          | cons x xs ih_rest =>
              cases ys with
              | nil => simp [sameParts, uncheckedAll]
              | cons y ys =>
                  rw [sameParts, Bool.and_eq_true, uncheckedAll, uncheckedAll, List.cons.injEq,
                    ih x List.mem_cons_self,
                    ih_rest fun e he => ih e (List.mem_cons_of_mem _ he)]
      | _ => simp [same, unchecked]
  | test s =>
      cases e with
      | test t => simp [same, unchecked, Test.same]
      | _ => simp [same, unchecked]
  | _ => cases e <;> simp [same, unchecked]

theorem beq_iff_unchecked {d e : Expr} : (d == e) = true ↔ d.unchecked = e.unchecked := same_iff

instance : EquivBEq Expr where
  symm h := beq_iff_unchecked.mpr (beq_iff_unchecked.mp h).symm
  trans h h' := beq_iff_unchecked.mpr ((beq_iff_unchecked.mp h).trans (beq_iff_unchecked.mp h'))

theorem atoms_unchecked (e : Expr) : e.unchecked.atoms = e.atoms.map unchecked := by
  induction e with
  | not inner ih => exact ih
  | node c parts ih =>
      rw [unchecked, atoms_node, atoms_node]
      induction parts with
      | nil => rfl
      | cons e rest ih_rest =>
          rw [uncheckedAll, atomsOfAll_cons, atomsOfAll_cons, List.map_append,
            ih e List.mem_cons_self, ih_rest fun e he => ih e (List.mem_cons_of_mem _ he)]
  | _ => rfl

/-! ## The conditions of an expression -/

/-- The atoms of an expression up to sameness, as often as they occur. -/
def conditions (e : Expr) : Multiset Expr := (e.atoms.map unchecked : List Expr)

/-- The conditions of several expressions. -/
def conditionsOfAll (parts : List Expr) : Multiset Expr :=
  ((atomsOfAll parts).map unchecked : List Expr)

@[simp] theorem conditionsOfAll_nil : conditionsOfAll [] = 0 := rfl

@[simp] theorem conditionsOfAll_append (xs ys : List Expr) :
    conditionsOfAll (xs ++ ys) = conditionsOfAll xs + conditionsOfAll ys := by
  rw [conditionsOfAll, atomsOfAll_append, List.map_append, ← Multiset.coe_add]
  rfl

@[simp] theorem conditionsOfAll_cons (e : Expr) (rest : List Expr) :
    conditionsOfAll (e :: rest) = e.conditions + conditionsOfAll rest := by
  rw [conditionsOfAll, atomsOfAll_cons, List.map_append, ← Multiset.coe_add]
  rfl

@[simp] theorem conditionsOfAll_singleton (e : Expr) : conditionsOfAll [e] = e.conditions := by
  rw [conditionsOfAll_cons, conditionsOfAll_nil, add_zero]

@[simp] theorem conditions_combine (c : Connective) (parts : List Expr) :
    (c.combine parts).conditions = conditionsOfAll parts := by
  rw [conditions, atoms_combine, conditionsOfAll]

@[simp] theorem conditions_all (parts : List Expr) :
    (Expr.all parts).conditions = conditionsOfAll parts := conditions_combine .and parts

theorem conditionsOfAll_terms (e : Expr) : conditionsOfAll e.terms = e.conditions := by
  rw [conditionsOfAll, atomsOfAll_terms, conditions]

theorem conditionsOfAll_perm {xs ys : List Expr} (h : xs.Perm ys) :
    conditionsOfAll xs = conditionsOfAll ys := by
  induction h with
  | nil => rfl
  | cons e _ ih => rw [conditionsOfAll_cons, conditionsOfAll_cons, ih]
  | swap d e rest => simp only [conditionsOfAll_cons, add_left_comm]
  | trans _ _ ih₁ ih₂ => exact ih₁.trans ih₂

/-- The same expressions have the same conditions. -/
theorem conditions_of_same {d e : Expr} (h : (d == e) = true) : d.conditions = e.conditions := by
  rw [conditions, conditions, ← atoms_unchecked, ← atoms_unchecked, beq_iff_unchecked.mp h]

/-- The conditions of a part are conditions of the parts. -/
theorem conditions_subset_of_mem {e : Expr} {parts : List Expr} (h : e ∈ parts) :
    e.conditions ⊆ conditionsOfAll parts := by
  obtain ⟨before, after, rfl⟩ := List.append_of_mem h
  rw [conditionsOfAll_append, conditionsOfAll_cons, add_left_comm]
  exact Multiset.subset_of_le (Multiset.le_add_right _ _)

open Classical in
/-- Atoms are counted by their condition. -/
theorem count_atoms (a e : Expr) :
    e.atoms.count a = e.conditions.countP (· = a.unchecked) := by
  rw [conditions, Multiset.coe_countP, List.countP_map, List.count_eq_countP]
  refine List.countP_congr fun b _ => ?_
  rw [beq_iff_unchecked, Function.comp_apply, decide_eq_true_iff]

theorem contains_atoms_iff {a e : Expr} :
    e.atoms.contains a = true ↔ a.unchecked ∈ e.conditions := by
  rw [conditions, Multiset.mem_coe, List.mem_map, List.contains_iff_exists_mem_beq]
  refine exists_congr fun b => and_congr_right fun _ => ?_
  rw [beq_iff_unchecked, eq_comm]

end Expr

/-! ## Thinning -/

/-- What is left when some things occur less often, but none is lost. -/
structure Thins {α : Type} (s t : Multiset α) : Prop where
  /-- Nothing occurs more often. -/
  le : s ≤ t
  /-- Nothing is lost. -/
  subset : t ⊆ s

namespace Thins

variable {α : Type} {s t u v : Multiset α}

theorem refl (s : Multiset α) : Thins s s := ⟨le_rfl, Multiset.Subset.refl s⟩

theorem trans (h : Thins s t) (h' : Thins t u) : Thins s u :=
  ⟨h.le.trans h'.le, Multiset.Subset.trans h'.subset h.subset⟩

theorem add (h : Thins s t) (h' : Thins u v) : Thins (s + u) (t + v) := by
  refine ⟨add_le_add h.le h'.le, fun a ha => ?_⟩
  rcases Multiset.mem_add.mp ha with ha | ha
  · exact Multiset.mem_add.mpr (.inl (h.subset ha))
  · exact Multiset.mem_add.mpr (.inr (h'.subset ha))

/-- What is there anyway may be left out. -/
theorem add_of_subset (h : u ⊆ s) : Thins s (s + u) := by
  refine ⟨Multiset.le_add_right s u, fun a ha => ?_⟩
  rcases Multiset.mem_add.mp ha with ha | ha
  · exact ha
  · exact h ha

end Thins

namespace Factoring

open Criteria.Expr

/-- Dropping repeated terms thins the conditions. -/
theorem thins_distinct (ts : List Expr) :
    Thins (conditionsOfAll (distinct ts)) (conditionsOfAll ts) := by
  induction ts using List.reverseRecOn with
  | nil => exact .refl _
  | append_singleton ts t ih =>
      rw [distinct_concat]
      split
      · rename_i hseen
        obtain ⟨u, hu, hs⟩ := List.contains_iff_exists_mem_beq.mp hseen
        rw [conditionsOfAll_append, conditionsOfAll_singleton, conditions_of_same hs]
        exact (Thins.add_of_subset (conditions_subset_of_mem hu)).trans (ih.add (.refl _))
      · rw [conditionsOfAll_append, conditionsOfAll_append]
        exact ih.add (.refl _)

/-- The conditions of groups: for each those of its leading term and its members. -/
def conditionsOfGroups (groups : List FactorGroup) : Multiset Expr :=
  conditionsOfAll (groups.flatMap fun g => g.lead :: g.members)

/-- The conditions of sorted fragments. -/
def conditions (f : Factoring) : Multiset Expr :=
  conditionsOfAll f.singles + conditionsOfGroups f.groups

theorem conditionsOfGroups_nil : conditionsOfGroups [] = 0 := rfl

theorem conditionsOfGroups_cons (g : FactorGroup) (rest : List FactorGroup) :
    conditionsOfGroups (g :: rest) =
      g.lead.conditions + conditionsOfAll g.members + conditionsOfGroups rest := by
  rw [conditionsOfGroups, List.flatMap_cons, conditionsOfAll_append, conditionsOfAll_cons]
  rfl

/-- One more member brings its own conditions; its leading term may be there
already. -/
theorem thins_addMember (lead member : Expr) (groups : List FactorGroup) :
    Thins (conditionsOfGroups (addMember lead member groups))
      (conditionsOfGroups groups + (lead.conditions + member.conditions)) := by
  induction groups with
  | nil =>
      rw [addMember, conditionsOfGroups_cons, conditionsOfAll_singleton, conditionsOfGroups_nil,
        add_zero, zero_add]
      exact .refl _
  | cons g rest ih =>
      rw [addMember]
      split
      · rename_i hs
        have hjoined : conditionsOfGroups (⟨g.lead, g.members ++ [member]⟩ :: rest) =
            conditionsOfGroups (g :: rest) + member.conditions := by
          rw [conditionsOfGroups_cons, conditionsOfGroups_cons, conditionsOfAll_append,
            conditionsOfAll_singleton, ← add_assoc, add_right_comm]
        have hlead : lead.conditions ⊆ conditionsOfGroups (g :: rest) + member.conditions := by
          rw [← conditions_of_same hs, conditionsOfGroups_cons, add_assoc, add_assoc]
          exact Multiset.subset_of_le (Multiset.le_add_right _ _)
        rw [hjoined, add_comm lead.conditions, ← add_assoc]
        exact .add_of_subset hlead
      · rw [conditionsOfGroups_cons, conditionsOfGroups_cons, add_assoc _ (conditionsOfGroups rest)]
        exact (Thins.refl _).add ih

/-- One more fragment brings its conditions, thinned. -/
theorem thins_add (f : Factoring) (e : Expr) :
    Thins (f.add e).conditions (f.conditions + e.conditions) := by
  have hterms := thins_distinct e.terms
  rw [conditionsOfAll_terms] at hterms
  refine Thins.trans ?_ ((Thins.refl f.conditions).add hterms)
  rw [add]
  split
  · rename_i hnil
    rw [hnil, conditionsOfAll_nil, add_zero]
    exact .refl _
  · rename_i only honly
    rw [honly, conditionsOfAll_singleton]
    split
    · rename_i hseen
      obtain ⟨d, hd, hs⟩ := List.contains_iff_exists_mem_beq.mp hseen
      rw [conditions_of_same hs]
      refine .add_of_subset (Multiset.Subset.trans (conditions_subset_of_mem hd) ?_)
      exact Multiset.subset_of_le (Multiset.le_add_right _ _)
    · rw [conditions, conditions, conditionsOfAll_append, conditionsOfAll_singleton,
        add_right_comm]
      exact .refl _
  · rename_i lead rest _ hlist
    rw [hlist, conditionsOfAll_cons, ← conditions_all]
    have hmember := thins_addMember lead (Expr.all rest) f.groups
    rw [conditions, conditions, add_assoc]
    exact (Thins.refl _).add hmember

theorem thins_ofFragments (fragments : List Expr) :
    Thins (ofFragments fragments).conditions (conditionsOfAll fragments) := by
  induction fragments using List.reverseRecOn with
  | nil => exact .refl _
  | append_singleton fragments e ih =>
      rw [ofFragments_concat, conditionsOfAll_append, conditionsOfAll_singleton]
      exact (thins_add _ e).trans (ih.add (.refl _))

end Factoring

open Criteria.Expr

theorem FactorGroup.conditions_merge (rank : Rank) (c : Connective) (g : FactorGroup) :
    (g.merge rank c).conditions = g.lead.conditions + conditionsOfAll g.members := by
  rw [← conditionsOfAll_perm (ranked_perm rank g), conditions, atoms_merge, List.map_append,
    ← Multiset.coe_add]
  rfl

/-- The factored parts have the conditions of the sorted fragments. -/
theorem conditionsOfAll_factor (rank : Rank) (c : Connective) (fragments : List Expr) :
    conditionsOfAll (factor rank c fragments) = (Factoring.ofFragments fragments).conditions := by
  rw [factor, conditionsOfAll_append, Factoring.conditions]
  congr 1
  induction (Factoring.ofFragments fragments).groups with
  | nil => rfl
  | cons g rest ih =>
      rw [List.map_cons, conditionsOfAll_cons, ih, FactorGroup.conditions_merge,
        Factoring.conditionsOfGroups_cons]

/-- Factoring thins the conditions of its fragments. -/
theorem thins_factor (rank : Rank) (c : Connective) (fragments : List Expr) :
    Thins (conditionsOfAll (factor rank c fragments)) (conditionsOfAll fragments) := by
  rw [conditionsOfAll_factor]
  exact Factoring.thins_ofFragments fragments

/-! ## Connectives -/

namespace Expr

mutual

/-- Whether every conjunction and every disjunction in the expression has a
member. -/
def isFull : Expr → Bool
  | .not inner => isFull inner
  | .node _ parts => !parts.isEmpty && allFull parts
  | _ => true

/-- Whether that holds of all expressions of a list. -/
def allFull : List Expr → Bool
  | [] => true
  | e :: rest => isFull e && allFull rest

end

theorem allFull_iff {parts : List Expr} :
    allFull parts = true ↔ ∀ e ∈ parts, e.isFull = true := by
  induction parts with
  | nil => simp [allFull]
  | cons e rest ih => simp [allFull, ih]

theorem isFull_node {c : Connective} {parts : List Expr} :
    (node c parts).isFull = true ↔ parts ≠ [] ∧ ∀ e ∈ parts, e.isFull = true := by
  rw [isFull, Bool.and_eq_true, allFull_iff, Bool.not_eq_true', List.isEmpty_eq_false_iff]

/-- A connective stands between any two neighbouring atoms. -/
theorem connectives_add_one {e : Expr} (h : e.isFull = true) :
    e.connectives + 1 = e.atoms.length := by
  induction e with
  | not inner ih => exact ih h
  | node c parts ih =>
      obtain ⟨hne, hparts⟩ := isFull_node.mp h
      have hsum : connectivesOfAll parts + parts.length = (atomsOfAll parts).length := by
        clear h hne
        induction parts with
        | nil => rfl
        | cons e rest ih_rest =>
            have he := ih e List.mem_cons_self (hparts e List.mem_cons_self)
            have hrest := ih_rest (fun e he => ih e (List.mem_cons_of_mem _ he))
              fun e he => hparts e (List.mem_cons_of_mem _ he)
            rw [connectivesOfAll, List.length_cons, atomsOfAll_cons, List.length_append]
            omega
      have hpos : 0 < parts.length := List.length_pos_of_ne_nil hne
      rw [connectives, atoms_node]
      omega
  | _ => rfl

/-- An expression without empty nodes has operands, and they have none either. -/
theorem operands_of_isFull {c : Connective} {e : Expr} (h : e.isFull = true) :
    e.operands c ≠ [] ∧ ∀ d ∈ e.operands c, d.isFull = true := by
  cases e with
  | node d parts =>
      rw [operands]
      split
      · exact isFull_node.mp h
      · exact ⟨List.cons_ne_nil _ _, List.forall_mem_singleton.mpr h⟩
  | _ => exact ⟨List.cons_ne_nil _ _, List.forall_mem_singleton.mpr h⟩

/-- Splicing keeps nodes from being empty. -/
theorem isFull_combine {c : Connective} {parts : List Expr} (hne : parts ≠ [])
    (h : ∀ e ∈ parts, e.isFull = true) : (c.combine parts).isFull = true := by
  have hflat : ∀ d ∈ parts.flatMap (operands c), d.isFull = true := by
    intro d hd
    obtain ⟨e, he, hde⟩ := List.mem_flatMap.mp hd
    exact (operands_of_isFull (h e he)).2 d hde
  rw [Connective.combine]
  split
  · rename_i only honly
    exact hflat only (honly ▸ List.mem_cons_self)
  · refine isFull_node.mpr ⟨fun hnil => ?_, hflat⟩
    obtain ⟨e, he⟩ := List.exists_mem_of_ne_nil _ hne
    exact (operands_of_isFull (h e he)).1 (List.flatMap_eq_nil_iff.mp hnil e he)

/-- Taking expressions to pieces and joining them again leaves no node empty. -/
theorem stable_isFull : Stable fun e => e.isFull = true where
  truthy _ := rfl
  isObject _ := rfl
  not _ h := h
  combine _ _ := isFull_combine
  parts _ h := (isFull_node.mp h).2

end Expr

end Criteria
