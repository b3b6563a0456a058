import Criteria.Proofs.Expr.Tame
import Mathlib.Data.List.Induction

/-!
# Factoring and its answers

Fragments are sorted in one after another, so what holds of the outcome is shown
by what one more fragment does to it: it is a single term, or it opens a group,
or it joins the group with the same leading term.

* `Factoring.ofFragments_induction`: a property of single terms and groups that
  each of the three ways keeps.
* `FactorGroup.eval_merge`, `FactorGroup.reached_merge`: a merged group runs like
  its leading term in front of the join of its members.
* `Expr.Stable.of_mem_factor`: what joins keep and parts take over, factoring keeps.
* `fold_holds_factor`: over tame tests, factoring keeps the answer of a join.
-/

namespace Criteria

open Criteria.Expr

namespace Factoring

/-! ## Distinct terms -/

theorem distinct_concat (ts : List Expr) (t : Expr) :
    distinct (ts ++ [t]) =
      if (distinct ts).contains t then distinct ts else distinct ts ++ [t] := by
  rw [distinct, List.foldl_append]
  rfl

theorem mem_of_mem_distinct {ts : List Expr} {t : Expr} (h : t ∈ distinct ts) : t ∈ ts := by
  induction ts using List.reverseRecOn with
  | nil => exact h
  | append_singleton ts u ih =>
      rw [distinct_concat] at h
      rw [List.mem_append]
      split at h
      · exact .inl (ih h)
      · exact (List.mem_append.mp h).imp_left ih

/-- Every term is the same condition as one that stays. -/
theorem exists_same_of_mem {ts : List Expr} {t : Expr} (h : t ∈ ts) :
    ∃ u ∈ distinct ts, (t == u) = true := by
  induction ts using List.reverseRecOn with
  | nil => exact absurd h List.not_mem_nil
  | append_singleton ts u ih =>
      have hold : t ∈ ts → ∃ v ∈ distinct ts, (t == v) = true := ih
      rw [distinct_concat]
      split
      · rename_i hseen
        rcases List.mem_append.mp h with h | h
        · exact hold h
        · rw [List.mem_singleton.mp h]
          exact List.contains_iff_exists_mem_beq.mp hseen
      · rcases List.mem_append.mp h with h | h
        · obtain ⟨v, hv, hs⟩ := hold h
          exact ⟨v, List.mem_append_left _ hv, hs⟩
        · exact ⟨t, List.mem_append_right _ h, BEq.rfl⟩

theorem distinct_ne_nil {ts : List Expr} (h : ts ≠ []) : distinct ts ≠ [] := by
  obtain ⟨t, ht⟩ := List.exists_mem_of_ne_nil ts h
  obtain ⟨u, hu, -⟩ := exists_same_of_mem ht
  exact List.ne_nil_of_mem hu

/-! ## Sorting in one more fragment -/

/-- After a member is added, a group is an old one, the new one, or an old one
with the member. -/
theorem mem_addMember {lead member : Expr} {groups : List FactorGroup} {g : FactorGroup}
    (h : g ∈ addMember lead member groups) :
    g ∈ groups ∨ g = ⟨lead, [member]⟩ ∨
      ∃ old ∈ groups, (old.lead == lead) = true ∧ g = ⟨old.lead, old.members ++ [member]⟩ := by
  induction groups with
  | nil => exact .inr (.inl (List.mem_singleton.mp h))
  | cons first rest ih =>
      rw [addMember] at h
      split at h
      · rename_i hs
        rcases List.mem_cons.mp h with rfl | h
        · exact .inr (.inr ⟨first, List.mem_cons_self, hs, rfl⟩)
        · exact .inl (List.mem_cons_of_mem _ h)
      · rcases List.mem_cons.mp h with rfl | h
        · exact .inl List.mem_cons_self
        · rcases ih h with h | h | ⟨old, hold, hs⟩
          · exact .inl (List.mem_cons_of_mem _ h)
          · exact .inr (.inl h)
          · exact .inr (.inr ⟨old, List.mem_cons_of_mem _ hold, hs⟩)

theorem addMember_ne_nil {lead member : Expr} {groups : List FactorGroup} :
    addMember lead member groups ≠ [] := by
  cases groups with
  | nil => exact List.cons_ne_nil _ _
  | cons first rest =>
      rw [addMember]
      split
      · exact List.cons_ne_nil _ _
      · exact List.cons_ne_nil _ _

theorem ofFragments_concat (fragments : List Expr) (e : Expr) :
    ofFragments (fragments ++ [e]) = (ofFragments fragments).add e := by
  rw [ofFragments, List.foldl_append]
  rfl

/-- What holds of the single terms and of the groups, shown by what one more
fragment does. -/
theorem ofFragments_induction {S : Expr → Prop} {G : FactorGroup → Prop} {fragments : List Expr}
    (single : ∀ e ∈ fragments, ∀ only, distinct e.terms = [only] → S only)
    (opens : ∀ e ∈ fragments, ∀ lead next rest, distinct e.terms = lead :: next :: rest →
      G ⟨lead, [Expr.all (next :: rest)]⟩)
    (joins : ∀ e ∈ fragments, ∀ lead next rest, distinct e.terms = lead :: next :: rest →
      ∀ g, G g → (g.lead == lead) = true → G ⟨g.lead, g.members ++ [Expr.all (next :: rest)]⟩) :
    (∀ e ∈ (ofFragments fragments).singles, S e) ∧ ∀ g ∈ (ofFragments fragments).groups, G g := by
  induction fragments using List.reverseRecOn with
  | nil => exact ⟨fun _ h => absurd h List.not_mem_nil, fun _ h => absurd h List.not_mem_nil⟩
  | append_singleton fragments e ih =>
      obtain ⟨hsingles, hgroups⟩ := ih (fun d hd => single d (List.mem_append_left _ hd))
        (fun d hd => opens d (List.mem_append_left _ hd))
        (fun d hd => joins d (List.mem_append_left _ hd))
      have he : e ∈ fragments ++ [e] := List.mem_append_right _ List.mem_cons_self
      rw [ofFragments_concat, add]
      split
      · exact ⟨hsingles, hgroups⟩
      · rename_i only hterms
        refine ⟨?_, by split <;> exact hgroups⟩
        split
        · exact hsingles
        · intro d hd
          rcases List.mem_append.mp hd with hd | hd
          · exact hsingles d hd
          · rw [List.mem_singleton.mp hd]
            exact single e he only hterms
      · rename_i lead rest hnot hterms
        refine ⟨hsingles, fun g hg => ?_⟩
        cases rest with
        | nil => exact absurd rfl hnot
        | cons next rest =>
            rcases mem_addMember hg with hg | rfl | ⟨old, hold, hs, rfl⟩
            · exact hgroups g hg
            · exact opens e he lead next rest hterms
            · exact joins e he lead next rest hterms old (hgroups old hold) hs

/-- Every group has a member. -/
theorem members_ne_nil {fragments : List Expr} {g : FactorGroup}
    (h : g ∈ (ofFragments fragments).groups) : g.members ≠ [] :=
  (ofFragments_induction (S := fun _ => True) (G := fun g => g.members ≠ [])
    (fun _ _ _ _ => trivial) (fun _ _ _ _ _ _ => List.cons_ne_nil _ _)
    (fun _ _ _ _ _ _ _ _ _ => List.append_ne_nil_of_right_ne_nil _ (List.cons_ne_nil _ _))).2 g h

end Factoring

/-! ## Merged groups -/

namespace FactorGroup

variable {input : Option Json} {context : Context} {rank : Rank} {c : Connective}
variable {g : FactorGroup}

theorem ranked_perm (rank : Rank) (g : FactorGroup) : (g.ranked rank).Perm g.members :=
  List.mergeSort_perm _ _

theorem mem_ranked {m : Expr} : m ∈ g.ranked rank ↔ m ∈ g.members := (ranked_perm rank g).mem_iff

theorem ranked_ne_nil (h : g.members ≠ []) : g.ranked rank ≠ [] := fun hnil =>
  h (List.Perm.nil_eq (hnil ▸ ranked_perm rank g)).symm

/-- A merged group runs like its leading term in front of its members. -/
theorem eval_merge (h : g.members ≠ []) :
    eval input (g.merge rank c) context =
      evalParts input .and [g.lead, .node c (g.ranked rank)] context := by
  have hne : g.ranked rank ≠ [] := ranked_ne_nil h
  rw [merge]
  split
  · rename_i hnil
    exact absurd hnil hne
  · rename_i only honly
    rw [eval_all, honly, evalParts_pair, evalParts_pair, eval_node, evalParts_singleton]
  · rw [eval_all, evalParts_pair, evalParts_pair, eval_combine, eval_node]

/-- A merged group comes to the same atoms as its leading term in front of its
members. -/
theorem reached_merge (h : g.members ≠ []) :
    reached input (g.merge rank c) context =
      reachedParts input .and [g.lead, .node c (g.ranked rank)] context := by
  have hne : g.ranked rank ≠ [] := ranked_ne_nil h
  rw [merge]
  split
  · rename_i hnil
    exact absurd hnil hne
  · rename_i only honly
    rw [reached_all, honly, reachedParts_pair, reachedParts_pair, reached_node,
      reachedParts_singleton]
  · rw [reached_all, reachedParts_pair, reachedParts_pair, reached_combine, reached_node]

/-- The atoms of a merged group are those of its leading term and its members. -/
theorem atoms_merge : (g.merge rank c).atoms = g.lead.atoms ++ atomsOfAll (g.ranked rank) := by
  rw [merge]
  split
  · rename_i hnil
    rw [hnil, atomsOfAll_nil, List.append_nil]
  · rename_i only honly
    rw [honly, atoms_all, atomsOfAll_cons]
  · rw [atoms_all, atomsOfAll_cons, atomsOfAll_cons, atoms_combine, atomsOfAll_nil,
      List.append_nil]

theorem mem_atoms_merge {a : Expr} :
    a ∈ (g.merge rank c).atoms ↔ a ∈ g.lead.atoms ∨ ∃ m ∈ g.members, a ∈ m.atoms := by
  simp only [atoms_merge, List.mem_append, mem_atomsOfAll, mem_ranked]

end FactorGroup

/-- A part of the factored list is a single term or a merged group. -/
theorem mem_factor {rank : Rank} {c : Connective} {fragments : List Expr} {e : Expr} :
    e ∈ factor rank c fragments ↔
      e ∈ (Factoring.ofFragments fragments).singles ∨
        ∃ g ∈ (Factoring.ofFragments fragments).groups, e = g.merge rank c := by
  simp only [factor, List.mem_append, List.mem_map, eq_comm]

/-- A property of expressions that taking to pieces and joining again keeps. -/
structure Expr.Stable (P : Expr → Prop) : Prop where
  /-- Guards for truthiness have it. -/
  truthy : ∀ s, P (.truthy s)
  /-- Guards for objects have it. -/
  isObject : ∀ s, P (.isObject s)
  /-- Negations keep it. -/
  not : ∀ e, P e → P (.not e)
  /-- Joins of at least one part keep it. -/
  combine : ∀ c parts, parts ≠ [] → (∀ e ∈ parts, P e) → P (Connective.combine c parts)
  /-- The parts of a conjunction take it over. -/
  parts : ∀ parts, P (.node .and parts) → ∀ e ∈ parts, P e

section Stable

variable {P : Expr → Prop} {rank : Rank} {c : Connective} {fragments : List Expr} {e : Expr}

/-- The terms of an expression take a stable property over. -/
theorem Expr.Stable.of_mem_terms {t : Expr} (hP : Expr.Stable P) (h : P e) (ht : t ∈ e.terms) :
    P t := by
  induction e with
  | node c parts ih =>
      cases c with
      | or => exact List.mem_singleton.mp ht ▸ h
      | and =>
          rw [terms, termsOfAll_eq_flatMap] at ht
          obtain ⟨e, he, hte⟩ := List.mem_flatMap.mp ht
          exact ih e he (hP.parts parts h e he) hte
  | _ => exact List.mem_singleton.mp ht ▸ h

/-- Sorting keeps a stable property. -/
theorem Expr.Stable.of_ofFragments (hP : Expr.Stable P) (h : ∀ d ∈ fragments, P d) :
    (∀ e ∈ (Factoring.ofFragments fragments).singles, P e) ∧
      ∀ g ∈ (Factoring.ofFragments fragments).groups, P g.lead ∧ ∀ m ∈ g.members, P m := by
  have hrest : ∀ d ∈ fragments, ∀ lead next rest,
      Factoring.distinct d.terms = lead :: next :: rest →
        P lead ∧ P (Expr.all (next :: rest)) := by
    intro d hd lead next rest hterms
    have hchain : ∀ t ∈ lead :: next :: rest, P t := fun t ht =>
      hP.of_mem_terms (h d hd) (Factoring.mem_of_mem_distinct (hterms ▸ ht))
    rw [List.forall_mem_cons] at hchain
    exact ⟨hchain.1, hP.combine .and _ (List.cons_ne_nil _ _) hchain.2⟩
  refine Factoring.ofFragments_induction ?_ ?_ ?_
  · intro d hd only honly
    exact hP.of_mem_terms (h d hd) (Factoring.mem_of_mem_distinct (honly ▸ List.mem_cons_self))
  · intro d hd lead next rest hterms
    obtain ⟨hlead, hmember⟩ := hrest d hd lead next rest hterms
    exact ⟨hlead, List.forall_mem_singleton.mpr hmember⟩
  · intro d hd lead next rest hterms g hg _
    obtain ⟨-, hmember⟩ := hrest d hd lead next rest hterms
    exact ⟨hg.1, List.forall_mem_append.mpr ⟨hg.2, List.forall_mem_singleton.mpr hmember⟩⟩

/-- Factoring keeps a stable property. -/
theorem Expr.Stable.of_mem_factor (hP : Expr.Stable P) (h : ∀ d ∈ fragments, P d)
    (he : e ∈ factor rank c fragments) : P e := by
  obtain ⟨hsingles, hgroups⟩ := hP.of_ofFragments h
  have hpair : ∀ lead rest, P lead → P rest → P (Expr.all [lead, rest]) := fun lead rest hl hr =>
    hP.combine .and _ (List.cons_ne_nil _ _)
      (List.forall_mem_cons.mpr ⟨hl, List.forall_mem_singleton.mpr hr⟩)
  rcases mem_factor.mp he with he | ⟨g, hg, rfl⟩
  · exact hsingles e he
  · obtain ⟨hlead, hmembers⟩ := hgroups g hg
    have hranked : ∀ m ∈ g.ranked rank, P m := fun m hm =>
      hmembers m (FactorGroup.mem_ranked.mp hm)
    rw [FactorGroup.merge]
    split
    · exact hlead
    · rename_i only honly
      exact hpair _ _ hlead (hranked only (honly ▸ List.mem_cons_self))
    · refine hpair _ _ hlead (hP.combine c _ ?_ hranked)
      exact FactorGroup.ranked_ne_nil (Factoring.members_ne_nil hg)

end Stable

/-- No part of a factored list is without atoms, if no fragment was. -/
theorem atoms_ne_nil_of_mem_factor {rank : Rank} {c : Connective} {fragments : List Expr}
    {e : Expr} (h : ∀ d ∈ fragments, d.atoms ≠ []) (he : e ∈ factor rank c fragments) :
    e.atoms ≠ [] := by
  -- An atom of a fragment stands in one of its terms, and a term like that one stays.
  have hterm : ∀ d ∈ fragments, ∃ t ∈ Factoring.distinct d.terms, t.atoms ≠ [] := by
    intro d hd
    obtain ⟨a, ha⟩ := List.exists_mem_of_ne_nil _ (h d hd)
    obtain ⟨t, ht, hat⟩ := mem_atomsOfAll.mp (atomsOfAll_terms d ▸ ha)
    obtain ⟨u, hu, hs⟩ := Factoring.exists_same_of_mem ht
    exact ⟨u, hu, ne_nil_of_sameParts (sameParts_atoms hs) (List.ne_nil_of_mem hat)⟩
  have hall : (∀ e ∈ (Factoring.ofFragments fragments).singles, e.atoms ≠ []) ∧
      ∀ g ∈ (Factoring.ofFragments fragments).groups,
        g.lead.atoms ≠ [] ∨ ∃ m ∈ g.members, m.atoms ≠ [] := by
    refine Factoring.ofFragments_induction ?_ ?_ ?_
    · intro d hd only honly
      obtain ⟨t, ht, hat⟩ := hterm d hd
      rw [honly] at ht
      rwa [← List.mem_singleton.mp ht]
    · intro d hd lead next rest hterms
      obtain ⟨t, ht, hat⟩ := hterm d hd
      rw [hterms] at ht
      rcases List.mem_cons.mp ht with rfl | ht
      · exact .inl hat
      · obtain ⟨a, ha⟩ := List.exists_mem_of_ne_nil _ hat
        refine .inr ⟨_, List.mem_cons_self, List.ne_nil_of_mem (a := a) ?_⟩
        rw [atoms_all]
        exact mem_atomsOfAll.mpr ⟨t, ht, ha⟩
    · intro d hd lead next rest hterms g hg _
      exact hg.imp_right fun ⟨m, hm, ha⟩ => ⟨m, List.mem_append_left _ hm, ha⟩
  rcases mem_factor.mp he with he | ⟨g, hg, rfl⟩
  · exact hall.1 e he
  · rcases hall.2 g hg with ha | ⟨m, hm, ha⟩
    · obtain ⟨a, ha⟩ := List.exists_mem_of_ne_nil _ ha
      exact List.ne_nil_of_mem (FactorGroup.mem_atoms_merge.mpr (.inl ha))
    · obtain ⟨a, ha⟩ := List.exists_mem_of_ne_nil _ ha
      exact List.ne_nil_of_mem (FactorGroup.mem_atoms_merge.mpr (.inr ⟨m, hm, ha⟩))

/-- Fragments with terms leave something when they are factored. -/
theorem factor_ne_nil {rank : Rank} {c : Connective} {fragments : List Expr}
    (hne : fragments ≠ []) (h : ∀ d ∈ fragments, d.terms ≠ []) :
    factor rank c fragments ≠ [] := by
  obtain ⟨front, last, hconcat⟩ := (List.eq_nil_or_concat fragments).resolve_left hne
  rw [List.concat_eq_append] at hconcat
  subst hconcat
  have hlast : last.terms ≠ [] := h last (List.mem_append_right _ List.mem_cons_self)
  -- The last fragment is a single term, which is there afterwards, or has a group.
  rw [factor, Factoring.ofFragments_concat, Factoring.add]
  split
  · rename_i hnil
    exact absurd hnil (Factoring.distinct_ne_nil hlast)
  · rename_i only _
    split
    · rename_i hseen
      obtain ⟨d, hd, -⟩ := List.contains_iff_exists_mem_beq.mp hseen
      exact List.ne_nil_of_mem (List.mem_append_left _ hd)
    · exact List.ne_nil_of_mem (List.mem_append_left _ (List.mem_append_right _ List.mem_cons_self))
  · rename_i lead rest _ _
    refine List.append_ne_nil_of_right_ne_nil _ fun hmap => ?_
    exact Factoring.addMember_ne_nil (List.map_eq_nil_iff.mp hmap)

/-! ## Answers of factored joins -/

section Tame

variable {T : Test → Prop} {input : Option Json} {context : Context} {c : Connective}

/-- Taking expressions to pieces and joining them again makes up no tests. -/
theorem stable_over : Stable fun e => e.Over T where
  truthy := over_truthy
  isObject := over_isObject
  not _ h := over_not.mpr h
  combine _ _ _ h := over_combine.mpr h
  parts _ := over_node.mp

/-- Repeated terms add nothing to a chain. -/
theorem fold_holds_distinct (hT : Test.Tame T) {ts : List Expr} (h : ∀ t ∈ ts, t.Over T) :
    Connective.and.fold ((Factoring.distinct ts).map (holds input context)) =
      Connective.and.fold (ts.map (holds input context)) := by
  induction ts using List.reverseRecOn with
  | nil => rfl
  | append_singleton ts t ih =>
      have hts : ∀ u ∈ ts, u.Over T := fun u hu => h u (List.mem_append_left _ hu)
      have ht : t.Over T := h t (List.mem_append_right _ List.mem_cons_self)
      rw [Factoring.distinct_concat, List.map_append, Connective.fold_append, ← ih hts]
      split
      · rename_i hseen
        obtain ⟨u, hu, hs⟩ := List.contains_iff_exists_mem_beq.mp hseen
        have heq : holds input context t = holds input context u :=
          holds_of_same hT ht (hts u (Factoring.mem_of_mem_distinct hu)) hs
        rw [List.map_singleton, heq, Connective.fold_cons, Connective.fold_nil, Connective.op_unit]
        exact (Connective.fold_op_of_mem _ (List.mem_map_of_mem hu)).symm
      · rw [List.map_append, Connective.fold_append]

/-- The answer of a fragment, from its distinct terms. -/
theorem holds_eq_fold_distinct (hT : Test.Tame T) {e : Expr} (h : e.Over T) :
    holds input context e =
      Connective.and.fold ((Factoring.distinct e.terms).map (holds input context)) := by
  rw [fold_holds_distinct hT fun t ht => h.of_mem_terms ht, holds_eq_fold_terms hT h]

/-- The answer a group stands for: its leading term in front of its members. -/
def FactorGroup.holds (input : Option Json) (context : Context) (c : Connective)
    (g : FactorGroup) : Bool :=
  g.lead.holds input context && c.fold (g.members.map (Expr.holds input context))

/-- The answer that sorted fragments stand for. -/
def Factoring.holds (input : Option Json) (context : Context) (c : Connective) (f : Factoring) :
    Bool :=
  c.op (c.fold (f.singles.map (Expr.holds input context)))
    (c.fold (f.groups.map (FactorGroup.holds input context c)))

/-- One more member joins its answer to the answer of the groups. -/
theorem fold_holds_addMember (hT : Test.Tame T) {lead member : Expr} {groups : List FactorGroup}
    (hlead : lead.Over T) (hgroups : ∀ g ∈ groups, g.lead.Over T) :
    c.fold ((Factoring.addMember lead member groups).map (FactorGroup.holds input context c)) =
      c.op (c.fold (groups.map (FactorGroup.holds input context c)))
        (lead.holds input context && member.holds input context) := by
  induction groups with
  | nil => simp [Factoring.addMember, FactorGroup.holds]
  | cons g rest ih =>
      have hrest := ih fun g hg => hgroups g (List.mem_cons_of_mem _ hg)
      rw [Factoring.addMember]
      split
      · rename_i hs
        have heq : g.lead.holds input context = lead.holds input context :=
          holds_of_same hT (hgroups g List.mem_cons_self) hlead hs
        simp only [List.map_cons, Connective.fold_cons, FactorGroup.holds, List.map_append,
          Connective.fold_append, List.map_nil, Connective.fold_nil, Connective.op_unit, heq,
          Connective.and_op, Connective.op_assoc]
        rw [c.op_comm (lead.holds input context && member.holds input context)]
      · rw [List.map_cons, Connective.fold_cons, hrest, List.map_cons, Connective.fold_cons,
          Connective.op_assoc]

/-- One more fragment joins its answer. -/
theorem holds_add (hT : Test.Tame T) {f : Factoring} {e : Expr} (he : e.Over T)
    (hterms : e.terms ≠ []) (hsingles : ∀ d ∈ f.singles, d.Over T)
    (hgroups : ∀ g ∈ f.groups, g.lead.Over T) :
    (f.add e).holds input context c = c.op (f.holds input context c) (e.holds input context) := by
  have hover : ∀ t ∈ Factoring.distinct e.terms, t.Over T := fun t ht =>
    he.of_mem_terms (Factoring.mem_of_mem_distinct ht)
  rw [holds_eq_fold_distinct hT he, Factoring.add]
  split
  · rename_i hnil
    exact absurd hnil (Factoring.distinct_ne_nil hterms)
  · rename_i only honly
    rw [honly] at hover ⊢
    rw [List.map_singleton, Connective.fold_cons, Connective.fold_nil, Connective.op_unit]
    unfold Factoring.holds
    split
    · rename_i hseen
      obtain ⟨d, hd, hs⟩ := List.contains_iff_exists_mem_beq.mp hseen
      have heq : only.holds input context = d.holds input context :=
        holds_of_same hT (hover only List.mem_cons_self) (hsingles d hd) hs
      rw [Connective.op_assoc, c.op_comm _ (only.holds input context), ← Connective.op_assoc, heq,
        Connective.fold_op_of_mem _ (List.mem_map_of_mem hd)]
    · rw [List.map_append, Connective.fold_append, List.map_singleton, Connective.fold_cons,
        Connective.fold_nil, Connective.op_unit, Connective.op_assoc, Connective.op_assoc,
        c.op_comm (only.holds input context)]
  · rename_i lead rest _ hterms
    rw [hterms] at hover ⊢
    have hrest : ∀ t ∈ rest, t.Over T := fun t ht => hover t (List.mem_cons_of_mem _ ht)
    unfold Factoring.holds
    rw [fold_holds_addMember hT (hover lead List.mem_cons_self) hgroups, List.map_cons,
      Connective.fold_cons, ← Connective.op_assoc, Expr.all, holds_combine hT hrest]
    rfl

/-- The sorted fragments stand for the answer of their join. -/
theorem holds_ofFragments (hT : Test.Tame T) {fragments : List Expr}
    (h : ∀ e ∈ fragments, e.Over T ∧ e.terms ≠ []) :
    (Factoring.ofFragments fragments).holds input context c =
      c.fold (fragments.map (Expr.holds input context)) := by
  induction fragments using List.reverseRecOn with
  | nil => exact c.op_unit _
  | append_singleton fragments e ih =>
      have hold : ∀ d ∈ fragments, d.Over T ∧ d.terms ≠ [] := fun d hd =>
        h d (List.mem_append_left _ hd)
      have he := h e (List.mem_append_right _ List.mem_cons_self)
      obtain ⟨hsingles, hgroups⟩ := stable_over.of_ofFragments fun d hd => (hold d hd).1
      rw [Factoring.ofFragments_concat,
        holds_add hT he.1 he.2 hsingles fun g hg => (hgroups g hg).1, ih hold, List.map_append,
        Connective.fold_append, List.map_singleton, Connective.fold_cons, Connective.fold_nil,
        Connective.op_unit]

/-- A merged group has the answer that the group stands for. -/
theorem holds_merge (hT : Test.Tame T) {rank : Rank} {g : FactorGroup} (hne : g.members ≠ [])
    (hlead : g.lead.Over T) (hmembers : ∀ m ∈ g.members, m.Over T) :
    (g.merge rank c).holds input context = g.holds input context c := by
  have hranked : ∀ m ∈ g.ranked rank, m.Over T := fun m hm =>
    hmembers m (FactorGroup.mem_ranked.mp hm)
  have hpair : ∀ e ∈ [g.lead, Expr.node c (g.ranked rank)], e.Over T := by
    simpa using ⟨hlead, hranked⟩
  rw [Expr.holds, FactorGroup.eval_merge hne, evalParts_of_over hT hpair]
  simp only [List.map_cons, List.map_nil, Connective.fold_cons, Connective.fold_nil,
    Connective.op_unit, holds_node hT hranked]
  rw [c.fold_perm ((FactorGroup.ranked_perm rank g).map _)]
  rfl

/-- Factoring keeps the answer of a join. -/
theorem fold_holds_factor (hT : Test.Tame T) {rank : Rank} {fragments : List Expr}
    (h : ∀ e ∈ fragments, e.Over T ∧ e.terms ≠ []) :
    c.fold ((factor rank c fragments).map (Expr.holds input context)) =
      c.fold (fragments.map (Expr.holds input context)) := by
  obtain ⟨-, hgroups⟩ := (stable_over (T := T)).of_ofFragments fun d hd => (h d hd).1
  have hmerge : (Factoring.ofFragments fragments).groups.map
      (Expr.holds input context ∘ FactorGroup.merge rank c) =
      (Factoring.ofFragments fragments).groups.map (FactorGroup.holds input context c) :=
    List.map_congr_left fun g hg =>
      holds_merge hT (Factoring.members_ne_nil hg) (hgroups g hg).1 (hgroups g hg).2
  rw [← holds_ofFragments hT h, factor, List.map_append, Connective.fold_append, List.map_map,
    hmerge]
  rfl

/-- The join of factored fragments runs like the fragments one after another. -/
theorem eval_combine_factor (hT : Test.Tame T) {rank : Rank} {fragments : List Expr}
    (h : ∀ e ∈ fragments, e.Over T ∧ e.terms ≠ []) :
    eval input (c.combine (factor rank c fragments)) context =
      evalParts input c fragments context := by
  rw [eval_combine,
    evalParts_of_over hT fun e he => stable_over.of_mem_factor (fun d hd => (h d hd).1) he,
    evalParts_of_over hT fun e he => (h e he).1, fold_holds_factor hT h]

end Tame

end Criteria
