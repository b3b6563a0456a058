import Criteria.Proofs.Expr.Counting
import Criteria.Proofs.Plan.Basic

/-!
# Repeated terms

Factoring a single fragment has nothing to merge: all that it does is drop repeated
terms.  Where tests change the context, a repeated term is not the same as one, unless
it is a guard, because a guard that has held goes on holding.  So an expression whose
chain of terms repeats guards at most means the same after factoring, and joining keeps
it that way, if a disjunction that joining unwraps hides no other repetition.

* `Expr.IsGuard`: the two kinds of guards.
* `Expr.RepeatsOnly`: what may be repeated in an expression's chain of terms.
* `Factoring.evalParts_distinct`: dropping repeated guards keeps the answer and the
  context.
* `Plan.join_singleton`: the join of one fragment.
-/

namespace Criteria

namespace Expr

variable {P : Expr → Prop} {input : Option Json} {context : Context} {c : Connective}

/-! ## Chains of terms -/

theorem terms_of_mem_terms {e t : Expr} (h : t ∈ e.terms) : t.terms = [t] := by
  induction e with
  | node c parts ih =>
      cases c with
      | or =>
          rw [List.mem_singleton.mp h]
          rfl
      | and =>
          rw [terms, termsOfAll_eq_flatMap] at h
          obtain ⟨e, he, hte⟩ := List.mem_flatMap.mp h
          exact ih e he hte
  | _ =>
      rw [List.mem_singleton.mp h]
      rfl

theorem flatMap_terms_operands (e : Expr) : (e.operands .and).flatMap terms = e.terms := by
  cases e with
  | node c parts =>
      cases c with
      | or => exact List.flatMap_singleton terms _
      | and => exact (termsOfAll_eq_flatMap parts).symm
  | _ => exact List.flatMap_singleton terms _

/-- The chain of a conjunction is made up of the chains of its parts. -/
theorem terms_all (parts : List Expr) : (Expr.all parts).terms = parts.flatMap terms := by
  have hflat : (parts.flatMap (operands .and)).flatMap terms = parts.flatMap terms := by
    rw [List.flatMap_assoc]
    exact List.flatMap_congr fun e _ => flatMap_terms_operands e
  rw [Expr.all, Connective.combine, ← hflat]
  split
  · rename_i only honly
    rw [honly, List.flatMap_singleton]
  · exact termsOfAll_eq_flatMap _

/-- The chain of a conjunction of terms. -/
theorem terms_all_of_forall {ts : List Expr} (h : ∀ t ∈ ts, t.terms = [t]) :
    (Expr.all ts).terms = ts := by
  rw [terms_all, List.flatMap_congr h, List.flatMap_singleton']

/-- Joining a single part leaves it as it is or unwraps it. -/
theorem combine_singleton (c : Connective) (e : Expr) :
    c.combine [e] = e ∨ ∃ part, e = .node c [part] ∧ c.combine [e] = part := by
  have hflat : [e].flatMap (operands c) = e.operands c := List.flatMap_singleton _ _
  rw [Connective.combine, hflat]
  cases e with
  | node d parts =>
      rw [operands]
      by_cases hd : d = c
      · subst hd
        rw [if_pos rfl]
        split
        · rename_i only
          exact .inr ⟨only, rfl, rfl⟩
        · exact .inl rfl
      · rw [if_neg hd]
        exact .inl rfl
  | _ => exact .inl rfl

/-! ## Guards -/

/-- A guard on the value at a scope. -/
def IsGuard : Expr → Prop
  | .truthy _ | .isObject _ => True
  | _ => False

/-- Guards have an answer of their own and leave the context alone. -/
theorem IsGuard.eval_eq {g : Expr} (h : g.IsGuard) (input : Option Json) :
    ∃ b, ∀ context, eval input g context = (b, context) := by
  cases g with
  | truthy s => exact ⟨_, fun _ => eval_truthy s⟩
  | isObject s => exact ⟨_, fun _ => eval_isObject s⟩
  | _ => exact h.elim

/-- What is the same as a guard is that guard. -/
theorem IsGuard.eq_of_same {e g : Expr} (hg : g.IsGuard) (h : (e == g) = true) : e = g := by
  change e.same g = true at h
  cases g with
  | truthy s => cases e <;> simp_all [same]
  | isObject s => cases e <;> simp_all [same]
  | _ => exact hg.elim

/-- A guard in a chain that holds goes on holding. -/
theorem IsGuard.eval_of_holds {g : Expr} (hg : g.IsGuard) {ts : List Expr} (hmem : g ∈ ts)
    (h : (evalParts input .and ts context).1 = true) (after : Context) :
    eval input g after = (true, after) := by
  obtain ⟨b, hb⟩ := hg.eval_eq input
  induction ts generalizing context with
  | nil => exact absurd hmem List.not_mem_nil
  | cons t rest ih =>
      by_cases ht : (eval input t context).1 = false
      · rw [evalParts_cons_of_eq rest ht, ht] at h
        exact nomatch h
      · rcases List.mem_cons.mp hmem with rfl | hmem
        · rw [hb] at ht
          rw [hb, show b = true from Bool.eq_true_of_not_eq_false ht]
        · rw [evalParts_cons_of_ne rest ht] at h
          exact ih hmem h

end Expr

/-! ## Dropping repeated guards -/

namespace Factoring

open Criteria.Expr

variable {P : Expr → Prop} {ts : List Expr} {input : Option Json} {context : Context}

/-- Nothing is repeated among distinct terms. -/
theorem pairwise_distinct (ts : List Expr) :
    (distinct ts).Pairwise fun a b => (a == b) = false := by
  induction ts using List.reverseRecOn with
  | nil => exact .nil
  | append_singleton ts t ih =>
      rw [distinct_concat]
      split
      · exact ih
      · rename_i hnew
        refine List.pairwise_append.mpr ⟨ih, List.pairwise_singleton _ _, fun u hu v hv => ?_⟩
        rw [List.mem_singleton.mp hv, BEq.comm, Bool.eq_false_iff]
        exact fun hs => hnew (List.contains_iff_exists_mem_beq.mpr ⟨u, hu, hs⟩)

/-- Where one term is left, and of a kind that is not repeated, there was no other. -/
theorem eq_of_distinct_eq_singleton {only : Expr} (honly : ¬ P only)
    (hP : ∀ a b, (a == b) = true → P b → P a)
    (h : ts.Pairwise fun a b => (a == b) = true → P b) (hsole : distinct ts = [only]) :
    ts = [only] := by
  have hsame : ∀ t ∈ ts, (t == only) = true := by
    intro t ht
    obtain ⟨u, hu, hs⟩ := exists_same_of_mem ht
    rw [hsole] at hu
    exact List.mem_singleton.mp hu ▸ hs
  cases ts with
  | nil => exact absurd hsole.symm (List.cons_ne_nil _ _)
  | cons first rest =>
      cases rest with
      | nil => exact hsole
      | cons second rest =>
          have hfirst : (first == only) = true := hsame first List.mem_cons_self
          have hsecond : (second == only) = true :=
            hsame second (List.mem_cons_of_mem _ List.mem_cons_self)
          have hrepeated : P second :=
            List.rel_of_pairwise_cons h List.mem_cons_self (BEq.trans hfirst (BEq.symm hsecond))
          exact absurd (hP _ _ (BEq.symm hsecond) hrepeated) honly

/-- Dropping repeated guards keeps the answer and the context. -/
theorem evalParts_distinct (h : ts.Pairwise fun a b => (a == b) = true → b.IsGuard) :
    evalParts input .and (distinct ts) context = evalParts input .and ts context := by
  induction ts using List.reverseRecOn with
  | nil => rfl
  | append_singleton ts t ih =>
      obtain ⟨hts, -, hlast⟩ := List.pairwise_append.mp h
      have hfront : evalParts input .and (distinct ts) context =
        evalParts input .and ts context := ih hts
      rw [distinct_concat]
      split
      · rename_i hseen
        obtain ⟨u, hu, hs⟩ := List.contains_iff_exists_mem_beq.mp hseen
        have hmem : u ∈ ts := mem_of_mem_distinct hu
        have hguard : t.IsGuard := hlast u hmem t List.mem_cons_self (BEq.symm hs)
        obtain rfl : u = t := hguard.eq_of_same (BEq.symm hs)
        rw [hfront, evalParts_append, evalParts_singleton]
        split
        · rfl
        · rename_i hholds
          have htrue : (evalParts input .and ts context).1 = true :=
            Bool.eq_true_of_not_eq_false hholds
          rw [hguard.eval_of_holds hmem htrue]
          exact Prod.ext htrue rfl
      · rw [evalParts_append, hfront, evalParts_append]

end Factoring

/-! ## What may be repeated -/

namespace Expr

/-- Only terms of a kind are repeated in the expression's chain of terms.  Where the
chain is a disjunction of one part, which joining unwraps, the same is said of the
part. -/
inductive RepeatsOnly (P : Expr → Prop) : Expr → Prop where
  /-- From what is said of the chain and of an only part. -/
  | intro {e : Expr} (chain : e.terms.Pairwise fun a b => (a == b) = true → P b)
      (unwrapped : ∀ part, e.terms = [.node .or [part]] → RepeatsOnly P part) : RepeatsOnly P e

namespace RepeatsOnly

variable {P Q : Expr → Prop} {d e : Expr}

theorem chain (h : e.RepeatsOnly P) : e.terms.Pairwise fun a b => (a == b) = true → P b := by
  cases h with
  | intro chain _ => exact chain

theorem unwrapped (h : e.RepeatsOnly P) {part : Expr} (hpart : e.terms = [.node .or [part]]) :
    part.RepeatsOnly P := by
  cases h with
  | intro _ unwrapped => exact unwrapped part hpart

theorem mono (h : e.RepeatsOnly P) (hPQ : ∀ a, P a → Q a) : e.RepeatsOnly Q := by
  induction h with
  | intro chain _ ih => exact ⟨chain.imp fun hab hs => hPQ _ (hab hs), ih⟩

theorem of_terms_eq (h : d.RepeatsOnly P) (hterms : e.terms = d.terms) : e.RepeatsOnly P :=
  ⟨hterms ▸ h.chain, fun _ hpart => h.unwrapped (hterms ▸ hpart)⟩

/-- A chain of one term that is no disjunction of one part. -/
theorem of_single (hterms : e.terms = [e]) (hnode : ∀ part, e ≠ .node .or [part]) :
    e.RepeatsOnly P := by
  refine ⟨hterms ▸ List.pairwise_singleton _ _, fun part hpart => ?_⟩
  exact absurd (List.singleton_inj.mp (hterms ▸ hpart)) (hnode part)

theorem combine_singleton (h : e.RepeatsOnly P) (c : Connective) :
    (c.combine [e]).RepeatsOnly P := by
  rcases Expr.combine_singleton c e with heq | ⟨part, hnode, hpart⟩
  · rwa [heq]
  · rw [hpart]
    cases c with
    | or =>
        refine h.unwrapped ?_
        rw [hnode]
        rfl
    | and =>
        refine h.of_terms_eq ?_
        rw [hnode, terms, termsOfAll_eq_flatMap, List.flatMap_singleton]

/-- Guards may be put in front, whatever guards are there already. -/
theorem guarded (h : e.RepeatsOnly IsGuard) (guards : List Expr) (hne : guards ≠ [])
    (hguards : ∀ g ∈ guards, g.IsGuard) : (Expr.all (guards ++ [e])).RepeatsOnly IsGuard := by
  have hterm : ∀ g ∈ guards, g.terms = [g] := by
    intro g hg
    have hguard := hguards g hg
    cases g with
    | truthy s => rfl
    | isObject s => rfl
    | _ => exact hguard.elim
  have hchain : (Expr.all (guards ++ [e])).terms = guards ++ e.terms := by
    rw [terms_all, List.flatMap_append, List.flatMap_singleton, List.flatMap_congr hterm,
      List.flatMap_singleton']
  refine ⟨?_, fun part hpart => ?_⟩
  · rw [hchain]
    refine List.pairwise_append.mpr ⟨?_, h.chain, fun a ha b _ hs => ?_⟩
    · exact List.pairwise_of_forall_mem_list fun a _ b hb _ => hguards b hb
    · rw [(hguards a ha).eq_of_same (BEq.symm hs)]
      exact hguards a ha
  · obtain ⟨g, hg⟩ := List.exists_mem_of_ne_nil guards hne
    have hmem : g ∈ [Expr.node .or [part]] := hpart ▸ hchain ▸ List.mem_append_left _ hg
    have hguard := hguards g hg
    rw [List.mem_singleton.mp hmem] at hguard
    exact hguard.elim

end RepeatsOnly

end Expr

/-! ## Joins of one fragment -/

open Criteria.Expr

/-- Factoring a single fragment drops repeated terms. -/
theorem factor_singleton (rank : Rank) (c : Connective) {d : Expr} (h : d.terms ≠ []) :
    ∃ m, factor rank c [d] = [m] ∧ m.terms = Factoring.distinct d.terms := by
  have hterm : ∀ t ∈ Factoring.distinct d.terms, t.terms = [t] := fun t ht =>
    terms_of_mem_terms (Factoring.mem_of_mem_distinct ht)
  rw [factor, Factoring.ofFragments, List.foldl_cons, List.foldl_nil, Factoring.add]
  split
  · rename_i hnil
    exact absurd hnil (Factoring.distinct_ne_nil h)
  · rename_i only honly
    rw [honly] at hterm ⊢
    exact ⟨only, rfl, hterm only List.mem_cons_self⟩
  · rename_i lead rest _ hlist
    rw [hlist] at hterm ⊢
    refine ⟨Expr.all [lead, Expr.all rest], ?_, ?_⟩
    · simp [Factoring.empty, Factoring.addMember, FactorGroup.merge, FactorGroup.ranked]
    · rw [terms_all, List.flatMap_cons, List.flatMap_singleton, hterm lead List.mem_cons_self,
        terms_all_of_forall fun t ht => hterm t (List.mem_cons_of_mem _ ht)]
      rfl

/-- The factored join of one fragment that repeats guards at most means what the
fragment means, and repeats guards at most. -/
theorem Plan.join_singleton (c : Connective) {d : Expr} (h : d.RepeatsOnly IsGuard)
    (hterms : d.terms ≠ []) :
    ∃ e, Plan.join true c [d] = some e ∧ e.RepeatsOnly IsGuard ∧
      ∀ input context, e.eval input context = d.eval input context := by
  obtain ⟨m, hfactor, hchain⟩ := factor_singleton Expr.connectives c hterms
  have hm : m.RepeatsOnly IsGuard := by
    refine ⟨?_, fun part hpart => ?_⟩
    · rw [hchain]
      refine (Factoring.pairwise_distinct _).imp fun hnot hs => ?_
      exact absurd hs (Bool.eq_false_iff.mp hnot)
    · refine h.unwrapped (Factoring.eq_of_distinct_eq_singleton id ?_ h.chain (hchain ▸ hpart))
      exact fun a b hs hb => hb.eq_of_same hs ▸ hb
  refine ⟨c.combine [m], ?_, hm.combine_singleton c, fun input context => ?_⟩
  · rw [Plan.join, if_pos rfl, hfactor]
    rfl
  · rw [eval_combine, evalParts_singleton, ← evalParts_terms, hchain,
      Factoring.evalParts_distinct h.chain, evalParts_terms]

end Criteria
