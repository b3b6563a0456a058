import Criteria.Proofs.Expr.Repetition

/-!
# The form of a factored list

What factoring leaves can be told from the chains of distinct terms alone.  The chains of
one term come first, each once; behind them stands one fragment for each leading term of
the longer chains, in the order in which those first appear.  It holds all that was left of
the chains with that leading term, by ascending rank.

* `Factoring.ofFragments_eq`: sorting fragments in one after another finds the leading terms
  and, for each, what is left behind it.
* `FactorGroup.ranked_spec`: members are ranked, and equal ranks keep their order.
* `FactorGroup.merge_spec`: a group is merged behind its leading term.
* `factor_eq`: a factored list, from the chains of its fragments.
* `factoredForm_factor`: the form of a factored list.
-/

namespace Criteria

open Criteria.Expr

/-! ## Chains of distinct terms -/

namespace Expr

/-- The terms of an expression, each where it first stands. -/
def chain (e : Expr) : List Expr := e.terms.eraseDups

/-- The only term of an expression that has one. -/
def onlyTerm? (e : Expr) : Option Expr :=
  match e.chain with
  | [only] => some only
  | _ => none

/-- The leading term of an expression that has more than one. -/
def leadingTerm? (e : Expr) : Option Expr :=
  match e.chain with
  | lead :: _ :: _ => some lead
  | _ => none

/-- What is left of an expression behind a leading term: the conjunction of its other
terms. -/
def behind? (lead e : Expr) : Option Expr :=
  match e.chain with
  | first :: next :: rest => if first == lead then some (Expr.all (next :: rest)) else none
  | _ => none

end Expr

namespace Factoring

/-- Collecting terms that have not been seen erases the repetitions. -/
theorem distinct_eq_eraseDups (ts : List Expr) : distinct ts = ts.eraseDups := by
  suffices h : ∀ seen : List Expr,
      ts.foldl (fun seen e => if seen.contains e then seen else seen ++ [e]) seen =
        List.eraseDupsBy.loop (· == ·) ts seen.reverse from h []
  induction ts with
  | nil => intro seen; rw [List.eraseDupsBy.loop, List.reverse_reverse]; rfl
  | cons t rest ih =>
      intro seen
      rw [List.foldl_cons, ih, List.eraseDupsBy.loop, List.any_reverse,
        ← List.contains_eq_any_beq]
      cases seen.contains t with
      | true => rfl
      | false => simp

theorem distinct_sublist (ts : List Expr) : (distinct ts).Sublist ts := by
  induction ts using List.reverseRecOn with
  | nil => exact .refl _
  | append_singleton ts t ih =>
      rw [distinct_concat]
      split
      · exact ih.trans (List.sublist_append_left _ _)
      · exact ih.append (.refl _)

theorem chain_eq_distinct (e : Expr) : e.chain = distinct e.terms :=
  (distinct_eq_eraseDups _).symm

end Factoring

namespace Expr

variable {c : Connective} {e : Expr}

/-- A term is its own operand in a conjunction. -/
theorem operands_of_mem_terms {t : Expr} (h : t ∈ e.terms) : t.operands .and = [t] := by
  induction e with
  | node c parts ih =>
      cases c with
      | or =>
          rw [List.mem_singleton.mp h]
          rfl
      | and =>
          rw [terms, termsOfAll_eq_flatMap] at h
          obtain ⟨e, he, hte⟩ := List.mem_flatMap.mp h
          exact ih e he hte
  | _ =>
      rw [List.mem_singleton.mp h]
      rfl

theorem mem_terms_of_mem_chain {t : Expr} (h : t ∈ e.chain) : t ∈ e.terms :=
  Factoring.mem_of_mem_distinct (Factoring.chain_eq_distinct e ▸ h)

/-! ## Joins of several parts -/

/-- Parts that are no empty nodes have at least as many operands. -/
theorem length_le_operands {parts : List Expr} (h : ∀ e ∈ parts, e.isFull = true) :
    parts.length ≤ (parts.flatMap (operands c)).length := by
  induction parts with
  | nil => exact Nat.le_refl _
  | cons e rest ih =>
      have hrest := ih fun e he => h e (List.mem_cons_of_mem _ he)
      have hpos : 0 < (e.operands c).length :=
        List.length_pos_of_ne_nil (operands_of_isFull (h e List.mem_cons_self)).1
      rw [List.flatMap_cons, List.length_append, List.length_cons]
      omega

/-- The join of several parts that are no empty nodes is a node with all their operands. -/
theorem combine_of_two_le {parts : List Expr} (hlength : 2 ≤ parts.length)
    (h : ∀ e ∈ parts, e.isFull = true) :
    c.combine parts = .node c (parts.flatMap (operands c)) := by
  have hmany := hlength.trans (length_le_operands (c := c) h)
  rw [Connective.combine]
  split
  · rename_i only honly
    rw [honly] at hmany
    exact absurd hmany (Nat.not_succ_le_self 1)
  · rfl

/-- A term in front of a remainder. -/
theorem all_pair {lead rest : Expr} (hlead : lead.operands .and = [lead])
    (h : ∀ e ∈ [lead, rest], e.isFull = true) :
    Expr.all [lead, rest] = .node .and (lead :: rest.operands .and) := by
  have hlength : 2 ≤ [lead, rest].length := Nat.le_refl 2
  rw [Expr.all, combine_of_two_le hlength h, List.flatMap_cons, List.flatMap_singleton, hlead]
  rfl

end Expr

/-! ## Sorting fragments in -/

namespace Factoring

variable {lead member : Expr} {fragments : List Expr}

/-- Adding a member to groups with different leading terms: the group with the member's
leading term takes it in, and is opened at the end if there is none. -/
theorem addMember_map {leads : List Expr} {members : Expr → List Expr}
    (hleads : leads.Pairwise fun a b => (a == b) = false)
    (hnew : leads.contains lead = false → members lead = []) :
    addMember lead member (leads.map fun l => ⟨l, members l⟩) =
      (if leads.contains lead then leads else leads ++ [lead]).map fun l =>
        ⟨l, members l ++ if lead == l then [member] else []⟩ := by
  induction leads with
  | nil =>
      have hnil : members lead = [] := hnew rfl
      simp [addMember, hnil]
  | cons first rest ih =>
      obtain ⟨hfirst, hrest⟩ := List.pairwise_cons.mp hleads
      have hcomm : (lead == first) = (first == lead) := BEq.comm
      rw [List.map_cons, addMember, List.contains_cons, hcomm]
      cases hs : first == lead with
      | true =>
          have hothers : ∀ l ∈ rest, (lead == l) = false := fun l hl =>
            (BEq.congr_left hs).symm.trans (hfirst l hl)
          have hkept : rest.map (fun l => (⟨l, members l⟩ : FactorGroup)) =
              rest.map fun l => ⟨l, members l ++ if lead == l then [member] else []⟩ :=
            List.map_congr_left fun l hl => by simp [hothers l hl]
          simp [hcomm, hs, hkept]
      | false =>
          have hrest_new : rest.contains lead = false → members lead = [] := fun h =>
            hnew (by rw [List.contains_cons, hcomm, hs, h, Bool.false_or])
          rw [if_neg Bool.false_ne_true, ih hrest hrest_new, Bool.false_or]
          split
          · simp [hcomm, hs]
          · simp [hcomm, hs]

/-- What is left behind a term is left of a fragment that it leads. -/
theorem leadingTerm?_of_behind? {e m : Expr} (h : behind? lead e = some m) :
    ∃ first, leadingTerm? e = some first ∧ (first == lead) = true := by
  rw [behind?] at h
  split at h
  · rename_i first next rest hchain
    refine ⟨first, by rw [leadingTerm?, hchain], ?_⟩
    by_contra hne
    rw [if_neg hne] at h
    exact nomatch h
  · exact nomatch h

/-- Nothing is left behind what leads no fragment. -/
theorem filterMap_behind?_eq_nil
    (h : (distinct (fragments.filterMap leadingTerm?)).contains lead = false) :
    fragments.filterMap (behind? lead) = [] := by
  refine List.filterMap_eq_nil_iff.mpr fun e he => Option.eq_none_iff_forall_ne_some.mpr ?_
  intro m hm
  obtain ⟨first, hfirst, hs⟩ := leadingTerm?_of_behind? hm
  obtain ⟨l, hl, hsame⟩ := exists_same_of_mem (List.mem_filterMap.mpr ⟨e, he, hfirst⟩)
  have hseen : (distinct (fragments.filterMap leadingTerm?)).contains lead = true :=
    List.contains_iff_exists_mem_beq.mpr ⟨l, hl, BEq.trans (BEq.symm hs) hsame⟩
  exact Bool.false_ne_true (h.symm.trans hseen)

/-- Sorting fragments in finds the single terms and the leading terms, each once, and
groups what is left behind every leading term. -/
theorem ofFragments_eq (fragments : List Expr) :
    ofFragments fragments =
      ⟨(fragments.filterMap onlyTerm?).eraseDups,
        (fragments.filterMap leadingTerm?).eraseDups.map fun lead =>
          ⟨lead, fragments.filterMap (behind? lead)⟩⟩ := by
  simp only [← distinct_eq_eraseDups]
  induction fragments using List.reverseRecOn with
  | nil => rfl
  | append_singleton fragments e ih =>
      rw [ofFragments_concat, ih, add, ← chain_eq_distinct]
      cases hchain : e.chain with
      | nil => simp [onlyTerm?, leadingTerm?, behind?, hchain]
      | cons lead rest =>
          cases rest with
          | nil =>
              simp only [List.filterMap_append, List.filterMap_cons, List.filterMap_nil,
                onlyTerm?, leadingTerm?, behind?, hchain, distinct_concat]
              split <;> simp
          | cons next rest =>
              have honly : (fragments ++ [e]).filterMap onlyTerm? =
                  fragments.filterMap onlyTerm? := by simp [onlyTerm?, hchain]
              have hleading : (fragments ++ [e]).filterMap leadingTerm? =
                  fragments.filterMap leadingTerm? ++ [lead] := by simp [leadingTerm?, hchain]
              have hmembers : ∀ l, (fragments ++ [e]).filterMap (behind? l) =
                  fragments.filterMap (behind? l) ++
                    if lead == l then [Expr.all (next :: rest)] else [] := by
                intro l
                cases hs : lead == l <;> simp [behind?, hchain, hs]
              simp only [honly, hleading, hmembers, distinct_concat]
              rw [← addMember_map (pairwise_distinct _) filterMap_behind?_eq_nil]

end Factoring

/-! ## Merging a group -/

/-- Expressions by ascending rank; those of equal rank stand in the order they came in. -/
structure Ranked (rank : Rank) (ranked es : List Expr) : Prop where
  /-- Each of them once. -/
  perm : ranked.Perm es
  /-- Lower ranks first. -/
  ascending : ranked.Pairwise fun a b => rank a ≤ rank b
  /-- Equal ranks in order. -/
  stable : ∀ r, ranked.filter (fun e => rank e = r) = es.filter fun e => rank e = r

/-- What stands behind a shared term: what is left of the one fragment that it leads, or
the join of what is left of several, by ascending rank. -/
inductive Merged (rank : Rank) (c : Connective) : List Expr → Expr → Prop where
  /-- Of one fragment. -/
  | one (e : Expr) : Merged rank c [e] e
  /-- Of several fragments. -/
  | several {es ranked : List Expr} (many : 2 ≤ es.length) (order : Ranked rank ranked es) :
    Merged rank c es (.node c (ranked.flatMap (operands c)))

namespace FactorGroup

variable {g : FactorGroup}

/-- Members are ranked. -/
theorem ranked_spec (rank : Rank) (g : FactorGroup) : Ranked rank (g.ranked rank) g.members := by
  have htrans : ∀ a b d : Expr, decide (rank a ≤ rank b) = true →
      decide (rank b ≤ rank d) = true → decide (rank a ≤ rank d) = true := by
    intro a b d hab hbd
    rw [decide_eq_true_iff] at hab hbd ⊢
    exact hab.trans hbd
  have htotal : ∀ a b : Expr, (decide (rank a ≤ rank b) || decide (rank b ≤ rank a)) = true := by
    intro a b
    rw [Bool.or_eq_true, decide_eq_true_iff, decide_eq_true_iff]
    exact Nat.le_total _ _
  refine ⟨ranked_perm rank g, ?_, fun r => ?_⟩
  · exact (List.pairwise_mergeSort htrans htotal g.members).imp decide_eq_true_iff.mp
  · -- Members of one rank are in order already, and sorting keeps what is.
    let p : Expr → Bool := fun e => rank e = r
    have hequal : (g.members.filter p).Pairwise fun a b => decide (rank a ≤ rank b) = true := by
      refine List.pairwise_of_forall_mem_list fun a ha b hb => ?_
      have hranka : rank a = r := of_decide_eq_true (List.mem_filter.mp ha).2
      have hrankb : rank b = r := of_decide_eq_true (List.mem_filter.mp hb).2
      exact decide_eq_true (hranka.trans hrankb.symm).le
    have hkept : (g.members.filter p).Sublist ((g.ranked rank).filter p) := by
      have hsublist := List.sublist_mergeSort htrans htotal hequal List.filter_sublist
      have hfiltered := hsublist.filter p
      simp only [List.filter_filter, Bool.and_self] at hfiltered
      exact hfiltered
    exact (hkept.eq_of_length ((ranked_perm rank g).filter p).length_eq.symm).symm

/-- A group is merged behind its leading term. -/
theorem merge_spec (rank : Rank) (c : Connective) (hlead : g.lead.operands .and = [g.lead])
    (hfull : g.lead.isFull = true) (hne : g.members ≠ [])
    (hmembers : ∀ m ∈ g.members, m.isFull = true) :
    ∃ rest, Merged rank c g.members rest ∧
      g.merge rank c = .node .and (g.lead :: rest.operands .and) := by
  have hranked : ∀ m ∈ g.ranked rank, m.isFull = true := fun m hm =>
    hmembers m (mem_ranked.mp hm)
  have hpair : ∀ rest : Expr, rest.isFull = true →
      Expr.all [g.lead, rest] = .node .and (g.lead :: rest.operands .and) := fun rest h =>
    all_pair hlead (List.forall_mem_cons.mpr ⟨hfull, List.forall_mem_singleton.mpr h⟩)
  have hspec := ranked_spec rank g
  rw [merge]
  cases hlist : g.ranked rank with
  | nil => exact absurd hlist (ranked_ne_nil hne)
  | cons first others =>
      rw [hlist] at hranked hspec
      cases others with
      | nil =>
          have hmember : g.members = [first] := List.perm_singleton.mp hspec.perm.symm
          exact ⟨first, hmember ▸ .one first, hpair first (hranked first List.mem_cons_self)⟩
      | cons second others =>
          have hmany : 2 ≤ (first :: second :: others).length := Nat.le_add_left _ _
          refine ⟨_, .several (hspec.perm.length_eq ▸ hmany) hspec, ?_⟩
          rw [← combine_of_two_le hmany hranked]
          exact hpair _ (isFull_combine (List.cons_ne_nil _ _) hranked)

end FactorGroup

/-! ## The form of a factored list -/

/-- What is left of fragments that are factored. -/
structure FactoredForm (rank : Rank) (c : Connective) (fragments factored : List Expr) :
    Prop where
  /-- First the terms of the fragments of one term, in order and each once.  Then a fragment
  for each leading term of the others, in order and each once: it starts with that term, and
  goes on with what is left of all fragments that the term leads. -/
  parts : ∃ merged, factored = (fragments.filterMap onlyTerm?).eraseDups ++ merged ∧
    List.Forall₂ (fun lead e => ∃ rest, Merged rank c (fragments.filterMap (behind? lead)) rest ∧
        e = .node .and (lead :: rest.operands .and) ∧ e.terms = lead :: rest.terms)
      (fragments.filterMap leadingTerm?).eraseDups merged
  /-- The single terms are different. -/
  singles : (fragments.filterMap onlyTerm?).eraseDups.Pairwise fun a b => (a == b) = false
  /-- Fragments of several terms start with different ones. -/
  leads : factored.Pairwise fun d e => 2 ≤ d.terms.length → 2 ≤ e.terms.length →
    ∀ t ∈ d.terms.head?, ∀ u ∈ e.terms.head?, (t == u) = false
  /-- There are no more of them than before. -/
  length_le : factored.length ≤ fragments.length

section Parts

variable {rank : Rank} {c : Connective} {fragments : List Expr} {t : Expr}

/-- A single term that is kept is a term of a fragment. -/
theorem terms_of_mem_singles (h : t ∈ Factoring.distinct (fragments.filterMap onlyTerm?)) :
    t.terms = [t] := by
  obtain ⟨e, -, honly⟩ := List.mem_filterMap.mp (Factoring.mem_of_mem_distinct h)
  rw [onlyTerm?] at honly
  split at honly
  · rename_i only hchain
    obtain rfl : only = t := Option.some.inj honly
    exact terms_of_mem_terms (mem_terms_of_mem_chain (hchain ▸ List.mem_cons_self))
  · exact nomatch honly

/-- A leading term is a term of a fragment. -/
theorem exists_fragment_of_mem_leads
    (h : t ∈ Factoring.distinct (fragments.filterMap leadingTerm?)) :
    ∃ e ∈ fragments, t ∈ e.terms := by
  obtain ⟨e, he, hlead⟩ := List.mem_filterMap.mp (Factoring.mem_of_mem_distinct h)
  rw [leadingTerm?] at hlead
  split at hlead
  · rename_i lead next rest hchain
    obtain rfl : lead = t := Option.some.inj hlead
    exact ⟨e, he, mem_terms_of_mem_chain (hchain ▸ List.mem_cons_self)⟩
  · exact nomatch hlead

/-- A fragment has one term, or a leading term, or none at all. -/
theorem length_filterMap_le (fragments : List Expr) :
    (fragments.filterMap onlyTerm?).length + (fragments.filterMap leadingTerm?).length ≤
      fragments.length := by
  induction fragments with
  | nil => exact Nat.le_refl _
  | cons e rest ih =>
      rcases hchain : e.chain with _ | ⟨lead, _ | ⟨next, others⟩⟩
      · simp [onlyTerm?, leadingTerm?, hchain]
        omega
      · simp [onlyTerm?, leadingTerm?, hchain]
        omega
      · simp [onlyTerm?, leadingTerm?, hchain]
        omega

/-- The fragment that factoring leaves for a leading term. -/
def mergedBehind (rank : Rank) (c : Connective) (fragments : List Expr) (lead : Expr) : Expr :=
  FactorGroup.merge rank c ⟨lead, fragments.filterMap (behind? lead)⟩

/-- A factored list, from the chains of its fragments. -/
theorem factor_eq (rank : Rank) (c : Connective) (fragments : List Expr) :
    factor rank c fragments = Factoring.distinct (fragments.filterMap onlyTerm?) ++
      (Factoring.distinct (fragments.filterMap leadingTerm?)).map
        (mergedBehind rank c fragments) := by
  rw [factor, Factoring.ofFragments_eq, List.map_map, ← Factoring.distinct_eq_eraseDups,
    ← Factoring.distinct_eq_eraseDups]
  rfl

/-- The fragment of a leading term starts with the term and goes on with what is left behind
it. -/
theorem mergedBehind_spec (rank : Rank) (c : Connective)
    (hfull : ∀ d ∈ fragments, d.isFull = true)
    (h : t ∈ Factoring.distinct (fragments.filterMap leadingTerm?)) :
    ∃ rest, Merged rank c (fragments.filterMap (behind? t)) rest ∧
      mergedBehind rank c fragments t = .node .and (t :: rest.operands .and) ∧
      (mergedBehind rank c fragments t).terms = t :: rest.terms := by
  obtain ⟨e, -, hterm⟩ := exists_fragment_of_mem_leads h
  have hgroup : ⟨t, fragments.filterMap (behind? t)⟩ ∈
      (Factoring.ofFragments fragments).groups := by
    rw [Factoring.ofFragments_eq]
    exact List.mem_map_of_mem (Factoring.distinct_eq_eraseDups _ ▸ h)
  obtain ⟨hlead, hmembers⟩ := (stable_isFull.of_ofFragments hfull).2 _ hgroup
  obtain ⟨rest, hrest, hmerge⟩ := FactorGroup.merge_spec rank c (operands_of_mem_terms hterm) hlead
    (Factoring.members_ne_nil hgroup) hmembers
  refine ⟨rest, hrest, hmerge, ?_⟩
  rw [mergedBehind, hmerge, terms, termsOfAll_eq_flatMap, List.flatMap_cons,
    flatMap_terms_operands, terms_of_mem_terms hterm]
  rfl

theorem head?_terms_mergedBehind (hfull : ∀ d ∈ fragments, d.isFull = true)
    (h : t ∈ Factoring.distinct (fragments.filterMap leadingTerm?)) :
    (mergedBehind rank c fragments t).terms.head? = some t := by
  obtain ⟨rest, -, -, hterms⟩ := mergedBehind_spec rank c hfull h
  rw [hterms, List.head?_cons]

end Parts

/-- Without empty nodes, factoring leaves exactly the single terms and one fragment for each
leading term, whatever the ranking and the connective. -/
theorem factoredForm_factor (rank : Rank) (c : Connective) {fragments : List Expr}
    (hfull : ∀ d ∈ fragments, d.isFull = true) :
    FactoredForm rank c fragments (factor rank c fragments) := by
  have hsingle : ∀ d ∈ Factoring.distinct (fragments.filterMap onlyTerm?),
      ¬ 2 ≤ d.terms.length := by
    intro d hd
    rw [terms_of_mem_singles hd]
    exact Nat.not_succ_le_self 1
  refine ⟨⟨(Factoring.distinct (fragments.filterMap leadingTerm?)).map
    (mergedBehind rank c fragments), ?_, ?_⟩, ?_, ?_, ?_⟩
  · rw [factor_eq, Factoring.distinct_eq_eraseDups]
  · rw [← Factoring.distinct_eq_eraseDups, List.forall₂_map_right_iff]
    exact List.forall₂_same.mpr fun lead => mergedBehind_spec rank c hfull
  · rw [← Factoring.distinct_eq_eraseDups]
    exact Factoring.pairwise_distinct _
  · rw [factor_eq]
    refine List.pairwise_append.mpr ⟨?_, ?_, fun d hd e _ hd' => absurd hd' (hsingle d hd)⟩
    · exact List.pairwise_of_forall_mem_list fun d hd e _ hd' => absurd hd' (hsingle d hd)
    · refine List.pairwise_map.mpr ((Factoring.pairwise_distinct _).imp_of_mem ?_)
      intro a b ha hb hab _ _ t ht u hu
      rw [head?_terms_mergedBehind hfull ha, Option.mem_some_iff] at ht
      rw [head?_terms_mergedBehind hfull hb, Option.mem_some_iff] at hu
      rwa [← ht, ← hu]
  · rw [factor_eq, List.length_append, List.length_map]
    exact (Nat.add_le_add (Factoring.distinct_sublist _).length_le
      (Factoring.distinct_sublist _).length_le).trans (length_filterMap_le fragments)

/-- Disjunctions of several ranks and repeated terms behind one guard, among single terms and
behind another. -/
def interleaved : List Expr :=
  let g := Expr.truthy (Scope.ofRoot "entry")
  let a := Expr.truthy ⟨"entry", ["a"]⟩
  let b := Expr.isObject ⟨"entry", ["b"]⟩
  [.node .and [g, .node .or [a, b, a]], b, .node .and [.node .and [g, g], .node .or [a]],
    .node .and [.not a, b, a], .node .and [b, b], .node .and [g, .node .and [a, b, a]]]

theorem factoredForm_factor_interleaved :
    (∀ d ∈ interleaved, d.isFull = true) ∧
      FactoredForm Expr.connectives .or interleaved (factor Expr.connectives .or interleaved) := by
  have hfull : ∀ d ∈ interleaved, d.isFull = true := by decide
  exact ⟨hfull, factoredForm_factor Expr.connectives .or hfull⟩

end Criteria
