import Criteria.Proofs.Operator.Coherence
import Criteria.Proofs.Plan.Compiling

/-!
# Guarded access

A script that reads `root["a"]["b"]` throws where `root["a"]` is missing or
`null`.  An evaluated predicate never comes to such a read: the guards in front of
a test have settled the answer before.  Factoring keeps this, although it drops
repeated guards and moves fragments around, because what stands in front of a
fragment's test within the fragment's own chain stays in front of it.

* `Scope.Unsafe`: reading the scope throws.
* `Expr.Safe`: no guard or test that is come to reads an unsafe scope.
* `Expr.safe_of_mem_factor`: factoring keeps fragments safe.
* `Compiler.safe_compilePredicate`: predicates are safe on every input.
-/

namespace Criteria

/-! ## Unsafe scopes -/

namespace Scope

variable {input : Option Json}

/-- The scope that the first keys of a path lead to. -/
def outer (s : Scope) (i : Nat) : Scope := ⟨s.root, s.keys.take i⟩

theorem outer_depth (s : Scope) : s.outer s.depth = s := by
  rw [outer, depth, List.take_length]

theorem outer_child {s : Scope} {i : Nat} (h : i ≤ s.depth) (key : String) :
    (s.child key).outer i = s.outer i := by
  rw [outer, outer, child, List.take_append_of_le_length h]

/-- Some proper prefix of the path leads to nothing or to `null`. -/
def Unsafe (s : Scope) (input : Option Json) : Prop :=
  ∃ i < s.depth, (s.outer i).resolve input = none ∨ (s.outer i).resolve input = some .null

/-- The input itself can always be read. -/
theorem not_unsafe_ofRoot (root : String) : ¬ (ofRoot root).Unsafe input := by
  rintro ⟨i, hi, -⟩
  exact absurd hi (Nat.not_lt_zero i)

/-- One level below a truthy value can be read if the value can. -/
theorem not_unsafe_child {s : Scope} (hs : ¬ s.Unsafe input)
    (htruthy : Json.truthy (s.resolve input) = true) (key : String) :
    ¬ (s.child key).Unsafe input := by
  rintro ⟨i, hi, hnothing⟩
  have hle : i ≤ s.depth := by
    rw [depth, child, List.length_append] at hi
    exact Nat.lt_succ_iff.mp hi
  rw [outer_child hle] at hnothing
  rcases Nat.lt_or_eq_of_le hle with hlt | rfl
  · exact hs ⟨i, hlt, hnothing⟩
  · rw [outer_depth] at hnothing
    rcases hnothing with h | h
    · rw [h] at htruthy
      exact nomatch htruthy
    · rw [h] at htruthy
      exact nomatch htruthy

end Scope

/-! ## Safe expressions -/

namespace Expr

/-- No guard or test that evaluation comes to reads an unsafe scope. -/
def Safe (input : Option Json) (context : Context) (e : Expr) : Prop :=
  ∀ a ∈ e.reached input context, ∀ s, a.scope? = some s → ¬ s.Unsafe input

/-- The same for parts evaluated from left to right. -/
def SafeParts (input : Option Json) (context : Context) (c : Connective) (parts : List Expr) :
    Prop :=
  ∀ a ∈ reachedParts input c parts context, ∀ s, a.scope? = some s → ¬ s.Unsafe input

variable {T : Test → Prop} {input : Option Json} {context : Context} {c : Connective}

theorem safe_truthy {s : Scope} (h : ¬ s.Unsafe input) : (truthy s).Safe input context := by
  intro a ha s' hs'
  cases List.mem_singleton.mp ha
  rwa [← Option.some.inj hs']

theorem safe_isObject {s : Scope} (h : ¬ s.Unsafe input) : (isObject s).Safe input context := by
  intro a ha s' hs'
  cases List.mem_singleton.mp ha
  rwa [← Option.some.inj hs']

/-- Reading one safe scope only is safe. -/
theorem At.safe {scope : Scope} {e : Expr} (h : e.At scope) (hs : ¬ scope.Unsafe input) :
    e.Safe input context := by
  intro a ha s hscope
  rwa [h a (mem_atoms_of_mem_reached ha) s hscope]

theorem safe_all {parts : List Expr} :
    (Expr.all parts).Safe input context ↔ SafeParts input context .and parts := by
  rw [Safe, reached_all, SafeParts]

theorem safeParts_terms {e : Expr} :
    SafeParts input context .and e.terms ↔ e.Safe input context := by
  rw [SafeParts, reachedParts_terms, Safe]

theorem safeParts_append (hT : Test.Tame T) {xs ys : List Expr} (hxs : ∀ e ∈ xs, e.Over T) :
    SafeParts input context c (xs ++ ys) ↔
      SafeParts input context c xs ∧
        (c.fold (xs.map (holds input context)) ≠ c.decisive → SafeParts input context c ys) := by
  rw [SafeParts, reachedParts_append, evalParts_of_over hT hxs]
  simp only [List.mem_append, or_imp, forall_and]
  refine and_congr_right fun _ => ?_
  split
  · rename_i h
    simp [h]
  · rename_i h
    simp [h, SafeParts]

theorem safeParts_singleton {e : Expr} : SafeParts input context c [e] ↔ e.Safe input context := by
  rw [SafeParts, reachedParts_singleton, Safe]

/-- A part is safe, and the rest where the part leaves the answer open. -/
theorem safeParts_cons (hT : Test.Tame T) {e : Expr} {rest : List Expr} (he : e.Over T) :
    SafeParts input context c (e :: rest) ↔
      e.Safe input context ∧
        (holds input context e ≠ c.decisive → SafeParts input context c rest) := by
  have happend : SafeParts input context c ([e] ++ rest) ↔ _ :=
    safeParts_append hT (List.forall_mem_singleton.mpr he)
  rwa [safeParts_singleton, List.map_singleton, Connective.fold_cons, Connective.fold_nil,
    Connective.op_unit] at happend

/-- In a chain, the rest is safe where the first term holds. -/
theorem safeParts_and_cons (hT : Test.Tame T) {e : Expr} {rest : List Expr} (he : e.Over T) :
    SafeParts input context .and (e :: rest) ↔
      e.Safe input context ∧
        (holds input context e = true → SafeParts input context .and rest) := by
  rw [safeParts_cons hT he]
  change _ ∧ (_ ≠ false → _) ↔ _
  rw [Bool.ne_false_iff]

/-- Parts that are safe by themselves are safe in any order. -/
theorem safeParts_of_forall (hT : Test.Tame T) {parts : List Expr} (hover : ∀ e ∈ parts, e.Over T)
    (h : ∀ e ∈ parts, e.Safe input context) : SafeParts input context c parts := by
  induction parts with
  | nil => exact fun a ha => absurd ha List.not_mem_nil
  | cons e rest ih =>
      rw [safeParts_cons hT (hover e List.mem_cons_self)]
      exact ⟨h e List.mem_cons_self, fun _ => ih (fun e he => hover e (List.mem_cons_of_mem _ he))
        fun e he => h e (List.mem_cons_of_mem _ he)⟩

end Expr

/-! ## Factoring keeps safety -/

section Factor

variable {T : Test → Prop} {input : Option Json} {context : Context} {c : Connective}

/-- A chain stays safe without its repeated terms: those that stay answer for
those that go. -/
theorem Factoring.safeParts_distinct (hT : Test.Tame T) {ts : List Expr}
    (hover : ∀ t ∈ ts, t.Over T) (h : Expr.SafeParts input context .and ts) :
    Expr.SafeParts input context .and (distinct ts) := by
  induction ts using List.reverseRecOn with
  | nil => exact h
  | append_singleton ts t ih =>
      have hts : ∀ u ∈ ts, u.Over T := fun u hu => hover u (List.mem_append_left _ hu)
      have hdistinct : ∀ u ∈ distinct ts, u.Over T := fun u hu => hts u (mem_of_mem_distinct hu)
      rw [Expr.safeParts_append hT hts] at h
      rw [distinct_concat]
      split
      · exact ih hts h.1
      · rw [Expr.safeParts_append hT hdistinct, fold_holds_distinct hT hts]
        exact ⟨ih hts h.1, h.2⟩

/-- What is said of a group: its leading term is safe, and so are its members
where the leading term holds. -/
structure FactorGroup.Safe (T : Test → Prop) (input : Option Json) (context : Context)
    (g : FactorGroup) : Prop where
  /-- The leading term is over the tests. -/
  leadOver : g.lead.Over T
  /-- The leading term is safe. -/
  lead : g.lead.Safe input context
  /-- Behind the leading term the members are safe. -/
  members : g.lead.holds input context = true → ∀ m ∈ g.members, m.Safe input context

/-- A fragment's distinct terms are a safe chain. -/
theorem Factoring.safeParts_distinct_terms (hT : Test.Tame T) {e : Expr} (hover : e.Over T)
    (h : e.Safe input context) : Expr.SafeParts input context .and (distinct e.terms) :=
  safeParts_distinct hT (fun _ ht => hover.of_mem_terms ht) (Expr.safeParts_terms.mpr h)

/-- Sorting keeps fragments safe, if each is by itself. -/
theorem Factoring.safe_ofFragments (hT : Test.Tame T) {fragments : List Expr}
    (hover : ∀ d ∈ fragments, d.Over T) (h : ∀ d ∈ fragments, d.Safe input context) :
    (∀ e ∈ (ofFragments fragments).singles, e.Safe input context) ∧
      ∀ g ∈ (ofFragments fragments).groups, g.Safe T input context := by
  have hterm : ∀ d ∈ fragments, ∀ t ∈ distinct d.terms, t.Over T := fun d hd t ht =>
    (hover d hd).of_mem_terms (mem_of_mem_distinct ht)
  -- The chain of a longer fragment: its first term, and what is behind it.
  have hchain : ∀ d ∈ fragments, ∀ lead rest, distinct d.terms = lead :: rest →
      lead.Over T ∧ lead.Safe input context ∧
        (lead.holds input context = true → (Expr.all rest).Safe input context) := by
    intro d hd lead rest hterms
    have hlead : lead.Over T := hterm d hd lead (hterms ▸ List.mem_cons_self)
    have hsafe := safeParts_distinct_terms hT (hover d hd) (h d hd)
    rw [hterms, Expr.safeParts_and_cons hT hlead] at hsafe
    exact ⟨hlead, hsafe.1, fun hholds => Expr.safe_all.mpr (hsafe.2 hholds)⟩
  refine ofFragments_induction ?_ ?_ ?_
  · intro d hd only honly
    exact (hchain d hd only [] honly).2.1
  · intro d hd lead next rest hterms
    obtain ⟨hlead, hsafe, hrest⟩ := hchain d hd lead (next :: rest) hterms
    exact ⟨hlead, hsafe, fun hholds => List.forall_mem_singleton.mpr (hrest hholds)⟩
  · intro d hd lead next rest hterms g hg hs
    obtain ⟨hlead, -, hrest⟩ := hchain d hd lead (next :: rest) hterms
    refine ⟨hg.leadOver, hg.lead, fun hholds m hm => ?_⟩
    rcases List.mem_append.mp hm with hm | hm
    · exact hg.members hholds m hm
    · rw [List.mem_singleton.mp hm]
      exact hrest (Expr.holds_of_same hT hg.leadOver hlead hs ▸ hholds)

/-- A merged group is safe: its leading term guards the members in any order. -/
theorem FactorGroup.Safe.merge (hT : Test.Tame T) {rank : Rank} {g : FactorGroup}
    (hne : g.members ≠ []) (hmembers : ∀ m ∈ g.members, m.Over T)
    (h : g.Safe T input context) : (g.merge rank c).Safe input context := by
  have hranked : ∀ m ∈ g.ranked rank, m.Over T := fun m hm => hmembers m (mem_ranked.mp hm)
  have hpair : Expr.SafeParts input context .and [g.lead, .node c (g.ranked rank)] := by
    rw [Expr.safeParts_and_cons hT h.leadOver, Expr.safeParts_singleton]
    refine ⟨h.lead, fun hholds => ?_⟩
    exact Expr.safeParts_of_forall hT hranked fun m hm => h.members hholds m (mem_ranked.mp hm)
  intro a ha
  rw [reached_merge hne] at ha
  exact hpair a ha

/-- Factoring keeps fragments safe. -/
theorem Expr.safe_of_mem_factor (hT : Test.Tame T) {rank : Rank} {fragments : List Expr} {e : Expr}
    (hover : ∀ d ∈ fragments, d.Over T) (h : ∀ d ∈ fragments, d.Safe input context)
    (he : e ∈ factor rank c fragments) : e.Safe input context := by
  obtain ⟨hsingles, hgroups⟩ := Factoring.safe_ofFragments hT hover h
  rcases mem_factor.mp he with he | ⟨g, hg, rfl⟩
  · exact hsingles e he
  · exact (hgroups g hg).merge hT (Factoring.members_ne_nil hg)
      ((stable_over.of_ofFragments hover).2 g hg).2

end Factor

/-! ## Compiled expressions -/

section Assemble

variable {T : Test → Prop} {input : Option Json} {context : Context}

/-- What is said of an expression for a scope: its tests are of a kind, and where
the scope can be read it is safe. -/
def Expr.SafeAt (T : Test → Prop) (input : Option Json) (context : Context) (scope : Scope)
    (e : Expr) : Prop :=
  e.Fit T ∧ (¬ scope.Unsafe input → e.Safe input context)

namespace Expr

/-- An operator's expression at the scope itself. -/
theorem SafeAt.of_at {scope : Scope} {e : Expr} (hfit : e.Fit T) (h : e.At scope) :
    e.SafeAt T input context scope :=
  ⟨hfit, h.safe⟩

/-- An operator's expression on a field, behind the guard of the scope around
it. -/
theorem SafeAt.fieldTest (hT : Test.Tame T) {scope : Scope} {field : String} {e : Expr}
    (hfit : e.Fit T) (h : e.At (scope.child field)) :
    (Compilation.fieldTest scope e).SafeAt T input context scope := by
  refine ⟨hfit.fieldTest scope, fun hs => ?_⟩
  rw [Compilation.fieldTest, safe_all, safeParts_and_cons hT (over_truthy scope),
    safeParts_singleton]
  exact ⟨safe_truthy hs, fun htruthy => h.safe (Scope.not_unsafe_child hs htruthy field)⟩

/-- A deeper field's expression, behind its three guards. -/
theorem SafeAt.guarded (hT : Test.Tame T) {scope : Scope} {field : String} {e : Expr}
    (h : e.SafeAt T input context (scope.child field)) :
    (Compilation.guarded scope (scope.child field) e).SafeAt T input context scope := by
  refine ⟨h.1.guarded scope _, fun hs => ?_⟩
  rw [Compilation.guarded, safe_all, safeParts_and_cons hT (over_truthy _),
    safeParts_and_cons hT (over_truthy _), safeParts_and_cons hT (over_isObject _),
    safeParts_singleton]
  refine ⟨safe_truthy hs, fun htruthy => ?_⟩
  have hchild : ¬ (scope.child field).Unsafe input := Scope.not_unsafe_child hs htruthy field
  exact ⟨safe_truthy hchild, fun _ => ⟨safe_isObject hchild, fun _ => h.2 hchild⟩⟩

/-- A join of expressions for one scope, factored or not. -/
theorem SafeAt.join (hT : Test.Tame T) {optimize : Bool} {scope : Scope} {c : Connective}
    {fragments : List Expr} {e : Expr} (h : ∀ d ∈ fragments, d.SafeAt T input context scope)
    (he : Plan.join optimize c fragments = some e) : e.SafeAt T input context scope := by
  have hfit : ∀ d ∈ fragments, d.Fit T := fun d hd => (h d hd).1
  refine ⟨Plan.fit_of_join hfit he, fun hs => ?_⟩
  have hsafe : ∀ d ∈ fragments, d.Safe input context := fun d hd => (h d hd).2 hs
  have hover : ∀ d ∈ fragments, d.Over T := fun d hd => (hfit d hd).1
  obtain ⟨-, rfl⟩ := Plan.combine?_eq_some he
  intro a ha
  rw [reached_combine] at ha
  cases optimize with
  | false => exact safeParts_of_forall hT hover hsafe a ha
  | true =>
      exact safeParts_of_forall hT (fun e he => stable_over.of_mem_factor hover he)
        (fun e he => safe_of_mem_factor hT hover hsafe he) a ha

end Expr

/-- Answers that look at the value under test are assembled to safe
expressions. -/
theorem Plan.safeAt_of_assemble (hT : Test.Tame T) {optimize : Bool} {answer : Request → Expr}
    {p : Plan} {scope : Scope} {e : Expr}
    (h : ∀ r ∈ p.requests scope, (answer r).Fit T ∧ (answer r).At r.site.scope)
    (he : p.assemble optimize answer scope = some e) : e.SafeAt T input context scope := by
  refine assemble_induction (P := Expr.SafeAt T input context)
    (fun scope field e he => he.guarded hT)
    (fun scope e he => he) (fun scope c fragments e hall hjoin => Expr.SafeAt.join hT hall hjoin)
    (fun r hr hfield => ?_) (fun r hr field hfield => ?_) he
  · have hat := (h r hr).2
    rw [Request.site, Site.scope, hfield] at hat
    exact Expr.SafeAt.of_at (h r hr).1 hat
  · have hat := (h r hr).2
    rw [Request.site, Site.scope, hfield] at hat
    exact Expr.SafeAt.fieldTest hT (h r hr).1 hat

end Assemble

namespace Compiler

/-- With a local dictionary and tame tests below the entry name, a predicate reads no
scope below something missing or `null`, on any input and whether or not it is
factored. -/
theorem safe_compilePredicate (c : Compiler)
    (hT : Test.Tame (c.dictionary.MakesUnder c.options.maxDepth.toNat c.options.entryName))
    (hlocal : c.dictionary.Local c.options.maxDepth.toNat c.options.entryName) {q : Query}
    {p : Predicate} (h : (c.compilePredicate q).result = .ok p) {e : Expr} (he : p.expr = some e)
    (input : Option Json) (context : Context) :
    ∀ a ∈ e.reached input context, ∀ s, a.scope? = some s → ¬ s.Unsafe input := by
  obtain ⟨ha, rfl⟩ := result_compilePredicate_eq_ok_iff.mp h
  refine (Plan.safeAt_of_assemble hT (fun r hr => ?_) he).2 (Scope.not_unsafe_ofRoot _)
  exact ⟨Compilation.fit_answer hr (ha r hr), Compilation.at_answer hlocal hr (ha r hr)⟩

theorem safe_compilePredicate_repeatedComparisons :
    Test.Tame (swapped.dictionary.MakesUnder swapped.options.maxDepth.toNat
      swapped.options.entryName) ∧
    swapped.dictionary.Local swapped.options.maxDepth.toNat swapped.options.entryName ∧
    ∃ p e, (swapped.compilePredicate repeatedComparisons).result = .ok p ∧ p.expr = some e ∧
      ∀ input context, ∀ a ∈ e.reached input context, ∀ s, a.scope? = some s →
        ¬ s.Unsafe input := by
  have hT := Stock.tame_swapped swapped.options.maxDepth.toNat
  have hlocal : swapped.dictionary.Local swapped.options.maxDepth.toNat
      swapped.options.entryName :=
    Dictionary.local_of_readOnly (fun _ _ => Stock.mem_readOnly_of_get?_swapped) _
  obtain ⟨p, hp⟩ : ∃ p, (swapped.compilePredicate repeatedComparisons).result = .ok p :=
    Traced.exists_result_eq_ok (by decide)
  obtain ⟨e, he⟩ : ∃ e, p.expr = some e := by
    obtain ⟨ha, rfl⟩ := result_compilePredicate_eq_ok_iff.mp hp
    rcases Plan.realized (fun _ => hT) fun r hr =>
      Compilation.fit_answer hr (ha r hr) with ⟨hv, -⟩ | ⟨-, e, he, -⟩
    · exact absurd hv (by decide)
    · exact ⟨e, he⟩
  exact ⟨hT, hlocal, p, e, hp, he, safe_compilePredicate swapped hT hlocal hp he⟩

end Compiler

end Criteria
