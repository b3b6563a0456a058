import Criteria.Operator.Resolve

/-!
# Calls of operators

The generators that a computation runs, in order, and how they are nested: an
operator that calls another one does so at its own place.  In the order of the
runs the caller of a nested call is the last run before it that is less deep.

* `Traced.calls`: the generator runs.
* `Call.Nested`: every nested call follows its caller and is at the same place.
* `Generation.calls_run`, `Dictionary.calls_invoke`: the runs that one generator causes.
* `Dictionary.opens_resolve`: resolving an operator runs its generator, and then
  what that asks for.
-/

namespace Criteria

/-- A run of an operator's generator. -/
structure Call where
  /-- What the operator is applied to. -/
  argument : Argument
  /-- Where it is applied. -/
  site : Site

/-- The generator run that an event stands for. -/
def Event.call? : Event → Option Call
  | .resolving argument site => some ⟨argument, site⟩
  | _ => none

namespace Traced

variable {α β : Type}

/-- The generator runs, in order. -/
def calls (x : Traced α) : List Call := x.events.filterMap Event.call?

theorem calls_bind_of_ok {x : Traced α} {a : α} (f : α → Traced β) (h : x.result = .ok a) :
    (x >>= f).calls = x.calls ++ (f a).calls := by
  rw [bind_of_ok f h, calls, List.filterMap_append]
  rfl

theorem calls_bind_of_error {x : Traced α} {e : CompileError} (f : α → Traced β)
    (h : x.result = .error e) : (x >>= f).calls = x.calls := by
  rw [bind_of_error f h]
  rfl

end Traced

/-! ## Nesting -/

namespace Call

/-- The caller of a call is among the earlier ones: it is one level up, everything
after it is at least as deep as the call, and it is at the same place. -/
def FollowsCaller (earlier : List Call) (call : Call) : Prop :=
  ∃ before caller between, earlier = before ++ caller :: between ∧
    call.site.depth = caller.site.depth + 1 ∧
    (∀ other ∈ between, call.site.depth ≤ other.site.depth) ∧
    call.site.scope = caller.site.scope ∧ call.site.field = caller.site.field

/-- Every call is of depth zero or follows its caller. -/
def Nested (calls : List Call) : Prop :=
  ∀ earlier call later, calls = earlier ++ call :: later →
    call.site.depth = 0 ∨ call.FollowsCaller earlier

/-- Every call is deeper than a given one, and follows its caller if the given one
stands in front. -/
def Below (top : Call) (calls : List Call) : Prop :=
  ∀ earlier call later, calls = earlier ++ call :: later →
    top.site.depth < call.site.depth ∧ call.FollowsCaller (top :: earlier)

/-- More calls in front do not matter to a call that follows its caller. -/
theorem FollowsCaller.append_left {earlier : List Call} {call : Call}
    (h : call.FollowsCaller earlier) (more : List Call) : call.FollowsCaller (more ++ earlier) := by
  obtain ⟨before, caller, between, rfl, hdepth, hbetween, hplace⟩ := h
  exact ⟨more ++ before, caller, between, (List.append_assoc _ _ _).symm, hdepth, hbetween, hplace⟩

/-- A member of two lists in a row is in the first or in the second. -/
theorem append_eq_append_cons {xs ys earlier later : List Call} {call : Call}
    (h : xs ++ ys = earlier ++ call :: later) :
    (∃ rest, xs = earlier ++ call :: rest) ∨
      ∃ middle, earlier = xs ++ middle ∧ ys = middle ++ call :: later := by
  rcases List.append_eq_append_iff.mp h with ⟨middle, hearlier, hys⟩ | ⟨rest, hxs, hcons⟩
  · exact .inr ⟨middle, hearlier, hys⟩
  · cases rest with
    | nil =>
        rw [List.append_nil] at hxs
        exact .inr ⟨[], by rw [hxs, List.append_nil], hcons.symm⟩
    | cons first rest =>
        obtain ⟨rfl, -⟩ := List.cons.inj hcons
        exact .inl ⟨rest, hxs⟩

theorem nested_nil : Nested [] := fun _ _ _ h =>
  absurd h.symm (List.append_ne_nil_of_right_ne_nil _ (List.cons_ne_nil _ _))

theorem Nested.append {xs ys : List Call} (hxs : Nested xs) (hys : Nested ys) :
    Nested (xs ++ ys) := by
  intro earlier call later h
  rcases append_eq_append_cons h with ⟨rest, hx⟩ | ⟨middle, rfl, hy⟩
  · exact hxs earlier call rest hx
  · exact (hys middle call later hy).imp_right fun hcaller => hcaller.append_left xs

theorem below_nil (top : Call) : Below top [] := fun _ _ _ h =>
  absurd h.symm (List.append_ne_nil_of_right_ne_nil _ (List.cons_ne_nil _ _))

/-- Calls below one and the same call, one after another. -/
theorem Below.append {top : Call} {xs ys : List Call} (hxs : Below top xs) (hys : Below top ys) :
    Below top (xs ++ ys) := by
  intro earlier call later h
  rcases append_eq_append_cons h with ⟨rest, hx⟩ | ⟨middle, rfl, hy⟩
  · exact hxs earlier call rest hx
  · obtain ⟨hdeeper, before, caller, between, hmiddle, hdepth, hbetween, hplace⟩ :=
      hys middle call later hy
    refine ⟨hdeeper, ?_⟩
    -- The caller is the call in front, or one of the second list.
    cases before with
    | nil =>
        obtain ⟨rfl, rfl⟩ := List.cons.inj hmiddle
        refine ⟨[], top, xs ++ middle, rfl, hdepth, fun other hother => ?_, hplace⟩
        rcases List.mem_append.mp hother with hother | hother
        · obtain ⟨front, back, hsplit⟩ := List.append_of_mem hother
          have hbelow := (hxs front other back hsplit).1
          omega
        · exact hbetween other hother
    | cons first before =>
        obtain ⟨rfl, rfl⟩ := List.cons.inj hmiddle
        exact ⟨top :: (xs ++ before), caller, between, by simp, hdepth, hbetween, hplace⟩

/-- A call one level down at the same place, and the calls below it. -/
theorem Below.cons {top call : Call} {calls : List Call}
    (hdepth : call.site.depth = top.site.depth + 1) (hscope : call.site.scope = top.site.scope)
    (hfield : call.site.field = top.site.field) (h : Below call calls) :
    Below top (call :: calls) := by
  intro earlier other later hsplit
  cases earlier with
  | nil =>
      obtain ⟨rfl, -⟩ := List.cons.inj hsplit
      exact ⟨by omega, [], top, [], rfl, hdepth, by simp, hscope, hfield⟩
  | cons first earlier =>
      obtain ⟨rfl, hrest⟩ := List.cons.inj hsplit
      obtain ⟨hdeeper, hcaller⟩ := h earlier other later hrest
      exact ⟨by omega, hcaller.append_left [top]⟩

/-- A call of depth zero and the calls below it. -/
theorem Below.nested {top : Call} {calls : List Call} (hdepth : top.site.depth = 0)
    (h : Below top calls) : Nested (top :: calls) := by
  intro earlier call later hsplit
  cases earlier with
  | nil =>
      obtain ⟨rfl, -⟩ := List.cons.inj hsplit
      exact .inl hdepth
  | cons first earlier =>
      obtain ⟨rfl, hrest⟩ := List.cons.inj hsplit
      exact .inr (h earlier call later hrest).2

theorem Below.depth_pos {top : Call} {calls : List Call} (h : Below top calls) {call : Call}
    (hcall : call ∈ calls) : 0 < call.site.depth := by
  obtain ⟨front, back, hsplit⟩ := List.append_of_mem hcall
  exact Nat.zero_lt_of_lt (h front call back hsplit).1

end Call

/-! ## Runs of generators -/

/-- What a generator asks for in its run, in order. -/
def Generation.asked (answer : String → Query → Traced Expr) : Generation → List (String × Query)
  | .done _ => []
  | .call key q next => (key, q) :: (next (answer key q).result).asked answer

/-- The calls of a run are those of the answers to what the generator asks for. -/
theorem Generation.calls_run (answer : String → Query → Traced Expr) (g : Generation) :
    (g.run answer).calls = (g.asked answer).flatMap fun r => (answer r.1 r.2).calls := by
  induction g with
  | done result => rfl
  | call key q next ih =>
      rw [asked, List.flatMap_cons, ← ih]
      exact List.filterMap_append

/-- The calls that a generator makes are those of its answers, one after
another. -/
theorem Generation.below_calls_run {top : Call} {answer : String → Query → Traced Expr}
    (h : ∀ key q, Call.Below top (answer key q).calls) (g : Generation) :
    Call.Below top (g.run answer).calls := by
  rw [calls_run]
  induction g.asked answer with
  | nil => exact Call.below_nil top
  | cons r rest ih => exact (h r.1 r.2).append ih

namespace Dictionary

variable {d : Dictionary} {limit : Nat}

/-- What resolving an operator comes to: an error and no call at all, or a call of
the operator and what is below it. -/
def Opens (call : Call) (x : Traced Expr) : Prop :=
  ((∃ e, x.result = .error e) ∧ x.calls = []) ∨
    ∃ below, x.calls = call :: below ∧ Call.Below call below

/-- Running an operator is a call of it, and what its generator asks for. -/
theorem calls_invoke {answer : String → Query → Traced Expr} {site : Site} {argument : Argument}
    {g : Generator} (hget : d.get? site.operator = some g) :
    (d.invoke answer site argument).calls =
      ⟨argument, site⟩ :: ((g argument site).run answer).calls := by
  rw [invoke, hget, Traced.calls_bind_of_ok _ rfl]
  refine congrArg (List.cons (Call.mk argument site)) ?_
  cases hrun : ((g argument site).run answer).result with
  | error e => exact Traced.calls_bind_of_error _ hrun
  | ok e =>
      rw [Traced.calls_bind_of_ok _ hrun]
      split
      · exact List.append_nil _
      · exact List.append_nil _

theorem opens_invoke {answer : String → Query → Traced Expr} {site : Site} {argument : Argument}
    (h : ∀ key q, Call.Below ⟨argument, site⟩ (answer key q).calls) :
    Opens ⟨argument, site⟩ (d.invoke answer site argument) := by
  cases hget : d.get? site.operator with
  | none =>
      rw [invoke_unknown hget]
      exact .inl ⟨⟨_, rfl⟩, rfl⟩
  | some g => exact .inr ⟨_, calls_invoke hget, Generation.below_calls_run h _⟩

/-- An operator that another one calls is resolved one level down at the same
place. -/
theorem opens_resolveWithin (levels : Nat) (site : Site) (q : Query) :
    Opens ⟨.ofQuery q, site⟩ (d.resolveWithin limit levels site q) := by
  induction levels generalizing site q with
  | zero => exact opens_invoke fun _ _ => Call.below_nil _
  | succ levels ih =>
      refine opens_invoke fun key argument => ?_
      rcases ih { site with operator := key, depth := site.depth + 1 } argument with
        ⟨-, hnone⟩ | ⟨below, hcalls, hbelow⟩
      · rw [hnone]
        exact Call.below_nil _
      · rw [hcalls]
        exact Call.Below.cons rfl rfl rfl hbelow

/-- Resolving an operator that a query names. -/
theorem opens_resolve (key : String) (q : Query) (field : Option String) (enclosing : Scope) :
    Opens ⟨.ofQuery q, ⟨key, enclosing, field, 0⟩⟩ (d.resolve limit key q field enclosing) :=
  opens_resolveWithin limit _ q

end Dictionary

end Criteria
