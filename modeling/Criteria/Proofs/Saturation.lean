import Criteria.Proofs.Counter
import Criteria.Proofs.Entries

/-!
# Counters that saturate

A counter holds an integer in the context, and every addition to it is exact up to the bounds of
the signed 64-bit range, where it stays.  What is held afterwards is a signed integer again, so
over many additions of either sign each one starts from what the one before has left.  Nothing
else in the context changes, and no key moves.

An integer above the signed range, which a context may hold from the outside, is passed over: the
counter starts from zero then.

* `Context.held`: the integer under a key, in the whole range of integers.
* `Context.val_increment`, `Context.held_incrementAll_lt`: one addition, and what it starts from.
* `Context.keys_incrementAll`, `Context.get?_incrementAll`: the rest of the context.
* `Context.increment_saturates`: all of it, for every addition of a run.
* `Context.increment_beyondSigned`: the integer that is passed over.
-/

namespace Criteria

namespace Context

variable {context : Context} {key : String}

/-! ## One addition -/

/-- The integer under a key, with or without a sign; zero if there is none. -/
def held (context : Context) (key : String) : Int :=
  match context.get? key with
  | some (.number (.integer i)) => i.val
  | _ => 0

theorem le_held (context : Context) (key : String) : -0x8000000000000000 ≤ context.held key := by
  rw [held]
  split
  · rename_i i _
    exact i.lower
  · decide

/-- Within the signed range, a counter counts from the integer that is held. -/
theorem count_eq_held (h : context.held key < 0x8000000000000000) :
    context.count key = context.held key := by
  rw [held] at h ⊢
  rw [count]
  split at h
  · rename_i i hi
    have hsigned : i.signed? = some i.val := if_pos h
    rw [hi]
    exact congrArg (Option.getD · 0) hsigned
  · rename_i hother
    cases hfound : context.get? key with
    | none => rfl
    | some v =>
        cases v with
        | number n =>
            cases n with
            | integer i => exact absurd hfound (hother i)
            | double x => rfl
        | _ => rfl

theorem held_withCount (context : Context) (key : String) (i : Int) :
    (context.withCount key i).held key = (Integer.clamp i).val := by
  rw [held, get?_withCount, if_pos rfl]
  rfl

/-- Adding to an integer within the signed range is exact up to the bounds of the range. -/
theorem val_increment (h : context.held key < 0x8000000000000000) (step : Int) :
    (context.increment key step).1.val =
      max (-0x8000000000000000) (min (context.held key + step) 0x7FFFFFFFFFFFFFFF) := by
  rw [increment_eq, count_eq_held h]
  rfl

/-- What is returned is what is stored. -/
theorem get?_increment (context : Context) (key : String) (step : Int) :
    (context.increment key step).2.get? key =
      some (.number (.integer (context.increment key step).1)) := by
  rw [increment_eq, get?_withCount, if_pos rfl]
  rfl

theorem held_increment (context : Context) (key : String) (step : Int) :
    (context.increment key step).2.held key = (context.increment key step).1.val :=
  held_withCount _ _ _

/-! ## Many additions -/

/-- The context after additions to a counter, one after another. -/
def incrementAll (context : Context) (key : String) (steps : List Int) : Context :=
  steps.foldl (fun before step => (before.increment key step).2) context

theorem incrementAll_cons (step : Int) (rest : List Int) :
    context.incrementAll key (step :: rest) =
      (context.increment key step).2.incrementAll key rest := rfl

theorem incrementAll_append (steps rest : List Int) :
    context.incrementAll key (steps ++ rest) =
      (context.incrementAll key steps).incrementAll key rest := List.foldl_append

/-- An addition leaves an integer within the signed range. -/
theorem held_increment_lt (context : Context) (key : String) (step : Int) :
    (context.increment key step).2.held key < 0x8000000000000000 := by
  rw [held_increment, increment_eq]
  simp only [Integer.clamp]
  omega

/-- So every addition of a run starts from one. -/
theorem held_incrementAll_lt (h : context.held key < 0x8000000000000000) (steps : List Int) :
    (context.incrementAll key steps).held key < 0x8000000000000000 := by
  induction steps generalizing context with
  | nil => exact h
  | cons step rest ih => exact ih (held_increment_lt context key step)

/-- Adding what is not negative does not take a counter down. -/
theorem held_le_held_increment (h : context.held key < 0x8000000000000000) {step : Int}
    (hstep : 0 ≤ step) : context.held key ≤ (context.increment key step).2.held key := by
  have hlow := context.le_held key
  rw [held_increment, val_increment h]
  omega

theorem held_le_held_incrementAll (h : context.held key < 0x8000000000000000) {steps : List Int}
    (hsteps : ∀ step ∈ steps, 0 ≤ step) :
    context.held key ≤ (context.incrementAll key steps).held key := by
  induction steps generalizing context with
  | nil => exact le_rfl
  | cons step rest ih =>
      obtain ⟨hstep, hrest⟩ := List.forall_mem_cons.mp hsteps
      calc context.held key
          ≤ (context.increment key step).2.held key := held_le_held_increment h hstep
        _ ≤ (context.incrementAll key (step :: rest)).held key :=
            ih (held_increment_lt context key step) hrest

/-! ## The other entries -/

theorem get?_incrementAll (steps : List Int) {other : String} (hother : other ≠ key) :
    (context.incrementAll key steps).get? other = context.get? other := by
  induction steps generalizing context with
  | nil => rfl
  | cons step rest ih => rw [incrementAll_cons, ih, increment_eq, get?_withCount, if_neg hother]

/-- No key moves; that of a new counter comes last. -/
theorem keys_incrementAll (steps : List Int) :
    Entries.keys (context.incrementAll key steps).toList =
      if key ∈ Entries.keys context.toList ∨ steps = [] then Entries.keys context.toList
      else Entries.keys context.toList ++ [key] := by
  induction steps generalizing context with
  | nil => exact (if_pos (.inr rfl)).symm
  | cons step rest ih =>
      have hkeys : Entries.keys (context.increment key step).2.toList =
          if key ∈ Entries.keys context.toList then Entries.keys context.toList
          else Entries.keys context.toList ++ [key] := Entries.keys_put key _ _
      rw [incrementAll_cons, ih, hkeys]
      by_cases hkey : key ∈ Entries.keys context.toList
      · rw [if_pos hkey, if_pos (.inl hkey), if_pos (.inl hkey)]
      · have hlast : key ∈ Entries.keys context.toList ++ [key] :=
          List.mem_append_right _ (List.mem_singleton_self key)
        have hnew : ¬ (key ∈ Entries.keys context.toList ∨ step :: rest = []) :=
          not_or.mpr ⟨hkey, List.cons_ne_nil _ _⟩
        rw [if_neg hkey, if_pos (.inl hlast), if_neg hnew]

/-! ## Runs of additions -/

/-- Additions to a counter, one after another.

Where it holds an integer within the signed range at first, or none, each addition, whatever came
before, comes to the integer that is held plus the step, or to the bound of the signed range that
lies in between, and from any moment on, steps that are not negative do not take the counter down.
What is returned is what is stored, all other entries keep their values, and the keys their
order. -/
theorem increment_saturates (context : Context) (key : String) :
    (context.held key < 0x8000000000000000 →
      (∀ (earlier : List Int) (step : Int),
        ((context.incrementAll key earlier).increment key step).1.val =
          max (-0x8000000000000000)
            (min ((context.incrementAll key earlier).held key + step) 0x7FFFFFFFFFFFFFFF)) ∧
      ∀ earlier later : List Int, (∀ step ∈ later, 0 ≤ step) →
        (context.incrementAll key earlier).held key ≤
          (context.incrementAll key (earlier ++ later)).held key) ∧
    (∀ (earlier : List Int) (step : Int),
      ((context.incrementAll key earlier).increment key step).2.get? key =
        some (.number (.integer ((context.incrementAll key earlier).increment key step).1))) ∧
    ∀ steps : List Int,
      (∀ other ≠ key, (context.incrementAll key steps).get? other = context.get? other) ∧
      Entries.keys (context.incrementAll key steps).toList =
        if key ∈ Entries.keys context.toList ∨ steps = [] then Entries.keys context.toList
        else Entries.keys context.toList ++ [key] := by
  refine ⟨fun h => ⟨fun earlier step => ?_, fun earlier later hlater => ?_⟩,
    fun earlier step => get?_increment _ _ _, fun steps => ⟨fun other => get?_incrementAll steps,
      keys_incrementAll steps⟩⟩
  · exact val_increment (held_incrementAll_lt h earlier) step
  · rw [incrementAll_append]
    exact held_le_held_incrementAll (held_incrementAll_lt h earlier) hlater

/-- A counter just below the upper bound, between two other variables. -/
def nearlyFull : Context :=
  .ofList [("bar", .bool true), ("foo", .ofInt 0x7FFFFFFFFFFFFFFE), ("baz", .null)]

theorem increment_saturates_nearlyFull :
    nearlyFull.held "foo" < 0x8000000000000000 ∧
    ((nearlyFull.incrementAll "foo" [5]).increment "foo" (-3)).1.val = 0x7FFFFFFFFFFFFFFC ∧
    nearlyFull.held "foo" ≤ (nearlyFull.incrementAll "foo" [0, 5, 1]).held "foo" ∧
    Entries.keys (nearlyFull.incrementAll "foo" [5, -3]).toList = ["bar", "foo", "baz"] := by
  have hheld : nearlyFull.held "foo" < 0x8000000000000000 := by decide
  obtain ⟨hsigned, -, hrest⟩ := increment_saturates nearlyFull "foo"
  obtain ⟨heach, hup⟩ := hsigned hheld
  refine ⟨hheld, ?_, hup [] [0, 5, 1] (by decide), ?_⟩
  · rw [heach [5] (-3)]
    decide
  · rw [(hrest [5, -3]).2]
    decide

/-- A counter that holds the greatest integer without a sign. -/
def beyondSigned : Context :=
  .ofList [("foo", .number (.integer ⟨0xFFFFFFFFFFFFFFFF, by decide, by decide⟩))]

/-- One more than an integer above the signed range is not the upper bound of the range, but
one. -/
theorem increment_beyondSigned :
    beyondSigned.held "foo" = 0xFFFFFFFFFFFFFFFF ∧
    max (-0x8000000000000000) (min (beyondSigned.held "foo" + 1) 0x7FFFFFFFFFFFFFFF) =
      0x7FFFFFFFFFFFFFFF ∧
    (beyondSigned.increment "foo" 1).1.val = 1 ∧
    (beyondSigned.increment "foo" 1).1.val ≠
      max (-0x8000000000000000) (min (beyondSigned.held "foo" + 1) 0x7FFFFFFFFFFFFFFF) := by
  decide

end Context

end Criteria
