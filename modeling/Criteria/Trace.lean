import Criteria.Operator.Basic
import Criteria.Options.Basic

/-!
# Traced compilation

Compiling keeps a record of what it did: the start and end of a compilation,
every operator that was resolved, every join point that was factored.  The
record is data; `Event.line` gives its wording.

* `Traced`: a result, or the error that stopped it, with the events on the way.
-/

namespace Criteria

/-- Something that happens during compilation. -/
inductive Event where
  /-- A compilation starts. -/
  | started (operators : Nat) (optimize : Bool) (mode : OutputMode)
  /-- An operator's generator is run. -/
  | resolving (argument : Argument) (site : Site)
  /-- An operator may not call another one because of the depth limit. -/
  | depthReached (site : Site) (key : String) (limit : Nat)
  /-- The fragments of a join point were factored. -/
  | factored (fragments result : Nat) (connective : Connective)
  /-- A compilation ends, with an expression of so many connectives or without
  one. -/
  | finished (connectives : Option Nat)

namespace Event

/-- The field of a site in messages. -/
def fieldText : Option String → String
  | some field => "Some(" ++ Quoted.quote field ++ ")"
  | none => "None"

/-- The event as a line of a log, with its level. -/
def line : Event → String
  | .started operators optimize mode =>
    "DEBUG Compiling query with " ++ toString operators ++ " operator(s) (optimize: "
      ++ (if optimize then "true" else "false") ++ ", mode: " ++ mode.label ++ ")"
  | .resolving argument site =>
    "TRACE Resolving operator '" ++ site.operator ++ "' with " ++ argument.text ++ " at "
      ++ site.enclosing.text ++ " (field: " ++ fieldText site.field ++ ", depth: "
      ++ toString site.depth ++ ")"
  | .depthReached site key limit =>
    "WARN Operator '" ++ site.operator ++ "' hit the composition depth limit of "
      ++ toString limit ++ " while calling '" ++ key ++ "'"
  | .factored fragments result connective =>
    "TRACE Optimized " ++ toString fragments ++ " fragment(s) into " ++ toString result
      ++ " at " ++ connective.name ++ " join"
  | .finished (some connectives) =>
    "DEBUG Compiled query into " ++ toString connectives ++ " connective(s)"
  | .finished none => "DEBUG Query has no constraints; predicate matches everything"

end Event

/-- A computation that records events and may stop with an error. -/
structure Traced (α : Type) where
  /-- What happened, in order. -/
  events : List Event
  /-- The result, or the error that stopped the computation. -/
  result : Except CompileError α

namespace Traced

variable {α β : Type}

/-- A result, without events. -/
def ok (a : α) : Traced α := ⟨[], .ok a⟩

/-- An error, without events. -/
def error (e : CompileError) : Traced α := ⟨[], .error e⟩

/-- A result known in advance. -/
def ofExcept (result : Except CompileError α) : Traced α := ⟨[], result⟩

/-- One event. -/
def emit (event : Event) : Traced Unit := ⟨[event], .ok ()⟩

/-- One computation after another; an error stops both. -/
def andThen (x : Traced α) (f : α → Traced β) : Traced β :=
  match x.result with
  | .ok a => ⟨x.events ++ (f a).events, (f a).result⟩
  | .error e => ⟨x.events, .error e⟩

instance : Monad Traced where
  pure := ok
  bind := andThen

@[simp] theorem events_pure (a : α) : (pure a : Traced α).events = [] := rfl

@[simp] theorem result_pure (a : α) : (pure a : Traced α).result = .ok a := rfl

/-- After a result the second computation goes on from it. -/
theorem bind_of_ok {x : Traced α} {a : α} (f : α → Traced β) (h : x.result = .ok a) :
    x >>= f = ⟨x.events ++ (f a).events, (f a).result⟩ := by
  change x.andThen f = _
  simp only [andThen, h]

/-- After an error nothing more happens. -/
theorem bind_of_error {x : Traced α} {e : CompileError} (f : α → Traced β)
    (h : x.result = .error e) : x >>= f = ⟨x.events, .error e⟩ := by
  change x.andThen f = _
  simp only [andThen, h]

instance : LawfulMonad Traced :=
  LawfulMonad.mk' Traced
    (by
      rintro α ⟨events, result⟩
      change andThen _ _ = _
      cases result <;> simp [andThen, ok])
    (by
      intro α β a f
      change andThen _ _ = _
      simp [andThen])
    (by
      rintro α β γ ⟨events, result⟩ f g
      change andThen (andThen _ _) _ = andThen _ fun _ => andThen _ _
      cases result with
      | error e => rfl
      | ok a =>
        rcases h : f a with ⟨events', result'⟩
        cases result' <;> simp [andThen, h])

end Traced

end Criteria
