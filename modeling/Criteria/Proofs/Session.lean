import Criteria.Predicate

/-!
# Sessions with a bound predicate

A bound predicate may be asked many things one after another: about one input, about one
that may be missing, or which inputs of a list it accepts.  Every answer may change the
context for those that follow.  All of it comes to one context that is handed through the
evaluation of each single input in turn, whatever the questions were and however they were
mixed.

* `Predicate.thread`: the answers on single inputs, with one context handed through.
* `BoundPredicate.session`: inquiries one after another.
* `BoundPredicate.reply_eq`: one inquiry, from the answers on its inputs.
* `BoundPredicate.session_eq`: a whole session, from the answers on all of its inputs.
* `Predicate.session_bind`: what a session replies and leaves behind.
-/

namespace Criteria

/-! ## Single inputs -/

namespace Predicate

/-- The answers on inputs, one after another, and the context after the last one. -/
def thread (p : Predicate) : List (Option Json) → Context → List Bool × Context
  | [], context => ([], context)
  | input :: rest, context =>
    let (answer, after) := p.evaluate input context
    let (answers, final) := thread p rest after
    (answer :: answers, final)

variable {p : Predicate} {context : Context}

theorem thread_cons (input : Option Json) (rest : List (Option Json)) :
    p.thread (input :: rest) context =
      ((p.evaluate input context).1 :: (p.thread rest (p.evaluate input context).2).1,
        (p.thread rest (p.evaluate input context).2).2) := rfl

theorem filterWith_cons (v : Json) (rest : List Json) :
    p.filterWith (v :: rest) context =
      (if (p.evaluate (some v) context).1 then
          v :: (p.filterWith rest (p.evaluate (some v) context).2).1
        else (p.filterWith rest (p.evaluate (some v) context).2).1,
        (p.filterWith rest (p.evaluate (some v) context).2).2) := rfl

/-- Inputs in two runs: the second goes on with the context that the first leaves. -/
theorem thread_append (xs ys : List (Option Json)) :
    p.thread (xs ++ ys) context =
      ((p.thread xs context).1 ++ (p.thread ys (p.thread xs context).2).1,
        (p.thread ys (p.thread xs context).2).2) := by
  induction xs generalizing context with
  | nil => rfl
  | cons input rest ih => rw [List.cons_append, thread_cons, ih, thread_cons, List.cons_append]

/-- Every input is answered. -/
theorem length_thread (inputs : List (Option Json)) :
    (p.thread inputs context).1.length = inputs.length := by
  induction inputs generalizing context with
  | nil => rfl
  | cons input rest ih => rw [thread_cons, List.length_cons, ih, List.length_cons]

end Predicate

/-! ## Inquiries -/

/-- What a bound predicate may be asked. -/
inductive Inquiry where
  /-- The answer on an input. -/
  | accepts (input : Json)
  /-- The answer on an input that may be missing. -/
  | evaluate (input : Option Json)
  /-- The accepted inputs of a list. -/
  | filter (inputs : List Json)

/-- What it replies. -/
inductive Reply where
  /-- An answer. -/
  | answer (holds : Bool)
  /-- The accepted inputs. -/
  | kept (inputs : List Json)

/-- The inputs whose answer is yes. -/
def keep : List Json → List Bool → List Json
  | v :: rest, answer :: answers => if answer then v :: keep rest answers else keep rest answers
  | _, _ => []

theorem keep_sublist (inputs : List Json) (answers : List Bool) :
    (keep inputs answers).Sublist inputs := by
  induction inputs generalizing answers with
  | nil => exact .refl _
  | cons v rest ih =>
      cases answers with
      | nil => exact List.nil_sublist _
      | cons answer answers =>
          rw [keep]
          split
          · exact (ih answers).cons_cons v
          · exact (ih answers).cons v

namespace Inquiry

/-- The single inputs that an inquiry is about, in order. -/
def inputs : Inquiry → List (Option Json)
  | .accepts v => [some v]
  | .evaluate input => [input]
  | .filter vs => vs.map some

/-- The reply, from the answers on the single inputs. -/
def reading : Inquiry → List Bool → Reply
  | .filter vs, answers => .kept (keep vs answers)
  | _, answers => .answer (answers.headD true)

/-- The replies to several inquiries, from the answers on all of their inputs. -/
def readings : List Inquiry → List Bool → List Reply
  | [], _ => []
  | i :: rest, answers =>
    i.reading (answers.take i.inputs.length) :: readings rest (answers.drop i.inputs.length)

end Inquiry

namespace BoundPredicate

/-- The reply to an inquiry, and the predicate with the context left behind. -/
def reply (b : BoundPredicate) : Inquiry → Reply × BoundPredicate
  | .accepts v =>
    let (answer, after) := b.accepts v
    (.answer answer, after)
  | .evaluate input =>
    let (answer, after) := b.evaluate input
    (.answer answer, after)
  | .filter vs =>
    let (kept, after) := b.filter vs
    (.kept kept, after)

/-- The replies to inquiries one after another, and the predicate with the context after the
last one. -/
def session (b : BoundPredicate) : List Inquiry → List Reply × BoundPredicate
  | [] => ([], b)
  | i :: rest =>
    let (r, after) := b.reply i
    let (rs, final) := session after rest
    (r :: rs, final)

variable {p : Predicate} {context : Context}

theorem filter_cons (v : Json) (rest : List Json) :
    (p.bind context).filter (v :: rest) =
      (if (p.evaluate (some v) context).1 then
          v :: ((p.bind (p.evaluate (some v) context).2).filter rest).1
        else ((p.bind (p.evaluate (some v) context).2).filter rest).1,
        ((p.bind (p.evaluate (some v) context).2).filter rest).2) := rfl

theorem session_cons (b : BoundPredicate) (i : Inquiry) (rest : List Inquiry) :
    b.session (i :: rest) =
      ((b.reply i).1 :: ((b.reply i).2.session rest).1, ((b.reply i).2.session rest).2) := rfl

/-- A list is filtered by the answers on its inputs. -/
theorem filter_eq (inputs : List Json) :
    (p.bind context).filter inputs =
      (keep inputs (p.thread (inputs.map some) context).1,
        p.bind (p.thread (inputs.map some) context).2) := by
  induction inputs generalizing context with
  | nil => rfl
  | cons v rest ih => rw [filter_cons, ih, List.map_cons, Predicate.thread_cons, keep]

/-- A list in two runs: the second goes on with the context that the first leaves. -/
theorem filter_append (xs ys : List Json) :
    (p.bind context).filter (xs ++ ys) =
      (((p.bind context).filter xs).1 ++ (((p.bind context).filter xs).2.filter ys).1,
        (((p.bind context).filter xs).2.filter ys).2) := by
  induction xs generalizing context with
  | nil => rfl
  | cons v rest ih =>
      rw [List.cons_append, filter_cons, ih, filter_cons]
      split
      · rfl
      · rfl

/-- An inquiry is replied to by the answers on its inputs. -/
theorem reply_eq (i : Inquiry) :
    (p.bind context).reply i =
      (i.reading (p.thread i.inputs context).1, p.bind (p.thread i.inputs context).2) := by
  cases i with
  | accepts v => rfl
  | evaluate input => rfl
  | filter vs =>
      change (Reply.kept ((p.bind context).filter vs).1, ((p.bind context).filter vs).2) = _
      rw [filter_eq]
      rfl

/-- A session replies by the answers on all of its inputs. -/
theorem session_eq (inquiries : List Inquiry) :
    (p.bind context).session inquiries =
      (Inquiry.readings inquiries (p.thread (inquiries.flatMap Inquiry.inputs) context).1,
        p.bind (p.thread (inquiries.flatMap Inquiry.inputs) context).2) := by
  induction inquiries generalizing context with
  | nil => rfl
  | cons i rest ih =>
      have hlength : (p.thread i.inputs context).1.length = i.inputs.length :=
        Predicate.length_thread _
      rw [session_cons, reply_eq, ih, List.flatMap_cons, Predicate.thread_append,
        Inquiry.readings, List.take_left' hlength, List.drop_left' hlength]

end BoundPredicate

namespace Predicate

/-- Filtering starts from a fresh context. -/
theorem filterWith_eq (p : Predicate) (inputs : List Json) (context : Context) :
    p.filterWith inputs context =
      (((p.bind context).filter inputs).1, ((p.bind context).filter inputs).2.context) := by
  induction inputs generalizing context with
  | nil => rfl
  | cons v rest ih => rw [BoundPredicate.filter_cons, filterWith_cons, ih]

/-- The replies of a session, and the context that it leaves, are those of one context that
starts out as the one attached and is handed through the evaluation of every single input.
So a list may be filtered in two runs; what is kept of a list is in its order; and filtering
without a context attached is filtering with an empty one. -/
theorem session_bind (p : Predicate) (context : Context) :
    (∀ inquiries : List Inquiry,
      ((p.bind context).session inquiries).1 =
          Inquiry.readings inquiries (p.thread (inquiries.flatMap Inquiry.inputs) context).1 ∧
        ((p.bind context).session inquiries).2 =
          p.bind (p.thread (inquiries.flatMap Inquiry.inputs) context).2) ∧
    (∀ xs ys : List Json, (p.bind context).filter (xs ++ ys) =
      (((p.bind context).filter xs).1 ++ (((p.bind context).filter xs).2.filter ys).1,
        (((p.bind context).filter xs).2.filter ys).2)) ∧
    (∀ xs : List Json, ((p.bind context).filter xs).1.Sublist xs) ∧
    ∀ xs : List Json, p.filter xs = ((p.bind .empty).filter xs).1 := by
  refine ⟨fun inquiries => ?_, BoundPredicate.filter_append, fun xs => ?_, fun xs => ?_⟩
  · rw [BoundPredicate.session_eq]
    exact ⟨rfl, rfl⟩
  · rw [BoundPredicate.filter_eq]
    exact keep_sublist _ _
  · rw [filter, filterWith_eq]

end Predicate

end Criteria
