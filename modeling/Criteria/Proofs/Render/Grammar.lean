import Criteria.Expr.Render
import Criteria.Proofs.Expr.Flattening
import Mathlib.Data.List.Basic

/-!
# The grammar of rendered text

Rendered text is a run of tokens: operands, signs of negation, brackets and the signs of
the two connectives.  Scripts read such a run by the usual grammar, in which negation
binds tightest and `||` loosest:

| phrase      | form                                           |
|---|---|
| unary       | operand, `!` unary, or `(` disjunction `)`      |
| conjunction | one or more unary phrases with `&&` between     |
| disjunction | one or more conjunctions with `||` between      |

* `Expr.render_eq_join`: the text of an expression is that of its tokens.
* `Reads`: what a run of tokens is read as.
* `Reads.append_inj`, `Reads.unique`: no run of tokens is read in two ways.
-/

namespace Criteria

/-! ## Tokens -/

/-- What the grammar takes as one operand. -/
inductive Operand where
  /-- A constant. -/
  | bool (b : Bool)
  /-- The text of a scope, as a guard. -/
  | truthy (scope : Scope)
  /-- A guard for objects. -/
  | isObject (scope : Scope)
  /-- The source of a test. -/
  | test (t : Test)

/-- The condition that an operand is the text of. -/
def Operand.expr : Operand → Expr
  | .bool b => .bool b
  | .truthy scope => .truthy scope
  | .isObject scope => .isObject scope
  | .test t => .test t

/-- A word or a sign of rendered text. -/
inductive Token where
  /-- An operand. -/
  | operand (o : Operand)
  /-- The sign of negation. -/
  | bang
  /-- An opening bracket. -/
  | opening
  /-- A closing bracket. -/
  | closing
  /-- The sign of a connective. -/
  | sign (c : Connective)

namespace Token

/-- The token as it is written. -/
def text : Token → String
  | .operand o => o.expr.render
  | .bang => "!"
  | .opening => "("
  | .closing => ")"
  | .sign c => c.symbol

/-- Tokens in brackets, if that is asked for. -/
def enclose (enclosed : Bool) (ts : List Token) : List Token :=
  if enclosed then .opening :: (ts ++ [.closing]) else ts

/-- Runs of tokens with the sign of the connective between them. -/
def between (c : Connective) : List (List Token) → List Token
  | [] => []
  | ts :: rest => ts ++ rest.flatMap fun us => .sign c :: us

end Token

namespace Expr

mutual

/-- The tokens of an expression's text. -/
def tokens : Expr → List Token
  | .bool b => [.operand (.bool b)]
  | .truthy scope => [.operand (.truthy scope)]
  | .isObject scope => [.operand (.isObject scope)]
  | .test t => [.operand (.test t)]
  | .not inner => .bang :: .opening :: (tokens inner ++ [.closing])
  | .node c parts => Token.between c (tokensOfParts c parts)

/-- The tokens of each of the parts of a connective. -/
def tokensOfParts (c : Connective) : List Expr → List (List Token)
  | [] => []
  | e :: rest => Token.enclose (needsParens c e) (tokens e) :: tokensOfParts c rest

end

theorem tokensOfParts_eq_map (c : Connective) (parts : List Expr) :
    tokensOfParts c parts = parts.map fun e => Token.enclose (needsParens c e) e.tokens := by
  induction parts with
  | nil => rfl
  | cons e rest ih => rw [tokensOfParts, ih, List.map_cons]

/-- The text of tokens in brackets is their text in brackets. -/
theorem join_enclose (enclosed : Bool) (ts : List Token) :
    String.join ((Token.enclose enclosed ts).map Token.text) =
      parenthesize enclosed (String.join (ts.map Token.text)) := by
  cases enclosed with
  | false => rfl
  | true =>
      rw [← String.toList_inj]
      simp [Token.enclose, parenthesize, Token.text]

/-- The rendered text of an expression is that of its tokens. -/
theorem render_eq_join (e : Expr) : e.render = String.join (e.tokens.map Token.text) := by
  induction e with
  | not inner ih =>
      rw [render, tokens, ih, ← String.toList_inj]
      simp [Token.text]
  | node c parts ih =>
      rw [render, tokens]
      induction parts with
      | nil => rfl
      | cons e rest ih_rest =>
          have he : parenthesize (needsParens c e) e.render = _ :=
            (ih e List.mem_cons_self) ▸ (join_enclose (needsParens c e) e.tokens).symm
          have hrest := ih_rest fun e he => ih e (List.mem_cons_of_mem _ he)
          cases rest with
          | nil => simp [renderParts, he, tokensOfParts, Token.between]
          | cons f rest =>
              rw [renderParts, he, hrest, ← String.toList_inj]
              simp [tokensOfParts, Token.between, Token.text]
  | _ => simp [tokens, Token.text, Operand.expr]

end Expr

/-! ## Phrases -/

/-- The kinds of phrases. -/
inductive Level where
  /-- What `!` may stand in front of. -/
  | unary
  /-- Phrases of the next tighter kind, with the sign of a connective between them. -/
  | chain (c : Connective)

namespace Level

/-- The kind of phrases that a connective stands between. -/
def below : Connective → Level
  | .and => .unary
  | .or => .chain .and

/-- Whether a phrase goes on with the token. -/
def goesOn : Level → Token → Bool
  | .chain .and, .sign .and => true
  | .chain .or, .sign _ => true
  | _, _ => false

/-- Tokens behind which a phrase ends. -/
def Ends (l : Level) (rest : List Token) : Prop := ∀ t ∈ rest.head?, l.goesOn t = false

theorem ends_nil (l : Level) : l.Ends [] := fun _ h => nomatch h

theorem ends_closing (l : Level) (rest : List Token) : l.Ends (.closing :: rest) := by
  rintro t ⟨⟩
  rcases l with _ | (_ | _) <;> rfl

/-- A tighter phrase ends at the sign of the connective. -/
theorem ends_below_sign (c : Connective) (rest : List Token) :
    (below c).Ends (.sign c :: rest) := by
  rintro t ⟨⟩
  cases c <;> rfl

theorem not_ends_sign (c : Connective) (rest : List Token) :
    ¬ (chain c).Ends (.sign c :: rest) := by
  intro h
  have hsign := h (.sign c) rfl
  cases c <;> exact nomatch hsign

/-- Where a chain ends, its last phrase does. -/
theorem Ends.below {c : Connective} {rest : List Token} (h : (chain c).Ends rest) :
    (below c).Ends rest := by
  intro t ht
  have hend := h t ht
  cases c with
  | and => rfl
  | or =>
      cases t with
      | sign d => exact nomatch hend
      | _ => rfl

end Level

/-- The condition that a chain of phrases stands for; a single phrase is not a join. -/
def Connective.chained (c : Connective) : List Expr → Expr
  | [only] => only
  | parts => .node c parts

/-- What a run of tokens is read as. -/
inductive Reads : Level → List Token → Expr → Prop
  /-- An operand stands for its condition. -/
  | operand (o : Operand) : Reads .unary [.operand o] o.expr
  /-- A sign of negation in front of a unary phrase negates it. -/
  | negated {ts : List Token} {e : Expr} :
      Reads .unary ts e → Reads .unary (.bang :: ts) (.not e)
  /-- A disjunction in brackets is a unary phrase. -/
  | enclosed {ts : List Token} {e : Expr} :
      Reads (.chain .or) ts e → Reads .unary (.opening :: (ts ++ [.closing])) e
  /-- Phrases with the sign of a connective between them are joined by it. -/
  | chain (c : Connective) {parts : List (List Token × Expr)} :
      parts ≠ [] → (∀ p ∈ parts, Reads (.below c) p.1 p.2) →
        Reads (.chain c) (Token.between c (parts.map Prod.fst)) (c.chained (parts.map Prod.snd))

namespace Reads

/-! ## No run of tokens is read in two ways -/

/-- A run of tokens is read in one way only, and a phrase does not end in two places,
whatever follows it. -/
def Determined (l : Level) (ts : List Token) (d : Expr) : Prop :=
  ∀ us e xs ys, Reads l us e → l.Ends xs → l.Ends ys → ts ++ xs = us ++ ys → d = e ∧ xs = ys

section Chain

variable {c : Connective} {parts others : List (List Token × Expr)} {xs ys : List Token}

/-- The later phrases of a chain. -/
theorem ends_later (parts : List (List Token)) (hxs : (Level.chain c).Ends xs) :
    (Level.below c).Ends ((parts.flatMap fun ts => .sign c :: ts) ++ xs) := by
  cases parts with
  | nil => exact hxs.below
  | cons ts rest => exact Level.ends_below_sign c _

/-- Chains end together if their phrases do, from a sign of the connective on. -/
theorem later_append_inj (hparts : ∀ p ∈ parts, Determined (.below c) p.1 p.2)
    (hothers : ∀ p ∈ others, Reads (.below c) p.1 p.2)
    (hxs : (Level.chain c).Ends xs) (hys : (Level.chain c).Ends ys)
    (h : ((parts.map Prod.fst).flatMap fun ts => .sign c :: ts) ++ xs =
      ((others.map Prod.fst).flatMap fun ts => .sign c :: ts) ++ ys) :
    parts.map Prod.snd = others.map Prod.snd ∧ xs = ys := by
  induction parts generalizing others with
  | nil =>
      cases others with
      | nil => exact ⟨rfl, h⟩
      | cons q others =>
          obtain rfl : xs = .sign c :: _ := h
          exact absurd hxs (Level.not_ends_sign c _)
  | cons p parts ih =>
      cases others with
      | nil =>
          obtain rfl : .sign c :: _ = ys := h
          exact absurd hys (Level.not_ends_sign c _)
      | cons q others =>
          obtain ⟨hp, hparts⟩ := List.forall_mem_cons.mp hparts
          obtain ⟨hq, hothers⟩ := List.forall_mem_cons.mp hothers
          simp only [List.map_cons, List.flatMap_cons, List.cons_append, List.append_assoc,
            List.cons.injEq, true_and] at h
          obtain ⟨heq, hlater⟩ := hp q.1 q.2 _ _ hq (ends_later _ hxs) (ends_later _ hys) h
          obtain ⟨hrest, hafter⟩ := ih hparts hothers hlater
          exact ⟨by rw [List.map_cons, List.map_cons, heq, hrest], hafter⟩

/-- Chains end together if their phrases do. -/
theorem between_append_inj (hne : parts ≠ []) (hne' : others ≠ [])
    (hparts : ∀ p ∈ parts, Determined (.below c) p.1 p.2)
    (hothers : ∀ p ∈ others, Reads (.below c) p.1 p.2)
    (hxs : (Level.chain c).Ends xs) (hys : (Level.chain c).Ends ys)
    (h : Token.between c (parts.map Prod.fst) ++ xs =
      Token.between c (others.map Prod.fst) ++ ys) :
    parts.map Prod.snd = others.map Prod.snd ∧ xs = ys := by
  -- With the sign in front, the first phrases are like the others.
  refine later_append_inj hparts hothers hxs hys ?_
  cases parts with
  | nil => exact absurd rfl hne
  | cons p parts =>
      cases others with
      | nil => exact absurd rfl hne'
      | cons q others => exact congrArg (Token.sign c :: ·) h

end Chain

/-- A phrase ends in one place and is read in one way, whatever follows it. -/
theorem append_inj {l : Level} {ts : List Token} {d : Expr} (h : Reads l ts d) :
    Determined l ts d := by
  induction h with
  | operand o =>
      intro us e xs ys h' _ _ heq
      cases h' with
      | operand o' =>
          obtain ⟨ho, hrest⟩ := List.cons.inj heq
          rw [Token.operand.inj ho]
          exact ⟨rfl, hrest⟩
      | negated _ => exact nomatch (List.cons.inj heq).1
      | enclosed _ => exact nomatch (List.cons.inj heq).1
  | negated _ ih =>
      intro us e xs ys h' hxs hys heq
      cases h' with
      | operand _ => exact nomatch (List.cons.inj heq).1
      | negated h' =>
          obtain ⟨rfl, hrest⟩ := ih _ _ _ _ h' hxs hys (List.cons.inj heq).2
          exact ⟨rfl, hrest⟩
      | enclosed _ => exact nomatch (List.cons.inj heq).1
  | enclosed _ ih =>
      intro us e xs ys h' _ _ heq
      cases h' with
      | operand _ => exact nomatch (List.cons.inj heq).1
      | negated _ => exact nomatch (List.cons.inj heq).1
      | enclosed h' =>
          rw [List.cons_append, List.cons_append, List.append_assoc, List.append_assoc] at heq
          have hinner := (List.cons.inj heq).2
          obtain ⟨rfl, hrest⟩ :=
            ih _ _ _ _ h' (Level.ends_closing _ _) (Level.ends_closing _ _) hinner
          exact ⟨rfl, (List.cons.inj hrest).2⟩
  | chain c hne _ ih =>
      intro us e xs ys h' hxs hys heq
      cases h' with
      | chain _ hne' hothers =>
          obtain ⟨hparts, hrest⟩ := between_append_inj hne hne' ih hothers hxs hys heq
          exact ⟨by rw [hparts], hrest⟩

/-- No run of tokens is read in two ways. -/
theorem unique {l : Level} {ts : List Token} {d e : Expr} (h : Reads l ts d)
    (h' : Reads l ts e) : d = e :=
  (h.append_inj ts e [] [] h' (l.ends_nil) (l.ends_nil) rfl).1

end Reads

end Criteria
