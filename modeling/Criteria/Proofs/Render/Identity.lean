import Criteria.Proofs.Operator.Coherence
import Criteria.Proofs.Render.Reading
import Mathlib.Data.List.Chain
import Mathlib.Data.Set.Function

/-!
# Rendered text identifies the expression

The characters of rendered text are cut into tokens in one way only.  Brackets and signs
are told by their first character, with which no operand begins; an operand begins with a
word, which ends where another character follows, and behind the word it is told whether
it is a constant, the text of a scope or a guard for objects.  Keys stand in quotes, so
whatever they contain is not taken for anything else.  No operand stands next to another,
so a token is complete before the next one begins.  The tokens are then read in one way,
and a canonical expression is its own reading.

* `Scope.text_append_inj`: the text of a scope, and what follows it.
* `Token.text_append_inj`: the text of a token, and what follows it.
* `Token.eq_of_flatMap_text_eq`: text is cut into tokens in one way.
* `Expr.eq_of_tokens_eq`: the tokens of a canonical expression determine it.
* `Expr.injOn_render`: the text of a canonical expression without tests determines it.
-/

namespace Criteria

/-! ## Scopes -/

namespace Scope

/-- Characters in front of which the text of a scope ends. -/
def Ends (rest : List Char) : Prop := ∀ c ∈ rest.head?, isNameChar c = false ∧ c ≠ '['

theorem toList_keyText (key : String) :
    (keyText key).toList = '[' :: ((Json.quote key).toList ++ [']']) := by
  simp [keyText]

/-- What follows the root of a scope begins with the bracket of a key, if there is one. -/
theorem eq_or_mem_head?_keyChars_append {s : Scope} {rest : List Char} {c : Char}
    (h : c ∈ (s.keyChars ++ rest).head?) : c = '[' ∨ c ∈ rest.head? := by
  rw [keyChars] at h
  cases hkeys : s.keys with
  | nil =>
      rw [hkeys] at h
      exact .inr h
  | cons key keys =>
      rw [hkeys, List.flatMap_cons, toList_keyText] at h
      exact .inl (Option.some.inj h).symm

/-- The root of a scope ends in front of the keys. -/
theorem isNameChar_keyChars_append (s : Scope) {rest : List Char} (hrest : Ends rest) :
    ∀ c ∈ (s.keyChars ++ rest).head?, isNameChar c = false := by
  intro c hc
  rcases eq_or_mem_head?_keyChars_append hc with rfl | hc
  · exact isNameChar_eq_false (by simp)
  · exact (hrest c hc).1

/-- Keys end in front of what does not begin with their bracket. -/
theorem keys_append_inj {keys others : List String} {xs ys : List Char} (hxs : Ends xs)
    (hys : Ends ys)
    (h : (keys.flatMap fun key => (keyText key).toList) ++ xs =
      (others.flatMap fun key => (keyText key).toList) ++ ys) :
    keys = others ∧ xs = ys := by
  induction keys generalizing others with
  | nil =>
      cases others with
      | nil => exact ⟨rfl, h⟩
      | cons key others =>
          rw [List.flatMap_cons, toList_keyText] at h
          obtain rfl : xs = '[' :: _ := h
          exact absurd rfl (hxs '[' rfl).2
  | cons key keys ih =>
      cases others with
      | nil =>
          rw [List.flatMap_cons, toList_keyText] at h
          obtain rfl : '[' :: _ = ys := h
          exact absurd rfl (hys '[' rfl).2
      | cons other others =>
          rw [List.flatMap_cons, List.flatMap_cons, toList_keyText, toList_keyText,
            List.append_assoc, List.append_assoc, List.cons_append, List.cons_append,
            List.append_assoc, List.append_assoc] at h
          obtain ⟨rfl, hlater⟩ := Json.quote_append_inj (List.cons.inj h).2
          obtain ⟨rfl, hafter⟩ := ih (List.cons.inj hlater).2
          exact ⟨rfl, hafter⟩

/-- The text of a scope determines the scope, and what follows it. -/
theorem text_append_inj {s t : Scope} {xs ys : List Char} (hs : isIdentifier s.root = true)
    (ht : isIdentifier t.root = true) (hxs : Ends xs) (hys : Ends ys)
    (h : s.text.toList ++ xs = t.text.toList ++ ys) : s = t ∧ xs = ys := by
  obtain ⟨_, _, -, hroot⟩ := isNameChar_of_isIdentifier hs
  obtain ⟨_, _, -, hroot'⟩ := isNameChar_of_isIdentifier ht
  rw [toList_text, toList_text, List.append_assoc, List.append_assoc] at h
  obtain ⟨hroots, hkeys⟩ :=
    Json.span_append_inj hroot hroot' (isNameChar_keyChars_append s hxs)
      (isNameChar_keyChars_append t hys) h
  obtain ⟨hkeys, hafter⟩ := keys_append_inj hxs hys hkeys
  obtain ⟨root, keys⟩ := s
  obtain ⟨root', keys'⟩ := t
  obtain rfl : root = root' := String.toList_inj.mp hroots
  obtain rfl : keys = keys' := hkeys
  exact ⟨rfl, hafter⟩

/-- A scope whose root can be the name of a parameter and is not that of a constant. -/
structure Named (s : Scope) : Prop where
  /-- The root is a name. -/
  isIdentifier : isIdentifier s.root = true
  /-- The root is not taken for a constant. -/
  ne_true : s.root ≠ "true"
  /-- The root is not taken for a constant. -/
  ne_false : s.root ≠ "false"

end Scope

/-! ## Operands -/

/-- Whether the character begins a bracket or a sign, and which one. -/
def Token.markOf? : Char → Option Token
  | '!' => some .bang
  | '(' => some .opening
  | ')' => some .closing
  | '&' => some (.sign .and)
  | '|' => some (.sign .or)
  | _ => none

/-- What may follow an operand: nothing, a bracket or a sign. -/
def Marked (rest : List Char) : Prop := ∀ c ∈ rest.head?, (Token.markOf? c).isSome = true

theorem marked_nil : Marked [] := fun _ h => nomatch h

theorem Token.markOf?_of_isNameChar {c : Char} (h : isNameChar c = true) : markOf? c = none := by
  unfold markOf?
  split
  case h_6 => rfl
  all_goals exact absurd h (by decide)

theorem Marked.isNameChar {rest : List Char} (h : Marked rest) :
    ∀ c ∈ rest.head?, isNameChar c = false := by
  intro c hc
  by_contra hname
  have hmark := h c hc
  rw [Token.markOf?_of_isNameChar (by simpa using hname)] at hmark
  exact nomatch hmark

/-- Neither the bracket of a key nor a blank follows an operand. -/
theorem Marked.ne {rest : List Char} (h : Marked rest) {c : Char} (hc : Token.markOf? c = none) :
    c ∉ rest.head? := by
  intro hmem
  have hmark := h c hmem
  rw [hc] at hmark
  exact nomatch hmark

theorem Marked.ends {rest : List Char} (h : Marked rest) : Scope.Ends rest := by
  refine fun c hc => ⟨h.isNameChar c hc, ?_⟩
  rintro rfl
  exact h.ne rfl hc

namespace Operand

/-- The operand is no test, and its scope is named. -/
def Legible : Operand → Prop
  | .bool _ => True
  | .truthy s | .isObject s => s.Named
  | .test _ => False

/-- The word that the text of an operand begins with. -/
def word : Operand → List Char
  | .bool b => (Expr.bool b).render.toList
  | .truthy s => s.root.toList
  | .isObject _ => "typeof".toList
  | .test _ => []

/-- What stands behind that word. -/
def behind : Operand → List Char
  | .bool _ => []
  | .truthy s => s.keyChars
  | .isObject s => ' ' :: (s.text.toList ++ " === \"object\"".toList)
  | .test t => t.source.toList

theorem toList_render_expr (o : Operand) : o.expr.render.toList = o.word ++ o.behind := by
  cases o with
  | bool b => exact (List.append_nil _).symm
  | truthy s => exact s.toList_text
  | isObject s =>
      change ("typeof " ++ s.text ++ " === \"object\"" : String).toList =
        "typeof".toList ++ ' ' :: (s.text.toList ++ " === \"object\"".toList)
      simp
  | test t => rfl

/-- The forms of operands. -/
inductive Form where
  /-- Constants. -/
  | bool
  /-- Texts of scopes. -/
  | truthy
  /-- Guards for objects. -/
  | isObject
  /-- Sources of tests. -/
  | test

/-- The form of an operand. -/
def form : Operand → Form
  | .bool _ => .bool
  | .truthy _ => .truthy
  | .isObject _ => .isObject
  | .test _ => .test

/-- The form of the operand that begins with a word, by what is behind it. -/
def formOf (word rest : List Char) : Form :=
  if rest.head? = some ' ' then .isObject
  else if word = "true".toList ∨ word = "false".toList then .bool
  else .truthy

variable {o p : Operand} {xs ys : List Char}

/-- The first word of an operand and what is behind it tell its form. -/
theorem formOf_word (ho : o.Legible) (hxs : Marked xs) :
    formOf o.word (o.behind ++ xs) = o.form := by
  cases o with
  | bool b =>
      have hconstant : (bool b).word = "true".toList ∨ (bool b).word = "false".toList := by
        cases b
        · exact .inr rfl
        · exact .inl rfl
      exact (if_neg (hxs.ne rfl)).trans (if_pos hconstant)
  | truthy s =>
      have hblank : (s.keyChars ++ xs).head? ≠ some ' ' := fun h =>
        (Scope.eq_or_mem_head?_keyChars_append h).elim (by decide) (hxs.ne rfl)
      have hconstant : ¬(s.root.toList = "true".toList ∨ s.root.toList = "false".toList) := by
        rw [String.toList_inj, String.toList_inj]
        exact not_or.mpr ⟨ho.ne_true, ho.ne_false⟩
      exact (if_neg hblank).trans (if_neg hconstant)
  | isObject s => rfl
  | test t => exact ho.elim

/-- The first word of an operand ends in front of another character. -/
theorem isNameChar_word (ho : o.Legible) (hxs : Marked xs) :
    (∀ c ∈ o.word, isNameChar c = true) ∧ ∀ c ∈ (o.behind ++ xs).head?, isNameChar c = false := by
  cases o with
  | bool b =>
      refine ⟨?_, hxs.isNameChar⟩
      cases b
      · exact List.all_eq_true.mp rfl
      · exact List.all_eq_true.mp rfl
  | truthy s =>
      obtain ⟨_, _, -, hroot⟩ := isNameChar_of_isIdentifier ho.isIdentifier
      exact ⟨hroot, Scope.isNameChar_keyChars_append s hxs.ends⟩
  | isObject s =>
      refine ⟨List.all_eq_true.mp rfl, ?_⟩
      rintro c ⟨⟩
      exact isNameChar_eq_false (by simp)
  | test t => exact ho.elim

/-- The text of an operand determines the operand, and what follows it. -/
theorem render_append_inj (ho : o.Legible) (hp : p.Legible) (hxs : Marked xs) (hys : Marked ys)
    (h : o.expr.render.toList ++ xs = p.expr.render.toList ++ ys) : o = p ∧ xs = ys := by
  obtain ⟨hword, hend⟩ := isNameChar_word ho hxs
  obtain ⟨hword', hend'⟩ := isNameChar_word hp hys
  rw [toList_render_expr, toList_render_expr, List.append_assoc, List.append_assoc] at h
  obtain ⟨hwords, hbehind⟩ := Json.span_append_inj hword hword' hend hend' h
  -- The words do not tell the forms apart: a scope may be called `typeof`.
  have hform : o.form = p.form := by
    rw [← formOf_word ho hxs, ← formOf_word hp hys, hwords, hbehind]
  cases o with
  | bool a =>
      cases p with
      | bool b =>
          refine ⟨?_, hbehind⟩
          cases a <;> cases b
          · rfl
          · exact absurd hwords (by decide)
          · exact absurd hwords (by decide)
          · rfl
      | _ => exact nomatch hform
  | truthy s =>
      cases p with
      | truthy t =>
          obtain ⟨rfl, hafter⟩ :=
            Scope.text_append_inj ho.isIdentifier hp.isIdentifier hxs.ends hys.ends
              (by rwa [s.toList_text, t.toList_text, List.append_assoc, List.append_assoc])
          exact ⟨rfl, hafter⟩
      | _ => exact nomatch hform
  | isObject s =>
      cases p with
      | isObject t =>
          have hblank : ∀ rest, Scope.Ends (" === \"object\"".toList ++ rest) := by
            intro rest c hc
            obtain rfl : c = ' ' := by simpa [eq_comm] using hc
            exact ⟨isNameChar_eq_false (by simp), by decide⟩
          rw [behind, behind, List.cons_append, List.cons_append, List.append_assoc,
            List.append_assoc] at hbehind
          obtain ⟨rfl, hafter⟩ :=
            Scope.text_append_inj ho.isIdentifier hp.isIdentifier (hblank xs) (hblank ys)
              (List.cons.inj hbehind).2
          exact ⟨rfl, List.append_cancel_left hafter⟩
      | _ => exact nomatch hform
  | test t => exact ho.elim

end Operand

/-! ## Tokens -/

namespace Token

/-- The condition that an operand stands for. -/
def operand? : Token → Option Expr
  | .operand o => some o.expr
  | _ => none

/-- The bracket or sign that a token is. -/
def mark? : Token → Option Token
  | .operand _ => none
  | t => some t

/-- The token is no operand, or one that its text determines. -/
def Legible : Token → Prop
  | .operand o => o.Legible
  | _ => True

/-- An operand does not stand next to another one. -/
def Apart (s t : Token) : Prop := s.mark? = none → t.mark?.isSome = true

variable {s t : Token} {xs ys : List Char}

theorem eq_of_mark? (h : t.mark? = some s) : t = s := by
  cases t with
  | operand o => exact nomatch h
  | _ => exact Option.some.inj h

/-- The first character of a token tells brackets and signs from operands, and from each
other. -/
theorem exists_head_text (ht : t.Legible) :
    ∃ c rest, t.text.toList = c :: rest ∧ markOf? c = t.mark? := by
  cases t with
  | operand o =>
      obtain ⟨hword, -⟩ := Operand.isNameChar_word ht marked_nil
      obtain ⟨c, rest, hsplit⟩ : ∃ c rest, o.word = c :: rest := by
        cases o with
        | bool b => cases b <;> exact ⟨_, _, rfl⟩
        | truthy s =>
            obtain ⟨first, rest, hroot, -⟩ := isNameChar_of_isIdentifier ht.isIdentifier
            exact ⟨first, rest, hroot⟩
        | isObject s => exact ⟨_, _, rfl⟩
        | test t => exact ht.elim
      refine ⟨c, rest ++ o.behind, ?_, ?_⟩
      · change o.expr.render.toList = _
        rw [o.toList_render_expr, hsplit, List.cons_append]
      · exact markOf?_of_isNameChar (hword c (hsplit ▸ List.mem_cons_self))
  | bang => exact ⟨'!', [], rfl, rfl⟩
  | opening => exact ⟨'(', [], rfl, rfl⟩
  | closing => exact ⟨')', [], rfl, rfl⟩
  | sign c =>
      cases c with
      | and => exact ⟨'&', ['&'], rfl, rfl⟩
      | or => exact ⟨'|', ['|'], rfl, rfl⟩

/-- The text of a token determines the token, and what follows it, if a mark follows an
operand. -/
theorem text_append_inj (hs : s.Legible) (ht : t.Legible) (hxs : s.mark? = none → Marked xs)
    (hys : t.mark? = none → Marked ys) (h : s.text.toList ++ xs = t.text.toList ++ ys) :
    s = t ∧ xs = ys := by
  have hmark : s.mark? = t.mark? := by
    obtain ⟨c, rest, hc, hsmark⟩ := exists_head_text hs
    obtain ⟨d, rest', hd, htmark⟩ := exists_head_text ht
    rw [hc, hd] at h
    obtain ⟨rfl, -⟩ := List.cons.inj h
    exact hsmark.symm.trans htmark
  cases hsmark : s.mark? with
  | some u =>
      obtain rfl : s = u := eq_of_mark? hsmark
      obtain rfl : t = s := eq_of_mark? (hmark ▸ hsmark)
      exact ⟨rfl, List.append_cancel_left h⟩
  | none =>
      have htmark := hmark ▸ hsmark
      cases s with
      | operand o =>
          cases t with
          | operand p =>
              obtain ⟨rfl, hafter⟩ :=
                Operand.render_append_inj hs ht (hxs hsmark) (hys htmark) h
              exact ⟨rfl, hafter⟩
          | _ => exact nomatch htmark
      | _ => exact nomatch hsmark

/-- Behind an operand, the text of a run of tokens begins with a mark. -/
theorem marked_flatMap_text {ts : List Token} (hall : ∀ u ∈ ts, u.Legible)
    (hchain : (s :: ts).IsChain Apart) (hs : s.mark? = none) :
    Marked (ts.flatMap fun u => u.text.toList) := by
  cases ts with
  | nil => exact marked_nil
  | cons u ts =>
      obtain ⟨c, rest, hc, hmark⟩ := exists_head_text (hall u List.mem_cons_self)
      rw [List.flatMap_cons, hc]
      rintro d ⟨⟩
      rw [hmark]
      exact (List.isChain_cons_cons.mp hchain).1 hs

/-- Text is cut into tokens in one way only. -/
theorem eq_of_flatMap_text_eq {ts us : List Token} (hts : ∀ t ∈ ts, t.Legible)
    (hus : ∀ u ∈ us, u.Legible) (hchain : ts.IsChain Apart) (hchain' : us.IsChain Apart)
    (h : (ts.flatMap fun t => t.text.toList) = us.flatMap fun u => u.text.toList) : ts = us := by
  induction ts generalizing us with
  | nil =>
      cases us with
      | nil => rfl
      | cons u us =>
          obtain ⟨c, rest, hc, -⟩ := exists_head_text (hus u List.mem_cons_self)
          rw [List.flatMap_cons, hc] at h
          exact nomatch h
  | cons t ts ih =>
      obtain ⟨ht, hts⟩ := List.forall_mem_cons.mp hts
      cases us with
      | nil =>
          obtain ⟨c, rest, hc, -⟩ := exists_head_text ht
          rw [List.flatMap_cons, hc] at h
          exact nomatch h
      | cons u us =>
          obtain ⟨hu, hus⟩ := List.forall_mem_cons.mp hus
          -- In both runs a mark follows the first token if that is an operand.
          obtain ⟨hfirst, hrest⟩ :=
            text_append_inj ht hu (marked_flatMap_text hts hchain)
              (marked_flatMap_text hus hchain') h
          rw [hfirst, ih hts hus hchain.tail hchain'.tail hrest]

/-- Runs of tokens may be put together around a mark. -/
theorem isChain_append_mark {ts us : List Token} (hts : ts.IsChain Apart)
    (hus : us.IsChain Apart) (ht : t.mark?.isSome = true) :
    (ts ++ t :: us).IsChain Apart := by
  refine List.isChain_append.mpr ⟨hts, List.isChain_cons.mpr ⟨fun u _ hnone => ?_, hus⟩, ?_⟩
  · rw [hnone] at ht
    exact nomatch ht
  · rintro s _ u ⟨⟩ _
    exact ht

theorem isChain_enclose {ts : List Token} (h : ts.IsChain Apart) (enclosed : Bool) :
    (enclose enclosed ts).IsChain Apart := by
  cases enclosed with
  | false => exact h
  | true => exact isChain_append_mark .nil (isChain_append_mark h .nil rfl) rfl

theorem isChain_between {c : Connective} {tss : List (List Token)}
    (h : ∀ ts ∈ tss, ts.IsChain Apart) : (between c tss).IsChain Apart := by
  induction tss with
  | nil => exact .nil
  | cons ts rest ih =>
      obtain ⟨hts, hrest⟩ := List.forall_mem_cons.mp h
      cases rest with
      | nil => simpa [between] using hts
      | cons us rest => exact isChain_append_mark hts (ih hrest) rfl

theorem filterMap_enclose (enclosed : Bool) (ts : List Token) :
    (enclose enclosed ts).filterMap operand? = ts.filterMap operand? := by
  cases enclosed <;> simp [enclose, operand?, List.filterMap_cons]

theorem filterMap_between (c : Connective) (tss : List (List Token)) :
    (between c tss).filterMap operand? = tss.flatMap (·.filterMap operand?) := by
  cases tss with
  | nil => rfl
  | cons ts rest =>
      simp [between, List.filterMap_append, List.filterMap_flatMap, operand?, List.filterMap_cons]

end Token

/-! ## Expressions -/

namespace Expr

/-- In the text of an expression no operand stands next to another one. -/
theorem isChain_tokens (e : Expr) : e.tokens.IsChain Token.Apart := by
  induction e with
  | not inner ih =>
      exact Token.isChain_append_mark .nil (Token.isChain_enclose ih true) rfl
  | node c parts ih =>
      rw [tokens, tokensOfParts_eq_map]
      refine Token.isChain_between fun ts hts => ?_
      obtain ⟨e, he, rfl⟩ := List.mem_map.mp hts
      exact Token.isChain_enclose (ih e he) _
  | _ => exact List.isChain_singleton _

/-- The operands in the text of an expression are its atoms. -/
theorem filterMap_operand?_tokens (e : Expr) : e.tokens.filterMap Token.operand? = e.atoms := by
  induction e with
  | not inner ih =>
      have henclosed := Token.filterMap_enclose true inner.tokens
      rw [ih] at henclosed
      exact henclosed
  | node c parts ih =>
      rw [tokens, tokensOfParts_eq_map, Token.filterMap_between, atoms_node]
      induction parts with
      | nil => rfl
      | cons e rest ih_rest =>
          rw [List.map_cons, List.flatMap_cons, Token.filterMap_enclose, ih e List.mem_cons_self,
            ih_rest fun e he => ih e (List.mem_cons_of_mem _ he), atomsOfAll_cons]
  | _ => rfl

/-- The expressions that rendered text tells apart. -/
structure Legible (e : Expr) : Prop where
  /-- No node could have been written shorter. -/
  canonical : e.isCanonical = true
  /-- There are no tests, whose sources may be any text. -/
  testFree : ∀ t, test t ∉ e.atoms
  /-- The scopes of guards have names for roots. -/
  named : ∀ a ∈ e.atoms, ∀ s, a.scope? = some s → s.Named

theorem Legible.tokens {e : Expr} (h : e.Legible) : ∀ t ∈ e.tokens, t.Legible := by
  intro t ht
  cases t with
  | operand o =>
      have hatom : o.expr ∈ e.atoms := by
        rw [← filterMap_operand?_tokens]
        exact List.mem_filterMap.mpr ⟨_, ht, rfl⟩
      cases o with
      | bool b => trivial
      | truthy s => exact h.named _ hatom s rfl
      | isObject s => exact h.named _ hatom s rfl
      | test t => exact h.testFree t hatom
  | _ => trivial

theorem legible_truthy {s : Scope} (h : s.Named) : (truthy s).Legible where
  canonical := rfl
  testFree := by simp
  named := by simpa [scope?] using h

theorem toList_render (e : Expr) :
    e.render.toList = e.tokens.flatMap fun t => t.text.toList := by
  rw [render_eq_join, String.toList_join, List.flatMap_map]

variable {d e : Expr}

/-- Legible expressions of the same text have the same tokens. -/
theorem Legible.tokens_eq (hd : d.Legible) (he : e.Legible) (h : d.render = e.render) :
    d.tokens = e.tokens :=
  Token.eq_of_flatMap_text_eq hd.tokens he.tokens d.isChain_tokens e.isChain_tokens
    (by rw [← toList_render, ← toList_render, h])

/-- Canonical expressions of the same tokens are the same, as the tokens are read in one
way. -/
theorem eq_of_tokens_eq (hd : d.isCanonical = true) (he : e.isCanonical = true)
    (h : d.tokens = e.tokens) : d = e := by
  have hreads := reads_tokens (isFull_of_isCanonical hd)
  have hreads' := reads_tokens (isFull_of_isCanonical he)
  rw [reading_of_isCanonical hd, h] at hreads
  rw [reading_of_isCanonical he] at hreads'
  exact hreads.unique hreads'

/-- The text of a canonical expression without tests, below named scopes, determines the
expression.  In particular the text of a scope determines the scope, whatever its keys
contain. -/
theorem injOn_render :
    Set.InjOn render {e | e.Legible} ∧ Set.InjOn Scope.text {s | s.Named} := by
  have hexpr : Set.InjOn render {e | e.Legible} := by
    intro d hd e he h
    exact eq_of_tokens_eq hd.canonical he.canonical (hd.tokens_eq he h)
  refine ⟨hexpr, ?_⟩
  -- The text of a scope is that of a guard.
  intro s hs t ht h
  exact truthy.inj (hexpr (legible_truthy hs) (legible_truthy ht) h)

/-- A scope below a root that reads like an operator, with keys that read like the end of
a key and a sign, and like an escape. -/
def wilyScope : Scope := ⟨"typeof", ["\"]&&!(entry[\"", "\\"]⟩

/-- Guards whose keys read like operators, constants and signs. -/
def wily : Expr :=
  .node .or
    [.node .and
      [.truthy wilyScope, .bool true, .not (.isObject ⟨"trueish", [")||false", "\n"]⟩)],
      .isObject ⟨"typeof", [" === \"object\""]⟩]

/-- The same guards, joined step by step. -/
def wilyJoins : Expr :=
  any
    [all [.truthy (((Scope.ofRoot "typeof").child "\"]&&!(entry[\"").child "\\"),
        all [.bool true, .not (.isObject ⟨"trueish", [")||false", "\n"]⟩)]],
      .isObject ((Scope.ofRoot "typeof").child " === \"object\"")]

theorem injOn_render_wily :
    wily.Legible ∧ wilyJoins.Legible ∧ wilyJoins.render = wily.render ∧ wilyJoins = wily ∧
    ∃ s : Scope, s.Named ∧ wilyScope.Named ∧ s.text = wilyScope.text ∧ s = wilyScope := by
  have htypeof : ∀ keys, (Scope.mk "typeof" keys).Named := fun _ =>
    ⟨(by decide : isIdentifier "typeof" = true), by simp, by simp⟩
  have htrueish : ∀ keys, (Scope.mk "trueish" keys).Named := fun _ =>
    ⟨(by decide : isIdentifier "trueish" = true), by simp, by simp⟩
  have hlegible : wily.Legible :=
    { canonical := rfl
      testFree := by simp [wily]
      named := by simp [wily, wilyScope, scope?, htypeof, htrueish] }
  have hlegible' : wilyJoins.Legible := hlegible
  exact ⟨hlegible, hlegible', rfl, injOn_render.1 hlegible' hlegible rfl,
    ((Scope.ofRoot "typeof").child "\"]&&!(entry[\"").child "\\", htypeof _, htypeof _, rfl,
    injOn_render.2 (htypeof _) (htypeof _) rfl⟩

end Expr

end Criteria
