import Criteria.Proofs.Expr.Canonical
import Criteria.Proofs.Render.Grammar

/-!
# How rendered text is read

Brackets are written around a disjunction in a conjunction and behind a negation, and
nowhere else.  So the grammar does not see a conjunction in a conjunction, a disjunction
in a disjunction, or a node of one part: it reads their parts as parts of the chain
around them.  That changes neither the order in which parts are evaluated nor what ends
the evaluation.  An expression without such nodes is read back as it is.

* `Expr.reading`: what the tokens of an expression are read as.
* `Expr.reads_tokens`: the grammar reads them so, if there are no empty nodes.
* `Expr.eval_reading`: the reading runs like the expression.
* `Expr.reading_of_isCanonical`: a canonical expression is its own reading.
* `Expr.existsUnique_reading`: rendered text has one reading, and it runs like the
  expression.
-/

namespace Criteria

/-! ## Chains of phrases -/

/-- A run of tokens is read as phrases with the sign of a connective between them. -/
def ReadsChain (c : Connective) (ts : List Token) (es : List Expr) : Prop :=
  ∃ parts : List (List Token × Expr), parts ≠ [] ∧
    (∀ p ∈ parts, Reads (.below c) p.1 p.2) ∧
    Token.between c (parts.map Prod.fst) = ts ∧ parts.map Prod.snd = es

theorem Token.between_append {c : Connective} {xs ys : List (List Token)} (hxs : xs ≠ [])
    (hys : ys ≠ []) : between c (xs ++ ys) = between c xs ++ .sign c :: between c ys := by
  cases xs with
  | nil => exact absurd rfl hxs
  | cons ts xs =>
      cases ys with
      | nil => exact absurd rfl hys
      | cons us ys => simp [between]

namespace ReadsChain

variable {c : Connective} {ts us : List Token} {ds es : List Expr} {e : Expr}

theorem reads (h : ReadsChain c ts es) : Reads (.chain c) ts (c.chained es) := by
  obtain ⟨parts, hne, hparts, rfl, rfl⟩ := h
  exact .chain c hne hparts

/-- A phrase alone is a chain. -/
theorem single (h : Reads (.below c) ts e) : ReadsChain c ts [e] :=
  ⟨[(ts, e)], List.cons_ne_nil _ _, List.forall_mem_singleton.mpr h, List.append_nil ts, rfl⟩

/-- A unary phrase alone is a chain of either connective. -/
theorem of_unary (c : Connective) (h : Reads .unary ts e) : ReadsChain c ts [e] := by
  cases c with
  | and => exact single h
  | or => exact single (single (c := .and) h).reads

/-- Two chains with the sign of their connective between them are one. -/
theorem append (h : ReadsChain c ts ds) (h' : ReadsChain c us es) :
    ReadsChain c (ts ++ .sign c :: us) (ds ++ es) := by
  obtain ⟨parts, hne, hparts, rfl, rfl⟩ := h
  obtain ⟨others, hne', hothers, rfl, rfl⟩ := h'
  refine ⟨parts ++ others, List.append_ne_nil_of_left_ne_nil hne _,
    List.forall_mem_append.mpr ⟨hparts, hothers⟩, ?_, List.map_append⟩
  rw [List.map_append, Token.between_append (by simpa using hne) (by simpa using hne')]

end ReadsChain

namespace Connective

variable {c : Connective} {input : Option Json} {context : Context}

/-- A chain runs like its phrases from left to right. -/
theorem eval_chained (es : List Expr) :
    (c.chained es).eval input context = Expr.evalParts input c es context := by
  unfold chained
  split
  · rw [Expr.evalParts_singleton]
  · rfl

/-- Two or more phrases are joined. -/
theorem chained_of_two_le {es : List Expr} (h : 2 ≤ es.length) : c.chained es = .node c es := by
  unfold chained
  split
  · exact absurd h (by simp)
  · rfl

end Connective

namespace Expr

/-! ## Readings -/

mutual

/-- The phrases of a chain of the connective that an expression is read as. -/
def phrases : Connective → Expr → List Expr
  | _, .not inner => [.not (Connective.or.chained (phrases .or inner))]
  | c, .node d parts =>
    if d = c then phrasesOfAll d parts else [d.chained (phrasesOfAll d parts)]
  | _, e => [e]

/-- The phrases of several expressions in one chain. -/
def phrasesOfAll : Connective → List Expr → List Expr
  | _, [] => []
  | c, e :: rest => phrases c e ++ phrasesOfAll c rest

end

/-- What the tokens of an expression are read as. -/
def reading (e : Expr) : Expr := Connective.or.chained (e.phrases .or)

/-- A part is read as its phrases, in brackets where it needs them. -/
theorem readsChain_phrases {e : Expr} (h : e.isFull = true) (c : Connective) :
    ReadsChain c (Token.enclose (needsParens c e) e.tokens) (e.phrases c) := by
  induction e generalizing c with
  | not inner ih =>
      have hinner : Reads (.chain .or) inner.tokens inner.reading := by
        simpa [needsParens, Token.enclose, reading] using (ih h .or).reads
      have hnot := Reads.negated (.enclosed hinner)
      cases c <;> exact .of_unary _ hnot
  | node d parts ih =>
      obtain ⟨hne, hparts⟩ := isFull_node.mp h
      -- The parts, from the last one on.
      have hchain : ReadsChain d (node d parts).tokens (phrasesOfAll d parts) := by
        clear h
        rw [tokens]
        induction parts with
        | nil => exact absurd rfl hne
        | cons e rest ih_rest =>
            have he := ih e List.mem_cons_self (hparts e List.mem_cons_self) d
            cases rest with
            | nil => simpa [tokensOfParts, Token.between, phrasesOfAll] using he
            | cons f rest =>
                have hrest := ih_rest (fun e he => ih e (List.mem_cons_of_mem _ he))
                  (List.cons_ne_nil _ _) fun e he => hparts e (List.mem_cons_of_mem _ he)
                simpa [tokensOfParts, Token.between, phrasesOfAll] using he.append hrest
      cases c with
      | and =>
          cases d with
          | and => exact hchain
          | or => exact .of_unary .and (.enclosed hchain.reads)
      | or =>
          cases d with
          | and => exact .single hchain.reads
          | or => exact hchain
  | bool b => cases c <;> exact .of_unary _ (.operand (.bool b))
  | truthy s => cases c <;> exact .of_unary _ (.operand (.truthy s))
  | isObject s => cases c <;> exact .of_unary _ (.operand (.isObject s))
  | test t => cases c <;> exact .of_unary _ (.operand (.test t))

/-- The tokens of an expression without empty nodes are read as its reading. -/
theorem reads_tokens {e : Expr} (h : e.isFull = true) :
    Reads (.chain .or) e.tokens e.reading := by
  simpa [needsParens, Token.enclose, reading] using (readsChain_phrases h .or).reads

section Eval

variable {input : Option Json}

/-- The phrases of an expression run like the expression. -/
theorem evalParts_phrases (c : Connective) (e : Expr) (context : Context) :
    evalParts input c (e.phrases c) context = eval input e context := by
  induction e generalizing c context with
  | not inner ih =>
      rw [phrases, evalParts_singleton, eval_not, Connective.eval_chained, ih, eval_not]
  | node d parts ih =>
      have hparts : ∀ context, evalParts input d (phrasesOfAll d parts) context =
          evalParts input d parts context := by
        induction parts with
        | nil => exact fun _ => rfl
        | cons e rest ih_rest =>
            intro context
            rw [phrasesOfAll, evalParts_append, ih e List.mem_cons_self,
              ih_rest fun e he => ih e (List.mem_cons_of_mem _ he), evalParts_cons]
      rw [phrases, eval_node]
      split
      · rename_i hsame
        rw [← hsame, hparts]
      · rw [evalParts_singleton, Connective.eval_chained, hparts]
  | _ => exact evalParts_singleton _

/-- The reading of an expression runs like the expression: it gives the same answer and
leaves the same context, whatever its tests do to it. -/
theorem eval_reading (e : Expr) (context : Context) :
    eval input e.reading context = eval input e context := by
  rw [reading, Connective.eval_chained, evalParts_phrases]

end Eval

/-! ## Canonical expressions -/

/-- The operands of a canonical expression make up the expression. -/
theorem chained_operands {c : Connective} {e : Expr} (h : e.isCanonical = true) :
    c.chained (e.operands c) = e := by
  cases e with
  | node d parts =>
      rw [operands]
      split
      · rename_i hsame
        rw [hsame, Connective.chained_of_two_le (isCanonical_node.mp h).1]
      · rfl
  | _ => rfl

/-- The phrases of a canonical expression are its operands. -/
theorem phrases_of_isCanonical {e : Expr} (h : e.isCanonical = true) (c : Connective) :
    e.phrases c = e.operands c := by
  induction e generalizing c with
  | not inner ih =>
      have hinner : inner.isCanonical = true := h
      rw [phrases, ih hinner, chained_operands hinner]
      rfl
  | node d parts ih =>
      obtain ⟨hlength, hparts⟩ := isCanonical_node.mp h
      have hall : phrasesOfAll d parts = parts := by
        clear h hlength
        induction parts with
        | nil => rfl
        | cons e rest ih_rest =>
            obtain ⟨⟨hjoins, he⟩, hrest⟩ := List.forall_mem_cons.mp hparts
            rw [phrasesOfAll, ih e List.mem_cons_self he, operands_of_joins_eq_false hjoins,
              ih_rest (fun e he => ih e (List.mem_cons_of_mem _ he)) hrest, List.singleton_append]
      rw [phrases, operands, hall, Connective.chained_of_two_le hlength]
  | _ => rfl

/-- A canonical expression is its own reading. -/
theorem reading_of_isCanonical {e : Expr} (h : e.isCanonical = true) : e.reading = e := by
  rw [reading, phrases_of_isCanonical h, chained_operands h]

/-! ## Rendered text -/

/-- The text of an expression without empty nodes is that of tokens which the grammar
reads in exactly one way, and what they are read as runs like the expression. -/
theorem existsUnique_reading {e : Expr} (h : e.isFull = true) :
    e.render = String.join (e.tokens.map Token.text) ∧
    ∃ d, Reads (.chain .or) e.tokens d ∧ (∀ d', Reads (.chain .or) e.tokens d' → d' = d) ∧
      ∀ input context, d.eval input context = e.eval input context :=
  ⟨render_eq_join e, e.reading, reads_tokens h, fun _ hd => hd.unique (reads_tokens h),
    fun _ context => eval_reading e context⟩

/-- Nodes of one part, nodes in nodes of their own kind and negations, over a test that
holds the first time only. -/
def mingled : Expr :=
  let scope := (Scope.ofRoot "entry").child "a"
  let first := testAt scope "first" fun _ context =>
    (!context.contains "seen", context.insert "seen" (.bool true))
  .node .and
    [.node .or [.node .and [first, .not (.node .or [.truthy scope, first])]],
      .node .and [.node .or [first, .node .and [.isObject scope, .bool false]], .not (.not first)],
      .node .or [.node .or [.bool true, first], .node .and [first]]]

theorem existsUnique_reading_mingled :
    mingled.isFull = true ∧ mingled.render = String.join (mingled.tokens.map Token.text) ∧
    ∃ d, Reads (.chain .or) mingled.tokens d ∧
      (∀ d', Reads (.chain .or) mingled.tokens d' → d' = d) ∧
      ∀ input context, d.eval input context = mingled.eval input context :=
  ⟨rfl, existsUnique_reading rfl⟩

end Expr

end Criteria
