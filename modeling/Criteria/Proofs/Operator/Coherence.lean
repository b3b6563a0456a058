import Criteria.Compiler
import Criteria.Proofs.Json.Text
import Criteria.Proofs.Operator.Readers

/-!
# Sources of stock operators

At a scope the source of a condition determines the condition.  Its first word and the
two characters behind that tell whether it begins with the scope, with `typeof`, with
the tag of an object, with a variable or with none of these, as names end where other
characters follow.  What is left are texts of values, strings and patterns, which can be
read back.

* `Stock.Condition.leadOf_source`: how the source of a condition begins.
* `Stock.Condition.source_injective`: the source determines the condition.
* `Dictionary.tame_of_stock`: stock operators other than `counter` make tame tests.
-/

namespace Criteria

/-! ## Names -/

/-- The characters that names are made of. -/
def isNameChar (c : Char) : Bool := CharClass.isAlphanumeric c || c == '_' || c == '$'

theorem isNameChar_of_isIdentifier {name : String} (h : isIdentifier name = true) :
    ∃ first rest, name.toList = first :: rest ∧ ∀ c ∈ name.toList, isNameChar c = true := by
  rw [isIdentifier] at h
  split at h
  · exact nomatch h
  · rename_i first rest hchars
    rw [Bool.and_eq_true, List.all_eq_true] at h
    refine ⟨first, rest, hchars, ?_⟩
    rw [hchars]
    refine List.forall_mem_cons.mpr ⟨?_, h.2⟩
    have hfirst := h.1
    simp only [isNameChar, CharClass.isAlphanumeric, Bool.or_eq_true] at hfirst ⊢
    rcases hfirst with (hletter | hunderscore) | hdollar
    · exact .inl (.inl (.inl hletter))
    · exact .inl (.inr hunderscore)
    · exact .inr hdollar

/-- Names end in front of these characters. -/
theorem isNameChar_eq_false {c : Char} (h : c ∈ ['=', '<', '>', '.', ' ', '(', '/', '[']) :
    isNameChar c = false := by
  have hall : ['=', '<', '>', '.', ' ', '(', '/', '['].all (!isNameChar ·) = true := by decide
  simpa using List.all_eq_true.mp hall c h

namespace Scope

/-- The characters of the keys of a scope. -/
def keyChars (s : Scope) : List Char := s.keys.flatMap fun key => (keyText key).toList

theorem toList_text (s : Scope) : s.text.toList = s.root.toList ++ s.keyChars := by
  rw [text, String.toList_append, keyChars]
  congr 1
  induction s.keys with
  | nil => rfl
  | cons key rest ih => simp [ih]

end Scope

namespace Stock

/-- A comparison ends at the blank behind its symbol. -/
theorem Comparison.symbol_append_inj {a b : Comparison} {s t : String}
    (h : a.symbol.toList ++ (" ".toList ++ s.toList) =
      b.symbol.toList ++ (" ".toList ++ t.toList)) :
    a = b ∧ s = t := by
  rw [← String.toList_inj]
  cases a <;> cases b <;> simp [symbol] at h ⊢ <;> exact h

/-- A count ends at the bracket behind it. -/
theorem count_append_inj {m n : Nat} {s t : String}
    (h : (toString m).toList ++ (") === ".toList ++ (Json.quote s).toList) =
      (toString n).toList ++ (") === ".toList ++ (Json.quote t).toList)) :
    s = t := by
  have hdigits : ∀ k : Nat, ∀ c ∈ (toString k).toList, c.isDigit = true := by
    intro k
    rw [Nat.toString_eq_repr, Nat.toList_repr]
    exact Numeral.digits_toDigits k
  have hstop : ∀ u : List Char, ∀ c ∈ (") === ".toList ++ u).head?, c.isDigit = false := by
    intro u
    simp
  have hquote := (Json.span_append_inj (hdigits m) (hdigits n) (hstop _) (hstop _) h).2
  exact Json.quote_injective (String.toList_inj.mp (List.append_cancel_left hquote))

/-- The ways in which sources begin. -/
inductive Lead where
  /-- With the text of the scope. -/
  | scope
  /-- With the operator that names types. -/
  | kind
  /-- With the function that shows the tag of an object. -/
  | tag
  /-- With a bracket. -/
  | truth
  /-- With a pattern. -/
  | pattern
  /-- With the execution context. -/
  | context

/-- How a source begins, by the characters behind its first word. -/
def leadBehind : List Char → Lead
  | ' ' :: c :: _ => if isNameChar c then .kind else .scope
  | '.' :: 'p' :: _ => .tag
  | _ => .scope

/-- How a source begins, by its first word and what is behind it. -/
def lead (word rest : List Char) : Lead :=
  if word = "this".toList then .context
  else if word = [] then (if rest.head? = some '(' then .truth else .pattern)
  else leadBehind rest

/-- How a source begins. -/
def leadOf (cs : List Char) : Lead := lead (cs.takeWhile isNameChar) (cs.dropWhile isNameChar)

theorem leadOf_append {word rest : List Char} (hword : ∀ c ∈ word, isNameChar c = true)
    (hrest : ∀ c ∈ rest.head?, isNameChar c = false) :
    leadOf (word ++ rest) = lead word rest := by
  obtain ⟨htake, hdrop⟩ := Json.span_append hword hrest
  rw [leadOf, htake, hdrop]

/-- A name ends in front of the text, and nothing in it points to another beginning
than the scope. -/
def Follows (rest : List Char) : Prop :=
  (∀ c ∈ rest.head?, isNameChar c = false) ∧ leadBehind rest = .scope

namespace Condition

/-- How the source of the condition begins. -/
def lead : Condition → Lead
  | .compares _ _ | .begins _ | .ends _ | .contains _ => .scope
  | .hasKind _ | .hasType _ => .kind
  | .isArray | .isNull => .tag
  | .isTruthy => .truth
  | .fits _ => .pattern
  | .looksUp _ => .context

theorem toList_tagSource (scope tag : String) :
    (tagSource scope tag).toList = "Object.prototype.toString.call(".toList ++
      (scope.toList ++ (")===\"[object ".toList ++ (tag.toList ++ "]\"".toList))) := by
  change (_ ++ _ ++ _ ++ _ ++ _ : String).toList = _
  simp only [String.toList_append, List.append_assoc]

/-- Behind `Object` comes a point. -/
theorem leadOf_tagSource (scope tag : String) : leadOf (tagSource scope tag).toList = .tag := by
  have hword : ∀ c ∈ "Object".toList, isNameChar c = true := List.all_eq_true.mp rfl
  obtain ⟨rest, hsplit⟩ : ∃ rest, (tagSource scope tag).toList =
      "Object".toList ++ '.' :: 'p' :: rest := by simp [toList_tagSource]
  rw [hsplit, leadOf_append hword (by simp [isNameChar_eq_false]), Stock.lead, if_neg (by simp),
    if_neg (by simp)]
  rfl

variable {scope : Scope} (hname : isIdentifier scope.root = true)

include hname

/-- The first character of a scope. -/
theorem exists_head_scope :
    ∃ c rest, scope.text.toList = c :: rest ∧ isNameChar c = true := by
  obtain ⟨first, rest, hroot, hall⟩ := isNameChar_of_isIdentifier hname
  rw [hroot] at hall
  exact ⟨first, rest ++ scope.keyChars, by rw [scope.toList_text, hroot]; rfl,
    hall first List.mem_cons_self⟩

variable (hthis : scope.root ≠ "this")

include hthis

theorem leadOf_scope {rest : List Char} (h : Follows rest) :
    leadOf (scope.text.toList ++ rest) = .scope := by
  obtain ⟨first, others, hroot, hall⟩ := isNameChar_of_isIdentifier hname
  have hbehind : Follows (scope.keyChars ++ rest) := by
    cases hkeys : scope.keys with
    | nil => rwa [Scope.keyChars, hkeys]
    | cons key keys =>
        rw [Scope.keyChars, hkeys, List.flatMap_cons, Scope.keyText, String.toList_append,
          String.toList_append]
        exact ⟨by simp [isNameChar_eq_false], rfl⟩
  rw [Scope.toList_text, List.append_assoc, leadOf_append hall hbehind.1, Stock.lead,
    if_neg fun h => hthis (String.toList_inj.mp h), if_neg (by simp [hroot])]
  exact hbehind.2

omit hthis in
/-- Behind `typeof` comes a blank and a name. -/
theorem leadOf_typeof (rest : List Char) :
    leadOf ("typeof ".toList ++ (scope.text.toList ++ rest)) = .kind := by
  obtain ⟨first, others, hscope, hfirst⟩ := exists_head_scope hname
  have hword : ∀ c ∈ "typeof".toList, isNameChar c = true := List.all_eq_true.mp rfl
  have hsplit : "typeof ".toList ++ (scope.text.toList ++ rest) =
      "typeof".toList ++ (' ' :: first :: (others ++ rest)) := by simp [hscope]
  rw [hsplit, leadOf_append hword (by simp [isNameChar_eq_false]), Stock.lead, if_neg (by simp),
    if_neg (by simp)]
  exact if_pos hfirst

/-- The source of a condition tells how it begins. -/
theorem leadOf_source (c : Condition) : leadOf (c.source scope.text).toList = c.lead := by
  cases c with
  | compares comparison expected =>
      simp only [source, String.toList_append, List.append_assoc]
      refine leadOf_scope hname hthis ?_
      cases comparison <;> simp [Follows, leadBehind, Comparison.symbol, isNameChar_eq_false]
  | begins start =>
      simp only [source, String.toList_append, List.append_assoc]
      exact leadOf_scope hname hthis (by simp [Follows, leadBehind, isNameChar_eq_false])
  | ends ending =>
      simp only [source, String.toList_append, List.append_assoc]
      exact leadOf_scope hname hthis (by simp [Follows, leadBehind, isNameChar_eq_false])
  | contains needle =>
      simp only [source, String.toList_append, List.append_assoc]
      exact leadOf_scope hname hthis (by simp [Follows, leadBehind, isNameChar_eq_false])
  | hasKind name =>
      simp only [source, String.toList_append, List.append_assoc]
      exact leadOf_typeof hname _
  | hasType name =>
      simp only [source, String.toList_append, List.append_assoc]
      exact leadOf_typeof hname _
  | isArray => exact leadOf_tagSource _ _
  | isNull => exact leadOf_tagSource _ _
  | isTruthy => simp [source, leadOf, Stock.lead, isNameChar_eq_false, lead]
  | fits p => simp [source, leadOf, Stock.lead, isNameChar_eq_false, lead]
  | looksUp key =>
      have hword : ∀ c ∈ "this".toList, isNameChar c = true := List.all_eq_true.mp rfl
      have hsplit : (source scope.text (.looksUp key)).toList =
          "this".toList ++ '.' :: key.toList := by simp [source]
      rw [hsplit, leadOf_append hword (by simp [isNameChar_eq_false])]
      exact if_pos rfl

omit hname hthis

/-! Conditions whose sources begin with the scope are told apart by what follows it. -/

variable {d : Condition} (hlead : Lead.scope = d.lead)

include hlead

theorem compares_eq {comparison : Comparison} {expected : Json}
    (h : source scope.text (.compares comparison expected) = d.source scope.text) :
    .compares comparison expected = d := by
  have hchars := congrArg String.toList h
  cases d with
  | compares comparison' expected' =>
      simp only [source, String.toList_append, List.append_assoc,
        List.append_cancel_left_eq] at hchars
      obtain ⟨rfl, htext⟩ := Comparison.symbol_append_inj hchars
      rw [Json.text_injective htext]
  | begins start => simp [source] at hchars
  | ends ending => simp [source] at hchars
  | contains needle => simp [source] at hchars
  | _ => exact nomatch hlead

theorem begins_eq {start : String}
    (h : source scope.text (.begins start) = d.source scope.text) : .begins start = d := by
  have hchars := congrArg String.toList h
  cases d with
  | begins start' =>
      simp only [source, String.append_right_inj, String.append_left_inj] at h
      rw [Json.quote_injective h]
  | contains needle =>
      simp only [source, String.toList_append, List.append_assoc,
        List.append_cancel_left_eq] at hchars
      exact absurd (Json.quote_append_inj hchars).2 (by decide)
  | compares comparison expected => simp [source] at hchars
  | ends ending => simp [source] at hchars
  | _ => exact nomatch hlead

theorem contains_eq {needle : String}
    (h : source scope.text (.contains needle) = d.source scope.text) : .contains needle = d := by
  have hchars := congrArg String.toList h
  cases d with
  | contains needle' =>
      simp only [source, String.append_right_inj, String.append_left_inj] at h
      rw [Json.quote_injective h]
  | begins start => exact (begins_eq rfl h.symm).symm
  | compares comparison expected => simp [source] at hchars
  | ends ending => simp [source] at hchars
  | _ => exact nomatch hlead

theorem ends_eq {ending : String}
    (h : source scope.text (.ends ending) = d.source scope.text) : .ends ending = d := by
  have hchars := congrArg String.toList h
  cases d with
  | ends ending' =>
      simp only [source, String.toList_append, List.append_assoc,
        List.append_cancel_left_eq] at hchars
      rw [count_append_inj hchars]
  | compares comparison expected => simp [source] at hchars
  | begins start => simp [source] at hchars
  | contains needle => simp [source] at hchars
  | _ => exact nomatch hlead

omit hlead

include hname hthis

/-- At a scope the source of a condition determines the condition. -/
theorem source_injective : Function.Injective (source scope.text) := by
  intro c d h
  have hlead : c.lead = d.lead := by
    rw [← leadOf_source hname hthis c, ← leadOf_source hname hthis d, h]
  have hchars := congrArg String.toList h
  cases c with
  | compares comparison expected => exact compares_eq hlead h
  | begins start => exact begins_eq hlead h
  | ends ending => exact ends_eq hlead h
  | contains needle => exact contains_eq hlead h
  | hasKind name =>
      cases d with
      | hasKind name' => rw [Json.quote_injective ((String.append_right_inj _).mp h)]
      | hasType name' => simp [source] at hchars
      | _ => exact nomatch hlead
  | hasType name =>
      cases d with
      | hasKind name' => simp [source] at hchars
      | hasType name' => rw [Json.quote_injective ((String.append_right_inj _).mp h)]
      | _ => exact nomatch hlead
  | isArray =>
      cases d with
      | isArray => rfl
      | isNull => simp [source, toList_tagSource] at hchars
      | _ => exact nomatch hlead
  | isNull =>
      cases d with
      | isArray => simp [source, toList_tagSource] at hchars
      | isNull => rfl
      | _ => exact nomatch hlead
  | isTruthy =>
      cases d with
      | isTruthy => rfl
      | _ => exact nomatch hlead
  | fits p =>
      cases d with
      | fits p' =>
          simp only [source, String.append_right_inj, String.append_left_inj] at h
          rw [Pattern.eq_of_source_eq h]
      | _ => exact nomatch hlead
  | looksUp key =>
      cases d with
      | looksUp key' => rw [(String.append_right_inj _).mp h]
      | _ => exact nomatch hlead

/-- A scope called `this` would be taken for the context. -/
example : source "this" (.looksUp "indexOf(\"a\") === 0") = source "this" (.begins "a") := by
  decide

end Condition

/-- Tests of conditions below a name other than `this` are tame. -/
theorem tame_made {name : String} (hname : isIdentifier name = true) (hthis : name ≠ "this") :
    Test.Tame fun t => ∃ path, Made ⟨name, path⟩ t where
  readOnly := by
    rintro t ⟨path, ht⟩
    exact ht.readOnly
  coherent := by
    rintro s t ⟨path, hs, c, hsource, hcheck⟩ ⟨path', ht, d, hsource', hcheck'⟩ hscope heq value
      context
    rw [← ht, ← hscope, hs] at hsource'
    rw [hsource, hsource'] at heq
    have hcondition : c = d := Condition.source_injective hname hthis heq
    rw [hcheck, hcheck', hcondition]

/-- The standard entry name is such a name. -/
theorem tame_entry : Test.Tame fun t => ∃ path, Made ⟨"entry", path⟩ t :=
  tame_made (by decide) (by decide)

end Stock

/-! ## Dictionaries -/

namespace Dictionary

/-- Stock operators other than `counter`, whatever their names, make tests that leave
the context alone, and two of them with the same scope and source agree, if the entry
name is valid and is not that of the context. -/
theorem tame_of_stock {d : Dictionary}
    (hstock : ∀ name g, d.get? name = some g → g ∈ Stock.readOnly) {limit : Nat}
    {entryName : String} (hname : isIdentifier entryName = true) (hthis : entryName ≠ "this") :
    Test.Tame (d.MakesUnder limit entryName) :=
  (Stock.tame_made hname hthis).mono fun _ => made_of_makesUnder hstock

end Dictionary

namespace Stock

/-- All stock operators but `counter`, two of them under each other's names. -/
def swapped : Dictionary :=
  .ofList
    (List.zip
      ["equals", "greaterThan", "lessThan", "is", "beginsWith", "endsWith", "isSet", "typeOf",
        "stringContains", "show", "matches", "var"]
      readOnly)

theorem mem_readOnly_of_get?_swapped {name : String} {g : Generator}
    (h : swapped.get? name = some g) : g ∈ readOnly := by
  have hmem : (name, g) ∈ List.zip
      ["equals", "greaterThan", "lessThan", "is", "beginsWith", "endsWith", "isSet", "typeOf",
        "stringContains", "show", "matches", "var"] readOnly :=
    OrderedMap.mem_entries_of_get? h
  exact (List.of_mem_zip hmem).2

end Stock

theorem Dictionary.tame_of_stock_swapped :
    (∀ name g, Stock.swapped.get? name = some g → g ∈ Stock.readOnly) ∧
    isIdentifier "entry" = true ∧ "entry" ≠ "this" ∧
    (∃ t, Stock.swapped.MakesUnder 32 "entry" t) ∧
    Test.Tame (Stock.swapped.MakesUnder 32 "entry") := by
  have hstock : ∀ name g, Stock.swapped.get? name = some g → g ∈ Stock.readOnly :=
    fun _ _ => Stock.mem_readOnly_of_get?_swapped
  refine ⟨hstock, by decide, by decide, ?_, tame_of_stock hstock (by decide) (by decide)⟩
  exact ⟨_, "equals", .scalar (.bool true), none, [], _, rfl, List.mem_singleton_self _⟩

/-- The swapped operators are tame whatever the depth limit is. -/
theorem Stock.tame_swapped (limit : Nat) : Test.Tame (swapped.MakesUnder limit "entry") :=
  tame_entry.mono fun _ => Dictionary.made_of_makesUnder fun _ _ => mem_readOnly_of_get?_swapped

namespace Compiler

/-- A compiler for the swapped operators with standard options. -/
def swapped : Compiler := ⟨Stock.swapped, .standard, fault?_standard⟩

/-- Two compared fields behind the same guards, as an alternative to a negation of one
of them, next to a third field and a variable. -/
def repeatedComparisons : Query := .ofJson (.object
  [("a", .array
    [.object [("x", .object [("equals", .string "u")]),
        ("y", .object [("beginsWith", .string "v"), ("lessThan", .string "w")])],
     .object [("!not", .object [("x", .object [("equals", .string "u")])])]]),
   ("b", .object [("isSet", .bool true)]), ("var", .string "k")])

end Compiler

end Criteria
