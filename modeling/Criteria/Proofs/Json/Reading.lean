import Criteria.Proofs.Json.Equality
import Criteria.Proofs.Json.NumberReading

/-!
# Values are read back

The compact text of a value is read back as the value: a string up to its closing quote, a
number up to what closes it, the items of a list and the members of an object one after another
up to the closing bracket.  A reader that is given enough fuel never runs out of it, since every
item is shorter than the list that it stands in.

* `Json.stringTail?_quote`: a string is read back.
* `Json.ReadsBack`: a value is read back from its text, whatever closes it.
* `Json.readsBack`: all values without repeated keys are.
* `Json.parse?_text`: so the text of a value that is not nested too deep is read as the value.
-/

namespace Criteria.Json

/-! ## Strings -/

/-- A character that reads as one is read before the rest of the string. -/
theorem stringTail?_succ {cs rest done : List Char} {c : Char} (fuel : Nat)
    (h : stringChar? cs = some (c, rest)) :
    stringTail? (fuel + 1) done cs = stringTail? fuel (c :: done) rest := by
  rw [stringTail?, h]
  rintro rest rfl
  exact nomatch h

theorem escapeChar_ne_nil (c : Char) : escapeChar c ≠ [] := by
  rw [escapeChar]
  split_ifs <;> exact List.cons_ne_nil _ _

theorem length_le_flatMap_escapeChar (s : List Char) :
    s.length ≤ (s.flatMap escapeChar).length := by
  induction s with
  | nil => exact le_rfl
  | cons c s ih =>
      have hc : 0 < (escapeChar c).length := List.length_pos_iff.mpr (escapeChar_ne_nil c)
      rw [List.flatMap_cons, List.length_append, List.length_cons]
      omega

/-- A string is read back up to its closing quote. -/
theorem stringTail?_escaped {s done : List Char} {fuel : Nat} (h : s.length < fuel)
    (rest : List Char) :
    stringTail? fuel done (s.flatMap escapeChar ++ '"' :: rest) =
      some (String.ofList (done.reverse ++ s), rest) := by
  induction s generalizing fuel done with
  | nil =>
      obtain ⟨fuel, rfl⟩ := Nat.exists_eq_add_one.mpr h
      rw [List.append_nil]
      rfl
  | cons c s ih =>
      obtain ⟨fuel, rfl⟩ := Nat.exists_eq_add_one.mpr (Nat.zero_lt_of_lt h)
      rw [List.flatMap_cons, List.append_assoc, stringTail?_succ fuel (stringChar?_escapeChar c _),
        ih (Nat.lt_of_succ_lt_succ h), List.reverse_cons, List.append_assoc,
        List.singleton_append]

/-- A quoted string is read back after its opening quote. -/
theorem stringTail?_quote (s : String) (rest : List Char) :
    let cs := s.toList.flatMap escapeChar ++ '"' :: rest
    stringTail? (cs.length + 1) [] cs = some (s, rest) := by
  have hlength := length_le_flatMap_escapeChar s.toList
  intro cs
  have hfuel : s.toList.length < cs.length + 1 := by
    simp only [cs, List.length_append, List.length_cons]
    omega
  rw [stringTail?_escaped hfuel]
  simp

/-! ## Nesting -/

mutual

/-- How deep arrays and objects are nested in a value. -/
def nesting : Json → Nat
  | .array items => nestingOfItems items + 1
  | .object members => nestingOfMembers members + 1
  | _ => 0

/-- How deep arrays and objects are nested in items. -/
def nestingOfItems : List Json → Nat
  | [] => 0
  | x :: rest => max (nesting x) (nestingOfItems rest)

/-- How deep arrays and objects are nested in the values of members. -/
def nestingOfMembers : List (String × Json) → Nat
  | [] => 0
  | (_, x) :: rest => max (nesting x) (nestingOfMembers rest)

end

theorem nesting_array_le_iff {items : List Json} {depth : Nat} :
    nesting (.array items) ≤ depth + 1 ↔ ∀ x ∈ items, x.nesting ≤ depth := by
  rw [nesting, Nat.succ_le_succ_iff]
  induction items with
  | nil => simp [nestingOfItems]
  | cons x rest ih => rw [nestingOfItems, Nat.max_le, ih, List.forall_mem_cons]

theorem nesting_object_le_iff {members : List (String × Json)} {depth : Nat} :
    nesting (.object members) ≤ depth + 1 ↔ ∀ m ∈ members, m.2.nesting ≤ depth := by
  rw [nesting, Nat.succ_le_succ_iff]
  induction members with
  | nil => simp [nestingOfMembers]
  | cons m rest ih => rw [nestingOfMembers, Nat.max_le, ih, List.forall_mem_cons]

/-! ## Values -/

/-- Between a value and what is before it there are no blanks. -/
theorem skipBlanks_cons {c : Char} (h : isBlank c = false) (cs : List Char) :
    skipBlanks (c :: cs) = c :: cs := List.dropWhile_cons_of_neg (by simp [h])

theorem isBlank_of_kindOf? {c : Char} {k : Kind} (h : kindOf? c = some k) : isBlank c = false := by
  by_contra hblank
  simp only [isBlank, Bool.or_eq_true, decide_eq_true_eq, Bool.not_eq_false] at hblank
  rcases hblank with ((rfl | rfl) | rfl) | rfl <;> exact nomatch h

theorem skipBlanks_chars (v : Json) (rest : List Char) :
    skipBlanks (chars v ++ rest) = chars v ++ rest := by
  obtain ⟨c, cs, hv, hkind⟩ := exists_head_chars v
  rw [hv]
  exact skipBlanks_cons (isBlank_of_kindOf? hkind) _

theorem skipBlanks_memberChars (m : String × Json) (rest : List Char) :
    skipBlanks (memberChars m ++ rest) = memberChars m ++ rest := by
  rw [memberChars, toList_quote]
  exact skipBlanks_cons rfl _

/-- A number begins with no character that another kind of value begins with. -/
theorem ne_of_kindOf?_number {c d : Char} (hkind : kindOf? c = some .number)
    (hd : d ∈ ['[', '\x7b', '"', 't', 'f', 'n']) : c ≠ d := by
  rintro rfl
  simp only [List.mem_cons, List.not_mem_nil, or_false] at hd
  rcases hd with rfl | rfl | rfl | rfl | rfl | rfl <;> simp [kindOf?, Char.isDigit] at hkind

section Steps

variable (fuel depth : Nat) (cs : List Char)

theorem value?_quote :
    value? (fuel + 1) depth ('"' :: cs) =
      (stringTail? (cs.length + 1) [] cs).map fun p => (.string p.1, p.2) := rfl

variable {cs}

/-- Behind an opening bracket there are items unless it is closed at once. -/
theorem value?_array (h : ∀ rest, skipBlanks cs ≠ ']' :: rest) :
    value? (fuel + 1) (depth + 1) ('[' :: cs) = items? fuel depth [] cs := by
  rw [value?, skipBlanks_cons rfl]
  -- The alternative for an empty list is ruled out by `h`.
  simp

/-- Behind an opening brace there are members unless it is closed at once. -/
theorem value?_object (h : ∀ rest, skipBlanks cs ≠ '\x7d' :: rest) :
    value? (fuel + 1) (depth + 1) ('\x7b' :: cs) = members? fuel depth [] cs := by
  rw [value?, skipBlanks_cons rfl]
  simp

/-- Where no other kind of value begins, a number does. -/
theorem value?_number {c : Char} (hkind : kindOf? c = some .number) :
    value? (fuel + 1) depth (c :: cs) = (number? (c :: cs)).map fun p => (.number p.1, p.2) := by
  rw [value?, skipBlanks_cons (isBlank_of_kindOf? hkind)]
  split
  case h_7 => rfl
  all_goals
    rename_i h
    exact absurd (List.cons.inj h).1 (ne_of_kindOf?_number hkind (by simp))

end Steps

/-- A value is read back from its text, up to what closes it. -/
def ReadsBack (v : Json) : Prop :=
  ∀ fuel depth rest, (chars v).length ≤ fuel → v.nesting ≤ depth → Closes rest →
    value? fuel depth (chars v ++ rest) = some (v, rest)

theorem readsBack_null : ReadsBack .null := by
  intro fuel depth rest hfuel _ _
  obtain ⟨fuel, rfl⟩ := Nat.exists_eq_add_one.mpr (Nat.zero_lt_of_lt hfuel)
  rfl

theorem readsBack_bool (b : Bool) : ReadsBack (.bool b) := by
  intro fuel depth rest hfuel _ _
  have hpos : 0 < (chars (.bool b)).length := by cases b <;> decide
  obtain ⟨fuel, rfl⟩ := Nat.exists_eq_add_one.mpr (hpos.trans_le hfuel)
  cases b with
  | true => rfl
  | false => rfl

theorem readsBack_string (s : String) : ReadsBack (.string s) := by
  intro fuel depth rest hfuel _ _
  have hchars : chars (.string s) = '"' :: (s.toList.flatMap escapeChar ++ ['"']) := toList_quote s
  rw [hchars] at hfuel ⊢
  obtain ⟨fuel, rfl⟩ := Nat.exists_eq_add_one.mpr (Nat.zero_lt_of_lt hfuel)
  rw [List.cons_append, List.append_assoc, List.singleton_append, value?_quote, stringTail?_quote]
  rfl

theorem readsBack_number (n : Number) : ReadsBack (.number n) := by
  intro fuel depth rest hfuel _ hrest
  have hread : number? (chars (.number n) ++ rest) = some (n, rest) := number?_text n hrest
  obtain ⟨c, cs, hn, hkind⟩ := exists_head_chars (.number n)
  rw [hn] at hfuel hread ⊢
  obtain ⟨fuel, rfl⟩ := Nat.exists_eq_add_one.mpr (Nat.zero_lt_of_lt hfuel)
  rw [List.cons_append] at hread ⊢
  rw [value?_number _ _ hkind, hread]
  rfl

section Loops

variable {α : Type}

theorem separated_cons_cons (text : α → List Char) (x y : α) (items : List α) :
    separated text (x :: y :: items) = text x ++ ',' :: separated text (y :: items) := by
  simp [separated]

/-- A loop reads an item and then, behind a comma, the next one; behind the closing bracket it
is done. -/
def ReadsItem (loop : Nat → List α → Reader Json) (text : α → List Char) (close : Char)
    (finish : List α → Json) (x : α) : Prop :=
  ∀ fuel done rest, (text x).length ≤ fuel →
    loop (fuel + 1) done (text x ++ ',' :: rest) = loop fuel (x :: done) rest ∧
      loop (fuel + 1) done (text x ++ close :: rest) = some (finish (x :: done).reverse, rest)

/-- Items are read one after another up to the closing bracket. -/
theorem loop_separated {loop : Nat → List α → Reader Json} {text : α → List Char} {close : Char}
    {finish : List α → Json} {x : α} {items : List α} {fuel : Nat}
    (h : ∀ y ∈ x :: items, ReadsItem loop text close finish y)
    (hfuel : (separated text (x :: items)).length < fuel) (done : List α) (rest : List Char) :
    loop fuel done (separated text (x :: items) ++ close :: rest) =
      some (finish (done.reverse ++ x :: items), rest) := by
  induction items generalizing x done fuel with
  | nil =>
      obtain ⟨fuel, rfl⟩ := Nat.exists_eq_add_one.mpr (Nat.zero_lt_of_lt hfuel)
      have hlast : separated text [x] = text x := List.append_nil _
      rw [hlast] at hfuel ⊢
      rw [(h x List.mem_cons_self _ done rest (by omega)).2, List.reverse_cons]
  | cons y items ih =>
      obtain ⟨fuel, rfl⟩ := Nat.exists_eq_add_one.mpr (Nat.zero_lt_of_lt hfuel)
      rw [separated_cons_cons, List.length_append, List.length_cons] at hfuel
      rw [separated_cons_cons, List.append_assoc, List.cons_append,
        (h x List.mem_cons_self _ done _ (by omega)).1,
        ih (List.forall_mem_cons.mp h).2 (by omega), List.reverse_cons, List.append_assoc,
        List.singleton_append]

variable {depth : Nat}

theorem readsItem_items? {x : Json} (h : ReadsBack x) (hdepth : x.nesting ≤ depth) :
    ReadsItem (items? · depth) chars ']' .array x := by
  intro fuel done rest hfuel
  have hcomma := h fuel depth (',' :: rest) hfuel hdepth (closes_cons (by decide) _)
  have hclose := h fuel depth (']' :: rest) hfuel hdepth (closes_cons (by decide) _)
  constructor
  · change items? (fuel + 1) depth done _ = _
    rw [items?, hcomma]
    rfl
  · change items? (fuel + 1) depth done _ = _
    rw [items?, hclose]
    rfl

theorem memberChars_append (m : String × Json) (rest : List Char) :
    memberChars m ++ rest =
      '"' :: (m.1.toList.flatMap escapeChar ++ '"' :: ':' :: (chars m.2 ++ rest)) := by
  simp [memberChars, toList_quote]

theorem readsItem_members? {m : String × Json} (h : ReadsBack m.2) (hdepth : m.2.nesting ≤ depth) :
    ReadsItem (members? · depth) memberChars '\x7d' (fun ms => .object (Entries.ofList ms)) m := by
  intro fuel done rest hfuel
  have hvalue : (chars m.2).length ≤ fuel := by
    rw [memberChars, List.length_append, List.length_cons] at hfuel
    omega
  have hcolon : ∀ cs, skipBlanks (':' :: cs) = ':' :: cs := skipBlanks_cons rfl
  have hcomma := h fuel depth (',' :: rest) hvalue hdepth (closes_cons (by decide) _)
  have hclose := h fuel depth ('\x7d' :: rest) hvalue hdepth (closes_cons (by decide) _)
  constructor
  · change members? (fuel + 1) depth done _ = _
    rw [memberChars_append, members?, skipBlanks_cons rfl]
    simp only [stringTail?_quote, hcolon, hcomma]
    rfl
  · change members? (fuel + 1) depth done _ = _
    rw [memberChars_append, members?, skipBlanks_cons rfl]
    simp only [stringTail?_quote, hcolon, hclose]
    rfl

end Loops

theorem readsBack_array {items : List Json} (h : ∀ x ∈ items, ReadsBack x) :
    ReadsBack (.array items) := by
  intro fuel depth rest hfuel hdepth hrest
  rw [chars_array] at hfuel ⊢
  rw [List.length_cons, List.length_append, List.length_singleton] at hfuel
  obtain ⟨fuel, rfl⟩ := Nat.exists_eq_add_one.mpr (Nat.zero_lt_of_lt hfuel)
  obtain ⟨depth, rfl⟩ := Nat.exists_eq_add_one.mpr (Nat.zero_lt_of_lt hdepth)
  replace hfuel := Nat.le_of_succ_le_succ hfuel
  rw [nesting_array_le_iff] at hdepth
  rw [List.cons_append, List.append_assoc, List.singleton_append]
  cases items with
  | nil => rfl
  | cons x items =>
      have hopen : ∀ cs, skipBlanks (separated chars (x :: items) ++ ']' :: rest) ≠ ']' :: cs := by
        intro cs
        rw [separated, List.append_assoc, skipBlanks_chars]
        exact ne_of_kindOf? rfl _ _ _
      have hitems : ∀ y ∈ x :: items, ReadsItem (items? · depth) chars ']' .array y :=
        fun y hy => readsItem_items? (h y hy) (hdepth y hy)
      rw [value?_array fuel depth hopen]
      exact loop_separated hitems hfuel [] rest

theorem readsBack_object {members : List (String × Json)} (hkeys : (members.map Prod.fst).Nodup)
    (h : ∀ m ∈ members, ReadsBack m.2) : ReadsBack (.object members) := by
  intro fuel depth rest hfuel hdepth hrest
  rw [chars_object] at hfuel ⊢
  rw [List.length_cons, List.length_append, List.length_singleton] at hfuel
  obtain ⟨fuel, rfl⟩ := Nat.exists_eq_add_one.mpr (Nat.zero_lt_of_lt hfuel)
  obtain ⟨depth, rfl⟩ := Nat.exists_eq_add_one.mpr (Nat.zero_lt_of_lt hdepth)
  replace hfuel := Nat.le_of_succ_le_succ hfuel
  rw [nesting_object_le_iff] at hdepth
  rw [List.cons_append, List.append_assoc, List.singleton_append]
  cases members with
  | nil => rfl
  | cons m members =>
      have hopen : ∀ cs,
          skipBlanks (separated memberChars (m :: members) ++ '\x7d' :: rest) ≠ '\x7d' :: cs := by
        intro cs
        rw [separated, List.append_assoc, skipBlanks_memberChars]
        exact memberChars_ne _ _ _
      have hmembers : ∀ n ∈ m :: members, ReadsItem (members? · depth) memberChars '\x7d'
          (fun ms => .object (Entries.ofList ms)) n :=
        fun n hn => readsItem_members? (h n hn) (hdepth n hn)
      rw [value?_object fuel depth hopen]
      have hread := loop_separated hmembers hfuel [] rest
      rw [List.reverse_nil, List.nil_append, Entries.ofList_of_nodup hkeys] at hread
      exact hread

/-- Every value is read back, whatever closes it. -/
theorem readsBack {v : Json} (h : v.DistinctKeys) : ReadsBack v := by
  induction v with
  | null => exact readsBack_null
  | bool b => exact readsBack_bool b
  | number n => exact readsBack_number n
  | string s => exact readsBack_string s
  | array items ih =>
      exact readsBack_array fun x hx => ih x hx (distinctKeys_array_iff.mp h x hx)
  | object members ih =>
      obtain ⟨hkeys, hvalues⟩ := distinctKeys_object_iff.mp h
      exact readsBack_object hkeys fun m hm => ih m hm (hvalues m hm)

/-- A value is read back from its text if no key repeats in it and it is not nested too deep. -/
theorem parse?_text {v : Json} (hkeys : v.DistinctKeys) (hdepth : v.nesting ≤ maxNesting) :
    parse? v.text = some v := by
  have hread : value? (2 * (chars v).length + 4) maxNesting (chars v ++ []) = some (v, []) :=
    readsBack hkeys _ _ _ (by omega) hdepth closes_nil
  rw [List.append_nil, chars] at hread
  simp [parse?, hread, skipBlanks]

end Criteria.Json
