import Criteria.Json.Parser
import Criteria.Proofs.Json.Number

/-!
# Texts of values

The compact text of a value determines the value, also where more text follows: the
first character tells the kind of the value, a string ends at its closing quote, a
number where a comma or a bracket stands, and a list or an object at its bracket.

* `Json.quote_append_inj`: a quoted string and what follows it.
* `Json.determines`: a value's text and what follows it.
* `Json.text_injective`: the text of a value determines the value.
-/

namespace Criteria.Json

/-! ## Strings -/

/-- The code of a control character is read back from its two last digits. -/
theorem hex4?_hexDigit (n : Fin 32) :
    hex4? '0' '0' (hexDigit (n / 16)) (hexDigit (n % 16)) = some n.val := by
  revert n
  decide

/-- A character is read back from what stands for it in a string. -/
theorem stringChar?_escapeChar (c : Char) (rest : List Char) :
    stringChar? (escapeChar c ++ rest) = some (c, rest) := by
  rw [escapeChar]
  split_ifs with hquote hslash hline hreturn htab hback hfeed hcontrol
  · subst hquote; rfl
  · subst hslash; rfl
  · subst hline; rfl
  · subst hreturn; rfl
  · subst htab; rfl
  · obtain rfl : c = Char.ofNat 8 := by rw [← hback, Char.ofNat_toNat]
    rfl
  · obtain rfl : c = Char.ofNat 12 := by rw [← hfeed, Char.ofNat_toNat]
    rfl
  · have hunit : hex4? '0' '0' (hexDigit (c.toNat / 16)) (hexDigit (c.toNat % 16)) =
        some c.toNat := hex4?_hexDigit ⟨c.toNat, hcontrol⟩
    have hplain : plainUnit? c.toNat = some c := by
      rw [plainUnit?, if_neg (by omega), Char.ofNat_toNat]
    simp [stringChar?, hunit, hplain]
  · simp [stringChar?, hquote, hslash, hcontrol]

/-- A string ends at the first quote that is not escaped. -/
theorem escaped_append_inj {s t xs ys : List Char}
    (h : s.flatMap escapeChar ++ '"' :: xs = t.flatMap escapeChar ++ '"' :: ys) :
    s = t ∧ xs = ys := by
  have hend : ∀ rest, stringChar? ('"' :: rest) = none := fun _ => rfl
  induction s generalizing t with
  | nil =>
      cases t with
      | nil => exact ⟨rfl, (List.cons.inj h).2⟩
      | cons d t =>
          have hread := congrArg stringChar? h
          rw [List.flatMap_nil, List.nil_append, hend, List.flatMap_cons, List.append_assoc,
            stringChar?_escapeChar] at hread
          exact nomatch hread
  | cons c s ih =>
      cases t with
      | nil =>
          have hread := congrArg stringChar? h
          rw [List.flatMap_nil, List.nil_append, hend, List.flatMap_cons, List.append_assoc,
            stringChar?_escapeChar] at hread
          exact nomatch hread
      | cons d t =>
          have hread := congrArg stringChar? h
          rw [List.flatMap_cons, List.flatMap_cons, List.append_assoc, List.append_assoc,
            stringChar?_escapeChar, stringChar?_escapeChar] at hread
          obtain ⟨rfl, hrest⟩ := Prod.mk.inj (Option.some.inj hread)
          obtain ⟨rfl, hafter⟩ := ih hrest
          exact ⟨rfl, hafter⟩

theorem toList_quote (s : String) :
    (quote s).toList = '"' :: (s.toList.flatMap escapeChar ++ ['"']) := by
  simp [quote]

/-- A quoted string determines the string, and what follows it. -/
theorem quote_append_inj {s t : String} {xs ys : List Char}
    (h : (quote s).toList ++ xs = (quote t).toList ++ ys) : s = t ∧ xs = ys := by
  rw [toList_quote, toList_quote, List.cons_append, List.cons_append, List.append_assoc,
    List.append_assoc] at h
  obtain ⟨hchars, hrest⟩ := escaped_append_inj (List.cons.inj h).2
  exact ⟨String.toList_inj.mp hchars, hrest⟩

theorem quote_injective : Function.Injective quote := by
  intro s t h
  have hchars : (quote s).toList ++ [] = (quote t).toList ++ [] := by rw [h]
  exact (quote_append_inj hchars).1

/-! ## Numbers -/

/-- Where a run of characters of a kind ends. -/
theorem span_append {p : Char → Bool} {s rest : List Char} (hs : ∀ c ∈ s, p c = true)
    (hrest : ∀ c ∈ rest.head?, p c = false) :
    (s ++ rest).takeWhile p = s ∧ (s ++ rest).dropWhile p = rest := by
  rw [List.takeWhile_append_of_pos hs, List.dropWhile_append_of_pos hs]
  cases rest with
  | nil => exact ⟨List.append_nil s, rfl⟩
  | cons c rest =>
      have hc : ¬ p c = true := by simp [hrest c rfl]
      rw [List.takeWhile_cons_of_neg hc, List.dropWhile_cons_of_neg hc, List.append_nil]
      exact ⟨rfl, rfl⟩

/-- Runs of characters of a kind that agree with what follows them are the same. -/
theorem span_append_inj {p : Char → Bool} {s t xs ys : List Char} (hs : ∀ c ∈ s, p c = true)
    (ht : ∀ c ∈ t, p c = true) (hxs : ∀ c ∈ xs.head?, p c = false)
    (hys : ∀ c ∈ ys.head?, p c = false) (h : s ++ xs = t ++ ys) : s = t ∧ xs = ys := by
  obtain ⟨htake, hdrop⟩ := span_append hs hxs
  obtain ⟨htake', hdrop'⟩ := span_append ht hys
  rw [h] at htake hdrop
  exact ⟨htake.symm.trans htake', hdrop.symm.trans hdrop'⟩

/-! ## Lists of texts -/

/-- What may follow a value: nothing, a comma or a bracket. -/
def Closes (rest : List Char) : Prop := ∀ c ∈ rest.head?, c ∈ [',', ']', '\x7d']

theorem closes_nil : Closes [] := fun _ h => nomatch h

theorem closes_cons {c : Char} (h : c ∈ [',', ']', '\x7d']) (rest : List Char) :
    Closes (c :: rest) := by
  rintro d ⟨⟩
  exact h

theorem Closes.isNumeral {rest : List Char} (h : Closes rest) :
    ∀ c ∈ rest.head?, Numeral.isNumeral c = false := by
  have hall : [',', ']', '\x7d'].all (!Numeral.isNumeral ·) = true := by decide
  exact fun c hc => by simpa using List.all_eq_true.mp hall c (h c hc)

section Separated

variable {α : Type} {text : α → List Char}

/-- The text of a value determines the value, and what follows it. -/
def Determines (text : α → List Char) (x : α) : Prop :=
  ∀ y xs ys, Closes xs → Closes ys → text x ++ xs = text y ++ ys → x = y ∧ xs = ys

/-- The texts of values with commas between them. -/
def separated (text : α → List Char) : List α → List Char
  | [] => []
  | x :: rest => text x ++ rest.flatMap fun y => ',' :: text y

variable {close : Char} (hclose : close ∈ [']', '\x7d']) {items others : List α}
  (hdet : ∀ x ∈ items, Determines text x) {xs ys : List Char}

include hclose

theorem closes_later (rest : List α) (zs : List Char) :
    Closes ((rest.flatMap fun y => ',' :: text y) ++ close :: zs) := by
  cases rest with
  | nil => exact closes_cons (List.mem_cons_of_mem _ hclose) _
  | cons y rest => exact closes_cons List.mem_cons_self _

include hdet

/-- Texts with a comma in front of each end at the closing bracket. -/
theorem later_append_inj
    (h : (items.flatMap fun y => ',' :: text y) ++ close :: xs =
      (others.flatMap fun y => ',' :: text y) ++ close :: ys) :
    items = others ∧ xs = ys := by
  have hcomma : close ≠ ',' := by
    rintro rfl
    exact absurd hclose (by decide)
  induction items generalizing others with
  | nil =>
      cases others with
      | nil => exact ⟨rfl, (List.cons.inj h).2⟩
      | cons y others => exact absurd (List.cons.inj h).1 hcomma
  | cons x items ih =>
      obtain ⟨hx, hitems⟩ := List.forall_mem_cons.mp hdet
      cases others with
      | nil => exact absurd (List.cons.inj h).1.symm hcomma
      | cons y others =>
          rw [List.flatMap_cons, List.flatMap_cons, List.append_assoc, List.append_assoc,
            List.cons_append, List.cons_append] at h
          obtain ⟨rfl, hlater⟩ :=
            hx y _ _ (closes_later hclose _ _) (closes_later hclose _ _) (List.cons.inj h).2
          obtain ⟨rfl, hafter⟩ := ih hitems hlater
          exact ⟨rfl, hafter⟩

/-- Texts with commas between them end at the closing bracket, if no text begins with
it. -/
theorem separated_append_inj (hne : ∀ x zs ws, text x ++ zs ≠ close :: ws)
    (h : separated text items ++ close :: xs = separated text others ++ close :: ys) :
    items = others ∧ xs = ys := by
  cases items with
  | nil =>
      cases others with
      | nil => exact ⟨rfl, (List.cons.inj h).2⟩
      | cons y others =>
          rw [separated, separated, List.append_assoc] at h
          exact absurd h.symm (hne y _ _)
  | cons x items =>
      obtain ⟨hx, hitems⟩ := List.forall_mem_cons.mp hdet
      cases others with
      | nil =>
          rw [separated, separated, List.append_assoc] at h
          exact absurd h (hne x _ _)
      | cons y others =>
          rw [separated, separated, List.append_assoc, List.append_assoc] at h
          obtain ⟨rfl, hlater⟩ :=
            hx y _ _ (closes_later hclose _ _) (closes_later hclose _ _) h
          obtain ⟨rfl, hafter⟩ := later_append_inj hclose hitems hlater
          exact ⟨rfl, hafter⟩

end Separated

/-! ## Values -/

/-- Structural induction, with the hypothesis for every item of a list and every member
of an object. -/
@[elab_as_elim, induction_eliminator]
theorem induct {motive : Json → Prop} (null : motive .null) (bool : ∀ b, motive (.bool b))
    (number : ∀ n, motive (.number n)) (string : ∀ s, motive (.string s))
    (array : ∀ items, (∀ x ∈ items, motive x) → motive (.array items))
    (object : ∀ members, (∀ m ∈ members, motive m.2) → motive (.object members)) (x : Json) :
    motive x := by
  refine @Json.rec motive (fun items => ∀ x ∈ items, motive x)
    (fun members => ∀ m ∈ members, motive m.2) (fun m => motive m.2) null bool number string
    array object ?_ ?_ ?_ ?_ (fun _ _ h => h) x
  · exact fun x h => absurd h List.not_mem_nil
  · exact fun _ _ hfirst hrest => List.forall_mem_cons.mpr ⟨hfirst, hrest⟩
  · exact fun m h => absurd h List.not_mem_nil
  · exact fun _ _ hfirst hrest => List.forall_mem_cons.mpr ⟨hfirst, hrest⟩

/-- The characters of a value's text. -/
def chars (x : Json) : List Char := x.text.toList

/-- The characters of a member's text. -/
def memberChars (m : String × Json) : List Char := (quote m.1).toList ++ ':' :: chars m.2

theorem toList_textItems (items : List Json) :
    (textItems items).toList = separated chars items := by
  induction items with
  | nil => rfl
  | cons x items ih =>
      cases items with
      | nil => exact (List.append_nil _).symm
      | cons y items =>
          rw [textItems, String.toList_append, String.toList_append, ih]
          simp [separated, chars]

theorem toList_textMembers (members : List (String × Json)) :
    (textMembers members).toList = separated memberChars members := by
  induction members with
  | nil => rfl
  | cons m members ih =>
      cases members with
      | nil => simp [textMembers, separated, memberChars, chars]
      | cons n members =>
          rw [textMembers, String.toList_append, ih]
          simp [separated, memberChars, chars]

theorem chars_array (items : List Json) :
    chars (.array items) = '[' :: (separated chars items ++ [']']) := by
  simp [chars, text, toList_textItems]

theorem chars_object (members : List (String × Json)) :
    chars (.object members) = '\x7b' :: (separated memberChars members ++ ['\x7d']) := by
  simp [chars, text, toList_textMembers]

theorem number_append_inj {m n : Number} {xs ys : List Char} (hxs : Closes xs) (hys : Closes ys)
    (h : m.text.toList ++ xs = n.text.toList ++ ys) : m = n ∧ xs = ys := by
  obtain ⟨htext, hrest⟩ :=
    span_append_inj m.isNumeral_text n.isNumeral_text hxs.isNumeral hys.isNumeral h
  exact ⟨Number.text_injective (String.toList_inj.mp htext), hrest⟩

/-- The kinds of values that the first character tells apart. -/
inductive Kind where
  | null
  | bool
  | number
  | string
  | array
  | object

/-- The kind of a value. -/
def kind : Json → Kind
  | .null => .null
  | .bool _ => .bool
  | .number _ => .number
  | .string _ => .string
  | .array _ => .array
  | .object _ => .object

/-- The kind of the values that begin with a character, if there are any. -/
def kindOf? (c : Char) : Option Kind :=
  if c = 'n' then some .null
  else if c = 't' ∨ c = 'f' then some .bool
  else if c = '-' ∨ c.isDigit = true then some .number
  else if c = '"' then some .string
  else if c = '[' then some .array
  else if c = '\x7b' then some .object
  else none

theorem kindOf?_of_isDigit {c : Char} (h : c.isDigit = true) : kindOf? c = some .number := by
  have hplain : ∀ d : Char, d.isDigit = false → c ≠ d := by
    rintro d hd rfl
    exact nomatch h.symm.trans hd
  rw [kindOf?, if_neg (hplain 'n' rfl), if_neg (not_or.mpr ⟨hplain 't' rfl, hplain 'f' rfl⟩),
    if_pos (.inr h)]

/-- The first character of a value's text tells its kind. -/
theorem exists_head_chars (x : Json) :
    ∃ c rest, chars x = c :: rest ∧ kindOf? c = some x.kind := by
  cases x with
  | null => exact ⟨'n', _, rfl, rfl⟩
  | bool b =>
      cases b with
      | true => exact ⟨'t', _, rfl, rfl⟩
      | false => exact ⟨'f', _, rfl, rfl⟩
  | number n =>
      obtain ⟨⟨first, rest, hbody, hfirst⟩, -⟩ := n.unsigned_unsigned
      change ∃ c rest, n.text.toList = c :: rest ∧ _
      rw [n.toList_text, hbody]
      cases n.isNegative with
      | true => exact ⟨'-', _, rfl, rfl⟩
      | false => exact ⟨first, rest, rfl, kindOf?_of_isDigit hfirst⟩
  | string s => exact ⟨'"', _, toList_quote s, rfl⟩
  | array items => exact ⟨'[', _, chars_array items, rfl⟩
  | object members => exact ⟨'\x7b', _, chars_object members, rfl⟩

/-- Texts that agree are of values of the same kind, whatever follows. -/
theorem kind_eq {x y : Json} {xs ys : List Char}
    (h : chars x ++ xs = chars y ++ ys) : x.kind = y.kind := by
  obtain ⟨c, rest, hc, hkind⟩ := exists_head_chars x
  obtain ⟨d, rest', hd, hkind'⟩ := exists_head_chars y
  rw [hc, hd] at h
  obtain ⟨rfl, -⟩ := List.cons.inj h
  exact Option.some.inj (hkind.symm.trans hkind')

/-- No value begins with a closing bracket. -/
theorem ne_of_kindOf? {c : Char} (hc : kindOf? c = none) (x : Json) (xs ys : List Char) :
    chars x ++ xs ≠ c :: ys := by
  intro h
  obtain ⟨d, rest, hd, hkind⟩ := exists_head_chars x
  rw [hd] at h
  obtain ⟨rfl, -⟩ := List.cons.inj h
  exact nomatch hkind.symm.trans hc

theorem determines_member {m : String × Json} (h : Determines chars m.2) :
    Determines memberChars m := by
  intro o xs ys hxs hys heq
  rw [memberChars, memberChars, List.append_assoc, List.append_assoc] at heq
  obtain ⟨hkey, hvalue⟩ := quote_append_inj heq
  obtain ⟨hsame, hafter⟩ := h o.2 xs ys hxs hys (List.cons.inj hvalue).2
  exact ⟨Prod.ext hkey hsame, hafter⟩

theorem memberChars_ne (m : String × Json) (zs ws : List Char) :
    memberChars m ++ zs ≠ '\x7d' :: ws := by
  rw [memberChars, toList_quote]
  exact fun h => absurd (List.cons.inj h).1 (by decide)

theorem determines (x : Json) : Determines chars x := by
  induction x with
  | null =>
      intro y xs ys _ _ h
      cases y with
      | null => exact ⟨rfl, List.append_cancel_left h⟩
      | _ => exact nomatch kind_eq h
  | bool a =>
      intro y xs ys _ _ h
      cases y with
      | bool b =>
          cases a <;> cases b
          · exact ⟨rfl, List.append_cancel_left h⟩
          · exact absurd (List.cons.inj h).1 (by decide)
          · exact absurd (List.cons.inj h).1 (by decide)
          · exact ⟨rfl, List.append_cancel_left h⟩
      | _ => exact nomatch kind_eq h
  | number m =>
      intro y xs ys hxs hys h
      cases y with
      | number n =>
          obtain ⟨rfl, hafter⟩ := number_append_inj hxs hys h
          exact ⟨rfl, hafter⟩
      | _ => exact nomatch kind_eq h
  | string s =>
      intro y xs ys _ _ h
      cases y with
      | string t =>
          obtain ⟨rfl, hafter⟩ := quote_append_inj h
          exact ⟨rfl, hafter⟩
      | _ => exact nomatch kind_eq h
  | array items ih =>
      intro y xs ys _ _ h
      cases y with
      | array others =>
          rw [chars_array, chars_array, List.cons_append, List.cons_append, List.append_assoc,
            List.append_assoc] at h
          obtain ⟨rfl, hafter⟩ := separated_append_inj (by decide) ih (ne_of_kindOf? rfl)
            (List.cons.inj h).2
          exact ⟨rfl, hafter⟩
      | _ => exact nomatch kind_eq h
  | object members ih =>
      intro y xs ys _ _ h
      cases y with
      | object others =>
          rw [chars_object, chars_object, List.cons_append, List.cons_append, List.append_assoc,
            List.append_assoc] at h
          obtain ⟨rfl, hafter⟩ := separated_append_inj (by decide)
            (fun m hm => determines_member (ih m hm)) memberChars_ne (List.cons.inj h).2
          exact ⟨rfl, hafter⟩
      | _ => exact nomatch kind_eq h

/-- The text of a value determines the value. -/
theorem text_injective : Function.Injective text := fun x y h =>
  (determines x y [] [] closes_nil closes_nil (congrArg (·.toList ++ []) h)).1

end Criteria.Json
