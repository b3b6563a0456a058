import Criteria.Pattern.Regular

/-!
# Matching

A text of `n` characters has `n + 1` places.  A set of places is a list of marks,
one per place; a regular expression moves a set of places to the set of places
where a match that starts in the first set can end.  All starts are followed at
once and no path is tried twice, so matching never blows up.
-/

namespace Criteria.Pattern

/-- The characters before and after a place. -/
structure Place where
  /-- The character before, unless the text starts here. -/
  before : Option Char
  /-- The character after, unless the text ends here. -/
  after : Option Char

namespace Place

/-- Whether the character before is in the set. -/
def beforeIn (p : Place) (set : CharSet) : Bool := p.before.any set

/-- Whether the character after is in the set. -/
def afterIn (p : Place) (set : CharSet) : Bool := p.after.any set

/-- The places of a text, the first after the given character. -/
def ofText (before : Option Char) : List Char → List Place
  | [] => [⟨before, none⟩]
  | c :: rest => ⟨before, some c⟩ :: ofText (some c) rest

/-- Whether a condition holds at the place. -/
def holds (p : Place) : Look → Bool
  | .textStart => p.before.isNone
  | .textEnd => p.after.isNone
  | .lineStart false => p.before.isNone || p.before == some '\n'
  | .lineEnd false => p.after.isNone || p.after == some '\n'
  | .lineStart true =>
    p.before.isNone || p.before == some '\n' || (p.before == some '\r' && p.after != some '\n')
  | .lineEnd true =>
    p.after.isNone || p.after == some '\r' || (p.after == some '\n' && p.before != some '\r')
  | .boundary isWord negated => (p.beforeIn isWord != p.afterIn isWord) != negated
  | .wordStart isWord => !p.beforeIn isWord && p.afterIn isWord
  | .wordEnd isWord => p.beforeIn isWord && !p.afterIn isWord
  | .wordStartHalf isWord => !p.beforeIn isWord
  | .wordEndHalf isWord => !p.afterIn isWord

end Place

/-- A set of places of a text, as one mark per place. -/
abbrev Marks := List Bool

namespace Marks

/-- The places in either set. -/
def union (m n : Marks) : Marks := List.zipWith (· || ·) m n

/-- The places reached by at most `rounds` moves; a round that changes nothing is
the last. -/
def spread (move : Marks → Marks) : Nat → Marks → Marks
  | 0, m => m
  | rounds + 1, m =>
    let next := m.union (move m)
    if next == m then m else spread move rounds next

/-- The places reached by exactly `times` moves; a move that changes nothing is
the last. -/
def repeated (move : Marks → Marks) : Nat → Marks → Marks
  | 0, m => m
  | times + 1, m =>
    let next := move m
    if next == m then m else repeated move times next

end Marks

namespace Regular

/-- The places where a match that starts in the set can end. -/
def ends (text : List Char) (places : List Place) : Regular → Marks → Marks
  | .empty, m => m
  | .char set, m => false :: List.zipWith (fun c mark => mark && set c) text m
  | .look l, m => List.zipWith (fun p mark => mark && p.holds l) places m
  | .seq r s, m => ends text places s (ends text places r m)
  | .alt r s, m => (ends text places r m).union (ends text places s m)
  | .repeated r least most, m =>
    let base := Marks.repeated (ends text places r) least m
    match most with
    | none => Marks.spread (ends text places r) (text.length + 1) base
    | some bound => Marks.spread (ends text places r) (bound - least) base

/-- Whether the expression matches somewhere in the text. -/
def isMatch (r : Regular) (text : String) : Bool :=
  let cs := text.toList
  let places := Place.ofText none cs
  (r.ends cs places (places.map fun _ => true)).any id

end Regular

end Criteria.Pattern
