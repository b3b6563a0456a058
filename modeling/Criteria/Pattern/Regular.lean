import Criteria.Pattern.Property
import Criteria.Pattern.Tree
import Criteria.Text.CaseFold

/-!
# Regular expressions

The core that patterns are matched by: sets of characters, places, sequences,
alternatives and repetitions.  `Regular.ofTree?` applies the flags of a pattern,
which decide what letters, classes, dots and assertions mean from where they are
switched on to the end of their group.

Without the Unicode flag a pattern speaks of bytes.  As texts are always whole
characters, a class that admits bytes beyond ASCII is refused.
-/

namespace Criteria.Pattern

/-- Conditions on the two characters around a place. -/
inductive Look where
  | textStart
  | textEnd
  | lineStart (crlf : Bool)
  | lineEnd (crlf : Bool)
  | boundary (isWord : CharSet) (negated : Bool)
  | wordStart (isWord : CharSet)
  | wordEnd (isWord : CharSet)
  | wordStartHalf (isWord : CharSet)
  | wordEndHalf (isWord : CharSet)

/-- A regular expression over characters. -/
inductive Regular where
  /-- The empty text. -/
  | empty
  /-- One character of a set. -/
  | char (set : CharSet)
  /-- A condition on the place. -/
  | look (l : Look)
  /-- One after the other. -/
  | seq (first second : Regular)
  /-- One or the other. -/
  | alt (left right : Regular)
  /-- A number of repetitions within bounds. -/
  | repeated (inner : Regular) (least : Nat) (most : Option Nat)

namespace Regular

/-- The state of the flags that matter for matching. -/
structure Flags where
  /-- Letters match in either case. -/
  caseInsensitive : Bool := false
  /-- Line assertions hold at inner line ends. -/
  multiLine : Bool := false
  /-- The dot matches line ends. -/
  dotAll : Bool := false
  /-- Characters are more than ASCII. -/
  unicode : Bool := true
  /-- Carriage returns end lines too. -/
  crlf : Bool := false

/-- The flags after some changes. -/
def Flags.apply (flags : Flags) (changes : List FlagChange) : Flags :=
  changes.foldl (fun f change =>
    match change.flag with
    | .caseInsensitive => { f with caseInsensitive := change.on }
    | .multiLine => { f with multiLine := change.on }
    | .dotAll => { f with dotAll := change.on }
    | .unicode => { f with unicode := change.on }
    | .crlf => { f with crlf := change.on }
    | .swapGreed | .verbose => f) flags

/-- The other case of an ASCII letter. -/
def swapCase (c : Char) : Char := if c.isUpper then c.toLower else c.toUpper

/-- All characters that are in the set but for their case. -/
def closeCase (flags : Flags) (set : CharSet) : CharSet :=
  if !flags.caseInsensitive then set
  else if flags.unicode then fun c => (CaseFold.orbit c.toNat).any fun n => set (Char.ofNat n)
  else fun c => set c || set (swapCase c)

/-- The complement, if asked for. -/
def complementIf (negated : Bool) (set : CharSet) : CharSet :=
  if negated then fun c => !set c else set

/-- Whether a set keeps to ASCII among the single bytes. -/
def keepsToAscii (set : CharSet) : Bool :=
  (List.range 128).all fun n => !set (Char.ofNat (n + 128))

/-- A set under the flags: without the Unicode flag it has to keep to ASCII. -/
def guardBytes? (flags : Flags) (set : CharSet) : Option CharSet :=
  if flags.unicode then some set
  else if keepsToAscii set then some fun c => c.toNat < 128 && set c
  else none

/-- Word characters under the flags. -/
def wordSet (flags : Flags) : CharSet :=
  if flags.unicode then CharClass.isWordChar else asciiClass "word"

/-- A class with a one-letter escape, under the flags. -/
def letterSet (flags : Flags) : LetterClass → CharSet
  | .digit => if flags.unicode then CharClass.isDecimalDigit else asciiClass "digit"
  | .space => if flags.unicode then CharClass.isBlank else asciiClass "space"
  | .word => wordSet flags

/-- A literal in brackets: without the Unicode flag it has to be a byte. -/
def classLiteral? (flags : Flags) (l : Literal) : Option Char :=
  if flags.unicode || l.char.toNat < 128 || l.isByte then some l.char else none

/-- Two sets combined. -/
def combineSets (op : SetOp) (s t : CharSet) : CharSet := fun c =>
  match op with
  | .intersection => s c && t c
  | .difference => s c && !t c
  | .symmetricDifference => s c != t c

mutual

/-- The characters of a bracketed class. -/
def classSet? (flags : Flags) : ClassSet → Option CharSet
  | .literal l => (classLiteral? flags l).map fun a c => c == a
  | .range first last => do
    let a ← classLiteral? flags first
    let b ← classLiteral? flags last
    return fun c => a ≤ c && c ≤ b
  | .named name negated =>
    some (complementIf negated (closeCase flags (asciiClass name)))
  | .letter kind negated => some (complementIf negated (letterSet flags kind))
  | .property name negated => do
    if !flags.unicode then none
    return complementIf negated (closeCase flags (← Property.parse? name))
  | .bracketed negated set => do
    return complementIf negated (closeCase flags (← classSet? flags set))
  | .union items => unionSet? flags items
  | .binary op left right => do
    let s ← classSet? flags left
    let t ← classSet? flags right
    return combineSets op (closeCase flags s) (closeCase flags t)

/-- The characters of any of the classes. -/
def unionSet? (flags : Flags) : List ClassSet → Option CharSet
  | [] => some fun _ => false
  | item :: rest => do
    let s ← classSet? flags item
    let t ← unionSet? flags rest
    return fun c => s c || t c

end

/-- The dot under the flags: any character, or any but the line ends. -/
def dotSet (flags : Flags) : CharSet := fun c =>
  flags.dotAll || (c != '\n' && !(flags.crlf && c == '\r'))

/-- An assertion under the flags. -/
def lookOf (flags : Flags) : Assertion → Look
  | .startLine => if flags.multiLine then .lineStart flags.crlf else .textStart
  | .endLine => if flags.multiLine then .lineEnd flags.crlf else .textEnd
  | .startText => .textStart
  | .endText => .textEnd
  | .wordBoundary => .boundary (wordSet flags) false
  | .notWordBoundary => .boundary (wordSet flags) true
  | .wordStart => .wordStart (wordSet flags)
  | .wordEnd => .wordEnd (wordSet flags)
  | .wordStartHalf => .wordStartHalf (wordSet flags)
  | .wordEndHalf => .wordEndHalf (wordSet flags)

/-- An atom under the flags. -/
def ofAtom? (flags : Flags) : Atom → Option Regular
  | .literal l =>
    if !flags.unicode && l.isByte && 128 ≤ l.char.toNat then none
    else some (.char (closeCase flags fun c => c == l.char))
  | .dot => if flags.unicode then some (.char (dotSet flags)) else none
  | .assertion a => some (.look (lookOf flags a))
  | .letter kind negated =>
    (guardBytes? flags (complementIf negated (letterSet flags kind))).map .char
  | .property name negated => do
    if !flags.unicode then none
    return .char (complementIf negated (closeCase flags (← Property.parse? name)))

mutual

/-- A tree under the flags, with the flags it leaves switched on. -/
def ofTree (flags : Flags) : Tree → Option (Regular × Flags)
  | .empty => some (.empty, flags)
  | .flags changes => some (.empty, flags.apply changes)
  | .atom a => (ofAtom? flags a).map (·, flags)
  | .bracketed negated set => do
    let set ← classSet? flags set
    let set ← guardBytes? flags (complementIf negated (closeCase flags set))
    return (.char set, flags)
  | .repetition least most inner => do
    let (r, flags) ← ofTree flags inner
    return (.repeated r least most, flags)
  | .group changes inner => do
    let (r, _) ← ofTree (flags.apply changes) inner
    return (r, flags)
  | .alternation branches => ofBranches flags branches
  | .concat parts => ofParts flags parts

/-- Trees one after the other; each passes its flags on. -/
def ofParts (flags : Flags) : List Tree → Option (Regular × Flags)
  | [] => some (.empty, flags)
  | t :: rest => do
    let (r, flags) ← ofTree flags t
    let (s, flags) ← ofParts flags rest
    return (.seq r s, flags)

/-- Trees as alternatives; each passes its flags on to the next. -/
def ofBranches (flags : Flags) : List Tree → Option (Regular × Flags)
  | [] => some (.char fun _ => false, flags)
  | t :: rest => do
    let (r, flags) ← ofTree flags t
    let (s, flags) ← ofBranches flags rest
    return (.alt r s, flags)

end

/-- The regular expression of a pattern. -/
def ofTree? (t : Tree) : Option Regular := (ofTree {} t).map Prod.fst

end Regular

end Criteria.Pattern
