/-!
# Syntax trees of patterns

What a pattern's text says, before flags are applied: a tree of literals,
classes, assertions, repetitions, groups and alternatives.
-/

namespace Criteria.Pattern

/-- The flags a pattern can switch. -/
inductive Flag where
  | caseInsensitive
  | multiLine
  | dotAll
  | swapGreed
  | unicode
  | verbose
  | crlf
deriving DecidableEq, Repr

/-- One flag switched on or off. -/
structure FlagChange where
  /-- The flag. -/
  flag : Flag
  /-- Its new state. -/
  on : Bool
deriving DecidableEq, Repr

/-- The last change of a flag in a list of changes. -/
def FlagChange.find? (flag : Flag) (changes : List FlagChange) : Option Bool :=
  (changes.find? (·.flag == flag)).map (·.on)

/-- A literal character. -/
structure Literal where
  /-- The character. -/
  char : Char
  /-- Whether it was written as a byte, by two hexadecimal digits. -/
  isByte : Bool
deriving DecidableEq, Repr

/-- The classes with a one-letter escape. -/
inductive LetterClass where
  | digit
  | space
  | word
deriving DecidableEq, Repr

/-- Conditions on a place between two characters. -/
inductive Assertion where
  | startLine
  | endLine
  | startText
  | endText
  | wordBoundary
  | notWordBoundary
  | wordStart
  | wordEnd
  | wordStartHalf
  | wordEndHalf
deriving DecidableEq, Repr

/-- Operations on two sets of characters. -/
inductive SetOp where
  | intersection
  | difference
  | symmetricDifference
deriving DecidableEq, Repr

/-- A set of characters as written in brackets. -/
inductive ClassSet where
  | literal (l : Literal)
  | range (first last : Literal)
  | named (name : String) (negated : Bool)
  | letter (kind : LetterClass) (negated : Bool)
  | property (name : String) (negated : Bool)
  | bracketed (negated : Bool) (set : ClassSet)
  | union (items : List ClassSet)
  | binary (op : SetOp) (left right : ClassSet)

/-- What a single element of a pattern stands for. -/
inductive Atom where
  | literal (l : Literal)
  | dot
  | assertion (a : Assertion)
  | letter (kind : LetterClass) (negated : Bool)
  | property (name : String) (negated : Bool)

/-- A pattern as written. -/
inductive Tree where
  | empty
  | flags (changes : List FlagChange)
  | atom (a : Atom)
  | bracketed (negated : Bool) (set : ClassSet)
  | repetition (least : Nat) (most : Option Nat) (inner : Tree)
  | group (changes : List FlagChange) (inner : Tree)
  | alternation (branches : List Tree)
  | concat (parts : List Tree)
deriving Inhabited

namespace ClassSet

mutual

/-- How deep brackets, lists and operations are nested. -/
def nesting : ClassSet → Nat
  | .bracketed _ set => nesting set + 1
  | .union items => nestingOfAll items + 1
  | .binary _ left right => max (nesting left) (nesting right) + 1
  | _ => 0

/-- The deepest nesting among several sets. -/
def nestingOfAll : List ClassSet → Nat
  | [] => 0
  | s :: rest => max (nesting s) (nestingOfAll rest)

end

end ClassSet

namespace Tree

mutual

/-- How deep the parts of a pattern are nested. -/
def nesting : Tree → Nat
  | .bracketed _ set => set.nesting + 1
  | .repetition _ _ inner => nesting inner + 1
  | .group _ inner => nesting inner + 1
  | .alternation branches => nestingOfAll branches + 1
  | .concat parts => nestingOfAll parts + 1
  | _ => 0

/-- The deepest nesting among several patterns. -/
def nestingOfAll : List Tree → Nat
  | [] => 0
  | t :: rest => max (nesting t) (nestingOfAll rest)

end

/-- Parts one after another; a single part stands for itself. -/
def ofParts : List Tree → Tree
  | [] => .empty
  | [only] => only
  | parts => .concat parts

/-- Whether a repetition may be applied to the tree. -/
def isRepeatable : Tree → Bool
  | .empty | .flags _ => false
  | _ => true

end Tree

end Criteria.Pattern
