import Criteria.Pattern.Tree

/-!
# Sizes of patterns

A pattern is matched by an automaton, whose states take room.  Counted
repetitions copy what they repeat, so a short pattern can ask for a huge
automaton; patterns beyond a fixed budget are refused.

The sizes are those of a byte-wise automaton with one state per byte of a
literal and two per group and alternative; sets of characters are counted by
what they typically need.
-/

namespace Criteria.Pattern

/-- The room that an automaton may take, in bytes. -/
def sizeBudget : Nat := 10 * 1024 * 1024

/-- The room of one state. -/
def stateSize : Nat := 32

/-- The room of a set of characters that reaches far beyond ASCII. -/
def wideSetSize : Nat := 50000

/-- The room of a set of characters that leaves out only a few. -/
def openSetSize : Nat := 1000

namespace LetterClass

/-- The room of a class with a one-letter escape. -/
def size : LetterClass → Nat
  | .digit => 5000
  | .space => 700
  | .word => wideSetSize

end LetterClass

namespace Atom

/-- The room of an atom. -/
def size : Atom → Nat
  | .literal l => stateSize * l.char.utf8Size
  | .dot => openSetSize
  | .assertion _ => stateSize
  | .letter kind _ => kind.size
  | .property _ _ => wideSetSize / 2

end Atom

namespace ClassSet

mutual

/-- The room of a set of characters in brackets. -/
def size : ClassSet → Nat
  | .literal l => 8 * l.char.utf8Size
  | .range first last => 8 * first.char.utf8Size * last.char.utf8Size
  | .named _ _ => 24
  | .letter kind _ => kind.size
  | .property _ _ => wideSetSize / 2
  | .bracketed negated set => size set + (if negated then openSetSize else 0)
  | .union items => sizeOfAll items
  | .binary _ left right => size left + size right

/-- The room of several sets together. -/
def sizeOfAll : List ClassSet → Nat
  | [] => 0
  | s :: rest => size s + sizeOfAll rest

end

end ClassSet

namespace Tree

/-- The room of a repetition of something of the given size. -/
def repeatedSize (inner least : Nat) : Option Nat → Nat
  | none => max least 1 * inner + stateSize
  | some most => most * inner + (most - least) * stateSize + stateSize

mutual

/-- The room of the automaton of a pattern. -/
def size : Tree → Nat
  | .empty | .flags _ => stateSize
  | .atom a => a.size
  | .bracketed negated set => stateSize + set.size + (if negated then openSetSize else 0)
  | .repetition least most inner => repeatedSize (size inner) least most
  | .group _ inner => size inner + 2 * stateSize
  | .alternation branches => sizeOfAll branches + 2 * stateSize
  | .concat parts => sizeOfAll parts

/-- The room of several patterns together. -/
def sizeOfAll : List Tree → Nat
  | [] => 0
  | t :: rest => size t + sizeOfAll rest

end

/-- Whether the automaton stays within the budget. -/
def fits (t : Tree) : Bool := t.size ≤ sizeBudget

end Tree

end Criteria.Pattern
