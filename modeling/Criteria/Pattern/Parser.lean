import Criteria.Json.Parser
import Criteria.Pattern.Tree
import Criteria.Text.CharClass

/-!
# Reading patterns

Reads the text of a pattern into its tree, or refuses it.  Groups, alternatives
and bracketed classes are kept on explicit stacks, so reading is one pass over
the text.

* `Tree.parse?`: the tree of a whole text.  There is no look-around and there
  are no references back to groups.
-/

namespace Criteria.Pattern

/-- How deep the parts of a pattern may be nested. -/
def maxNesting : Nat := 250

/-- The text after blanks and comments, where verbose mode allows them. -/
def skipVerbose : Bool → List Char → List Char
  | _, [] => []
  | true, c :: rest => skipVerbose (c != '\n') rest
  | false, c :: rest =>
    if CharClass.isBlank c then skipVerbose false rest
    else if c = '#' then skipVerbose true rest
    else c :: rest

/-- The text after blanks and comments in verbose mode, the whole text otherwise. -/
def skipSpace (verbose : Bool) (cs : List Char) : List Char :=
  if verbose then skipVerbose false cs else cs

/-- Whether a character has a meaning of its own somewhere in a pattern. -/
def isMeta (c : Char) : Bool :=
  ['\\', '.', '+', '*', '?', '(', ')', '|', '[', ']', '\x7b', '\x7d', '^', '$', '#', '&', '-',
    '~'].contains c

/-- Whether a backslash may stand before the character without effect. -/
def isEscapable (c : Char) : Bool :=
  isMeta c ||
    (c.toNat < 128 && !CharClass.isAsciiLetter c && !CharClass.isAsciiDigit c
      && c != '<' && c != '>')

/-- The character with the given code, if there is one. -/
def charOfCode? (n : Nat) : Option Char :=
  if n < 0xD800 ∨ (0xDFFF < n ∧ n < 0x110000) then some (Char.ofNat n) else none

/-- The number written by hexadecimal digits. -/
def hexNumber? (digits : List Char) : Option Nat :=
  digits.foldl (fun n? c => do return (← n?) * 16 + (← Json.hexValue? c)) (some 0)

/-- A fixed count of hexadecimal digits, blanks allowed between them in verbose
mode. -/
def fixedHex? (verbose : Bool) : Nat → List Char → Option (List Char × List Char)
  | 0, cs => some ([], cs)
  | count + 1, cs =>
    match cs with
    | [] => none
    | c :: rest => do
      let _ ← Json.hexValue? c
      let (digits, rest) ← fixedHex? verbose count (skipSpace verbose rest)
      return (c :: digits, rest)

/-- The text up to a closing brace, blanks left out in verbose mode.  The fuel
bounds the number of characters. -/
def upToBrace? (verbose : Bool) : Nat → List Char → Option (List Char × List Char)
  | 0, _ => none
  | fuel + 1, cs =>
    match skipSpace verbose cs with
    | [] => none
    | '\x7d' :: rest => some ([], rest)
    | c :: rest => do
      let (text, rest) ← upToBrace? verbose fuel rest
      return (c :: text, rest)

/-- A character written by its code, after the letter that introduces it. -/
def hexEscape? (verbose : Bool) (count : Nat) (cs : List Char) :
    Option (Literal × List Char) :=
  match skipSpace verbose cs with
  | '\x7b' :: rest => do
    let (digits, rest) ← upToBrace? verbose (rest.length + 1) rest
    if digits.isEmpty then none
    let c ← charOfCode? (← hexNumber? digits)
    return (⟨c, false⟩, skipSpace verbose rest)
  | cs => do
    let (digits, rest) ← fixedHex? verbose count cs
    let c ← charOfCode? (← hexNumber? digits)
    return (⟨c, count == 2⟩, rest)

/-- The name of a property, after the letter that introduces it. -/
def propertyName? (verbose : Bool) (cs : List Char) : Option (String × List Char) :=
  match skipSpace verbose cs with
  | [] => none
  | '\x7b' :: rest => do
    let (name, rest) ← upToBrace? verbose (rest.length + 1) rest
    return (String.ofList name, rest)
  | c :: rest =>
    if c = '\\' then none else some (String.singleton c, skipSpace verbose rest)

/-- Whether a character may stand in the name of a special word boundary. -/
def isBoundaryNameChar (c : Char) : Bool := CharClass.isAsciiLetter c || c == '-'

/-- The name of a special word boundary and what follows it. -/
def boundaryName (verbose : Bool) : Nat → List Char → List Char × List Char
  | 0, cs => ([], cs)
  | fuel + 1, cs =>
    match cs with
    | c :: rest =>
      if isBoundaryNameChar c then
        let (name, rest) := boundaryName verbose fuel (skipSpace verbose rest)
        (c :: name, rest)
      else ([], cs)
    | [] => ([], [])

/-- A word boundary, after its letter: braces with a name select a special one,
braces with anything else are left for a repetition. -/
def boundary? (verbose : Bool) (cs : List Char) : Option (Atom × List Char) :=
  match cs with
  | '\x7b' :: rest =>
    match skipSpace verbose rest with
    | [] => none
    | c :: tail =>
      if isBoundaryNameChar c then
        match boundaryName verbose (tail.length + 1) (c :: tail) with
        | (name, '\x7d' :: rest) =>
          match String.ofList name with
          | "start" => some (.assertion .wordStart, rest)
          | "end" => some (.assertion .wordEnd, rest)
          | "start-half" => some (.assertion .wordStartHalf, rest)
          | "end-half" => some (.assertion .wordEndHalf, rest)
          | _ => none
        | _ => none
      else some (.assertion .wordBoundary, cs)
  | _ => some (.assertion .wordBoundary, cs)

/-- The control character behind a one-letter escape. -/
def controlEscape? : Char → Option Char
  | 'a' => some (Char.ofNat 7)
  | 'f' => some (Char.ofNat 12)
  | 't' => some '\t'
  | 'n' => some '\n'
  | 'r' => some '\r'
  | 'v' => some (Char.ofNat 11)
  | _ => none

/-- What a backslash introduces, read after the backslash. -/
def escape? (verbose : Bool) : List Char → Option (Atom × List Char)
  | [] => none
  | c :: rest =>
    match c with
    | 'x' => (hexEscape? verbose 2 rest).map fun (l, rest) => (.literal l, rest)
    | 'u' => (hexEscape? verbose 4 rest).map fun (l, rest) => (.literal l, rest)
    | 'U' => (hexEscape? verbose 8 rest).map fun (l, rest) => (.literal l, rest)
    | 'p' => (propertyName? verbose rest).map fun (name, rest) => (.property name false, rest)
    | 'P' => (propertyName? verbose rest).map fun (name, rest) => (.property name true, rest)
    | 'd' => some (.letter .digit false, rest)
    | 'D' => some (.letter .digit true, rest)
    | 's' => some (.letter .space false, rest)
    | 'S' => some (.letter .space true, rest)
    | 'w' => some (.letter .word false, rest)
    | 'W' => some (.letter .word true, rest)
    | 'A' => some (.assertion .startText, rest)
    | 'z' => some (.assertion .endText, rest)
    | 'b' => boundary? verbose rest
    | 'B' => some (.assertion .notWordBoundary, rest)
    | '<' => some (.assertion .wordStart, rest)
    | '>' => some (.assertion .wordEnd, rest)
    | _ =>
      if isEscapable c then some (.literal ⟨c, false⟩, rest)
      else (controlEscape? c).map fun c => (.literal ⟨c, false⟩, rest)

/-! ## Bracketed classes -/

/-- An open bracket or operation of a class that is being read. -/
inductive ClassFrame where
  | bracket (outer : List ClassSet) (negated : Bool)
  | operation (op : SetOp) (left : ClassSet)

/-- Items, last first, as one set. -/
def unionOf : List ClassSet → ClassSet
  | [only] => only
  | items => .union items.reverse

/-- A set as the right operand of the operation on top of the stack, if there is
one. -/
def closeOperation (right : ClassSet) : List ClassFrame → ClassSet × List ClassFrame
  | .operation op left :: frames => (.binary op left right, frames)
  | frames => (right, frames)

/-- Leading dashes of a class, as literals. -/
def leadingDashes (verbose : Bool) : Nat → List ClassSet → List Char → List ClassSet × List Char
  | fuel + 1, items, '-' :: rest =>
    leadingDashes verbose fuel (.literal ⟨'-', false⟩ :: items) (skipSpace verbose rest)
  | _, items, cs => (items, cs)

/-- The start of a class after its bracket: negation, then dashes or a closing
bracket that stand for themselves. -/
def openClass? (verbose : Bool) (cs : List Char) : Option (Bool × List ClassSet × List Char) :=
  let cs := skipSpace verbose cs
  let (negated, cs) := match cs with
    | '^' :: rest => (true, skipSpace verbose rest)
    | _ => (false, cs)
  let (items, cs) := leadingDashes verbose (cs.length + 1) [] cs
  let (items, cs) := match items, cs with
    | [], ']' :: rest => ([ClassSet.literal ⟨']', false⟩], skipSpace verbose rest)
    | _, _ => (items, cs)
  if cs.isEmpty then none else some (negated, items, cs)

/-- The names of the ASCII classes. -/
def asciiClassNames : List String :=
  ["alnum", "alpha", "ascii", "blank", "cntrl", "digit", "graph", "lower", "print", "punct",
    "space", "upper", "word", "xdigit"]

/-- A named ASCII class, read after its bracket; anything else is no such class. -/
def namedClass? (cs : List Char) : Option (ClassSet × List Char) :=
  match cs with
  | ':' :: rest =>
    let (negated, rest) := match rest with
      | '^' :: rest => (true, rest)
      | _ => (false, rest)
    let name := String.ofList (rest.takeWhile (· != ':'))
    match rest.dropWhile (· != ':') with
    | ':' :: ']' :: rest =>
      if asciiClassNames.contains name then some (.named name negated, rest) else none
    | _ => none
  | _ => none

/-- One item of a class, before it is known whether it opens a range. -/
def classAtom? (verbose : Bool) : List Char → Option (Atom × List Char)
  | [] => none
  | '\\' :: rest => escape? verbose rest
  | c :: rest => some (Atom.literal ⟨c, false⟩, rest)

/-- An atom as an item of a class. -/
def Atom.toClassSet? : Atom → Option ClassSet
  | .literal l => some (.literal l)
  | .letter kind negated => some (.letter kind negated)
  | .property name negated => some (.property name negated)
  | .dot | .assertion _ => none

/-- An atom as the end of a range. -/
def Atom.toLiteral? : Atom → Option Literal
  | .literal l => some l
  | _ => none

/-- One item or range of a class.  A dash before a closing bracket or another
dash opens no range. -/
def classItem? (verbose : Bool) (cs : List Char) : Option (ClassSet × List Char) := do
  let (first, cs) ← classAtom? verbose cs
  let cs := skipSpace verbose cs
  match cs with
  | [] => none
  | '-' :: rest =>
    let rest := skipSpace verbose rest
    match rest with
    | ']' :: _ | '-' :: _ => return (← first.toClassSet?, cs)
    | _ =>
      let (last, rest) ← classAtom? verbose rest
      let a ← first.toLiteral?
      let b ← last.toLiteral?
      if a.char ≤ b.char then return (.range a b, rest) else none
  | _ => return (← first.toClassSet?, cs)

/-- The rest of a class.  `items` are those of the innermost bracket or operand,
last first; the fuel bounds the number of items. -/
def classRest? (verbose : Bool) :
    Nat → List ClassSet → List ClassFrame → List Char → Option (Tree × List Char)
  | 0, _, _, _ => none
  | fuel + 1, items, frames, cs =>
    let operation (op : SetOp) (rest : List Char) :=
      let (left, frames) := closeOperation (unionOf items) frames
      classRest? verbose fuel [] (.operation op left :: frames) rest
    match skipSpace verbose cs with
    | [] => none
    | '[' :: rest =>
      match namedClass? rest with
      | some (set, rest) => classRest? verbose fuel (set :: items) frames rest
      | none =>
        match openClass? verbose rest with
        | none => none
        | some (negated, inner, rest) =>
          classRest? verbose fuel inner (.bracket items negated :: frames) rest
    | ']' :: rest =>
      let (set, frames) := closeOperation (unionOf items) frames
      match frames with
      | [.bracket _ negated] => some (.bracketed negated set, rest)
      | .bracket outer negated :: frames =>
        classRest? verbose fuel (.bracketed negated set :: outer) frames rest
      | _ => none
    | '&' :: '&' :: rest => operation .intersection rest
    | '-' :: '-' :: rest => operation .difference rest
    | '~' :: '~' :: rest => operation .symmetricDifference rest
    | cs =>
      match classItem? verbose cs with
      | none => none
      | some (set, rest) => classRest? verbose fuel (set :: items) frames rest

/-- A bracketed class, read after its bracket. -/
def bracketed? (verbose : Bool) (cs : List Char) : Option (Tree × List Char) :=
  match openClass? verbose cs with
  | none => none
  | some (negated, items, rest) =>
    classRest? verbose (rest.length + 1) items [.bracket [] negated] rest

/-! ## Repetitions -/

/-- The largest count a repetition can be written with. -/
def maxCount : Nat := 0xFFFFFFFF

/-- The digits of a count, blanks allowed between them in verbose mode. -/
def countDigits (verbose : Bool) : Nat → List Char → List Char × List Char
  | 0, cs => ([], cs)
  | fuel + 1, cs =>
    match cs with
    | c :: rest =>
      if Json.isDigit c then
        let (digits, rest) := countDigits verbose fuel (skipSpace verbose rest)
        (c :: digits, rest)
      else ([], cs)
    | [] => ([], [])

/-- A count; blanks around it are allowed. -/
def count? (verbose : Bool) (cs : List Char) : Option (Nat × List Char) :=
  let cs := cs.dropWhile CharClass.isBlank
  let (digits, rest) := countDigits verbose (cs.length + 1) cs
  let n := Json.decimalValue digits
  if digits.isEmpty ∨ maxCount < n then none
  else some (n, skipSpace verbose (rest.dropWhile CharClass.isBlank))

/-- The question mark after a repetition asks for short matches; whether there
is a match does not depend on it. -/
def skipLazyMark : List Char → List Char
  | '?' :: rest => rest
  | cs => cs

/-- The bounds of a counted repetition, read after the brace. -/
def bounds? (verbose : Bool) (cs : List Char) : Option ((Nat × Option Nat) × List Char) := do
  let (least, cs) ← count? verbose (skipSpace verbose cs)
  let (most, cs) ← match cs with
    | ',' :: rest =>
      match skipSpace verbose rest with
      | '\x7d' :: _ => some (none, skipSpace verbose rest)
      | rest => (count? verbose rest).map fun (n, rest) => (some n, rest)
    | _ => some (some least, cs)
  match cs with
  | '\x7d' :: rest =>
    if (most.getD least) < least then none
    else some ((least, most), skipLazyMark (skipSpace verbose rest))
  | _ => none

/-! ## Groups -/

/-- The flag with the given letter. -/
def Flag.ofLetter? : Char → Option Flag
  | 'i' => some .caseInsensitive
  | 'm' => some .multiLine
  | 's' => some .dotAll
  | 'U' => some .swapGreed
  | 'u' => some .unicode
  | 'x' => some .verbose
  | 'R' => some .crlf
  | _ => none

/-- The letters of flags up to a colon or a closing parenthesis, which is kept.
`negated` says that a minus sign was read, `fresh` that a letter followed it. -/
def flagLetters? : Bool → Bool → List FlagChange → List Char →
    Option (List FlagChange × List Char)
  | _, _, _, [] => none
  | negated, fresh, changes, c :: rest =>
    if c = ':' ∨ c = ')' then
      if negated && !fresh then none else some (changes.reverse, c :: rest)
    else if c = '-' then
      if negated then none else flagLetters? true false changes rest
    else
      match Flag.ofLetter? c with
      | none => none
      | some flag =>
        if (FlagChange.find? flag changes).isSome then none
        else flagLetters? negated true (⟨flag, !negated⟩ :: changes) rest

/-- Whether a character may stand in the name of a group. -/
def isGroupNameChar (first : Bool) (c : Char) : Bool :=
  if first then c == '_' || CharClass.isAlphabetic c
  else c == '_' || c == '.' || c == '[' || c == ']' || CharClass.isAlphanumeric c

/-- The name of a group up to its closing angle bracket. -/
def groupName? (cs : List Char) : Option (String × List Char) :=
  let name := cs.takeWhile (· != '>')
  match name, cs.dropWhile (· != '>') with
  | c :: tail, '>' :: rest =>
    if isGroupNameChar true c && tail.all (isGroupNameChar false) then
      some (String.ofList name, rest)
    else none
  | _, _ => none

/-- What an opening parenthesis introduces. -/
inductive Opening where
  | setFlags (changes : List FlagChange)
  | capture (name : Option String)
  | plain (changes : List FlagChange)

/-- What an opening parenthesis introduces, read after it. -/
def opening? (verbose : Bool) (cs : List Char) : Option (Opening × List Char) :=
  match skipSpace verbose cs with
  | '?' :: '=' :: _ | '?' :: '!' :: _ | '?' :: '<' :: '=' :: _ | '?' :: '<' :: '!' :: _ => none
  | '?' :: 'P' :: '<' :: rest => (groupName? rest).map fun (n, rest) => (.capture (some n), rest)
  | '?' :: '<' :: rest => (groupName? rest).map fun (n, rest) => (.capture (some n), rest)
  | '?' :: rest =>
    match flagLetters? false true [] rest with
    | some (changes, ')' :: rest) =>
      if changes.isEmpty then none else some (.setFlags changes, rest)
    | some (changes, _ :: rest) => some (.plain changes, rest)
    | _ => none
  | cs => some (.capture none, cs)

/-! ## Whole patterns -/

/-- An open group or a list of alternatives that is being read. -/
inductive Frame where
  | group (outer : List Tree) (changes : List FlagChange) (outerVerbose : Bool)
  | alternatives (branches : List Tree)

/-- A pattern that is being read. -/
structure Reading where
  /-- Whether blanks and comments are skipped. -/
  verbose : Bool
  /-- The names of groups so far. -/
  names : List String
  /-- What is open, innermost first. -/
  frames : List Frame
  /-- The parts since the last opening or bar, last first. -/
  parts : List Tree

namespace Reading

/-- The parts since the last opening, with the alternatives before them. -/
def body (r : Reading) : Tree × List Frame :=
  let last := Tree.ofParts r.parts.reverse
  match r.frames with
  | .alternatives branches :: frames => (.alternation (branches.reverse ++ [last]), frames)
  | frames => (last, frames)

/-- Add a part. -/
def push (r : Reading) (t : Tree) : Reading := { r with parts := t :: r.parts }

/-- Start another alternative. -/
def bar (r : Reading) : Reading :=
  let last := Tree.ofParts r.parts.reverse
  match r.frames with
  | .alternatives branches :: frames =>
    { r with frames := .alternatives (last :: branches) :: frames, parts := [] }
  | frames => { r with frames := .alternatives [last] :: frames, parts := [] }

/-- Open a group. -/
def openGroup (r : Reading) (changes : List FlagChange) : Reading :=
  { r with
    verbose := (FlagChange.find? .verbose changes).getD r.verbose
    frames := .group r.parts changes r.verbose :: r.frames
    parts := [] }

/-- What an opening parenthesis does. -/
def enter? (r : Reading) : Opening → Option Reading
  | .setFlags changes =>
    some { r.push (.flags changes) with
      verbose := (FlagChange.find? .verbose changes).getD r.verbose }
  | .capture none => some (r.openGroup [])
  | .capture (some name) =>
    if r.names.contains name then none
    else some { r.openGroup [] with names := name :: r.names }
  | .plain changes => some (r.openGroup changes)

/-- What a closing parenthesis does. -/
def close? (r : Reading) : Option Reading :=
  match r.body with
  | (inner, .group outer changes outerVerbose :: frames) =>
    some { r with
      verbose := outerVerbose, frames := frames, parts := .group changes inner :: outer }
  | _ => none

/-- Repeat the last part. -/
def repeat? (r : Reading) (least : Nat) (most : Option Nat) : Option Reading :=
  match r.parts with
  | last :: before =>
    if last.isRepeatable then some { r with parts := .repetition least most last :: before }
    else none
  | [] => none

/-- Read one element of the pattern. -/
def step? (r : Reading) : List Char → Option (Reading × List Char)
  | [] => none
  | c :: rest =>
    match c with
    | '(' => do
      let (opening, rest) ← opening? r.verbose rest
      return (← r.enter? opening, rest)
    | ')' => r.close?.map (·, rest)
    | '|' => some (r.bar, rest)
    | '[' => (bracketed? r.verbose rest).map fun (t, rest) => (r.push t, rest)
    | '?' => (r.repeat? 0 (some 1)).map (·, skipLazyMark rest)
    | '*' => (r.repeat? 0 none).map (·, skipLazyMark rest)
    | '+' => (r.repeat? 1 none).map (·, skipLazyMark rest)
    | '\x7b' => do
      let ((least, most), rest) ← bounds? r.verbose rest
      return (← r.repeat? least most, rest)
    | '\\' => (escape? r.verbose rest).map fun (a, rest) => (r.push (.atom a), rest)
    | '.' => some (r.push (.atom .dot), rest)
    | '^' => some (r.push (.atom (.assertion .startLine)), rest)
    | '$' => some (r.push (.atom (.assertion .endLine)), rest)
    | c => some (r.push (.atom (.literal ⟨c, false⟩)), rest)

/-- Read to the end.  The fuel bounds the number of elements. -/
def run? : Nat → Reading → List Char → Option Tree
  | 0, _, _ => none
  | fuel + 1, r, cs =>
    match skipSpace r.verbose cs with
    | [] =>
      match r.body with
      | (t, []) => some t
      | _ => none
    | cs =>
      match r.step? cs with
      | none => none
      | some (r, rest) => run? fuel r rest

end Reading

/-- The tree of a pattern's text, if it is well formed. -/
def Tree.parse? (source : String) : Option Tree :=
  match Reading.run? (source.length + 1) ⟨false, [], [], []⟩ source.toList with
  | some t => if t.nesting ≤ maxNesting then some t else none
  | none => none

end Criteria.Pattern
