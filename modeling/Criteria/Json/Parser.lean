import Criteria.Json.Basic
import Criteria.OrderedMap

/-!
# Reading JSON text

A strict reader: one value and nothing after it, no comments, no trailing
commas, no leading zeros, no raw control characters in strings, no lone
surrogates.  A repeated key keeps its first place and takes its last value.

* Integers without fraction and exponent that fit 64 bits are kept exactly;
  `-0` and every other number is the nearest double, and a number too large for
  a double is refused.
* Arrays and objects may be nested `Json.maxNesting` deep.
-/

namespace Criteria.Json

/-- How deep arrays and objects may be nested in a text. -/
def maxNesting : Nat := 127

/-- A reader takes a value off the front of the text. -/
abbrev Reader (α : Type) := List Char → Option (α × List Char)

/-- The blanks of the format. -/
def isBlank (c : Char) : Bool := c = ' ' || c = '\n' || c = '\r' || c = '\t'

/-- The text after leading blanks. -/
def skipBlanks (cs : List Char) : List Char := cs.dropWhile isBlank

/-- The value of a hexadecimal digit. -/
def hexValue? (c : Char) : Option Nat :=
  if '0' ≤ c ∧ c ≤ '9' then some (c.toNat - 48)
  else if 'a' ≤ c ∧ c ≤ 'f' then some (c.toNat - 87)
  else if 'A' ≤ c ∧ c ≤ 'F' then some (c.toNat - 55)
  else none

/-- The number written by four hexadecimal digits. -/
def hex4? (a b c d : Char) : Option Nat := do
  return (((← hexValue? a) * 16 + (← hexValue? b)) * 16 + (← hexValue? c)) * 16 + (← hexValue? d)

/-- The character behind a one-letter escape. -/
def simpleEscape? : Char → Option Char
  | '"' => some '"'
  | '\\' => some '\\'
  | '/' => some '/'
  | 'b' => some (Char.ofNat 8)
  | 'f' => some (Char.ofNat 12)
  | 'n' => some '\n'
  | 'r' => some '\r'
  | 't' => some '\t'
  | _ => none

/-- The character written by one escaped code unit that is no surrogate. -/
def plainUnit? (u : Nat) : Option Char :=
  if 0xD800 ≤ u ∧ u ≤ 0xDFFF then none else some (Char.ofNat u)

/-- The character written by a pair of escaped surrogates. -/
def surrogatePair? (high low : Nat) : Option Char :=
  if 0xD800 ≤ high ∧ high ≤ 0xDBFF ∧ 0xDC00 ≤ low ∧ low ≤ 0xDFFF then
    some (Char.ofNat (0x10000 + (high - 0xD800) * 0x400 + (low - 0xDC00)))
  else none

/-- One character of a string, with what follows it. -/
def stringChar? : Reader Char
  | '\\' :: 'u' :: a :: b :: c :: d :: rest => do
    let unit ← hex4? a b c d
    match plainUnit? unit with
    | some ch => some (ch, rest)
    | none =>
      match rest with
      | '\\' :: 'u' :: e :: f :: g :: h :: rest' => do
        let ch ← surrogatePair? unit (← hex4? e f g h)
        some (ch, rest')
      | _ => none
  | '\\' :: c :: rest => (simpleEscape? c).map (·, rest)
  | c :: rest => if c.toNat < 32 ∨ c = '"' ∨ c = '\\' then none else some (c, rest)
  | [] => none

/-- The rest of a string after its opening quote.  The fuel bounds the number of
characters; `text` holds those read so far, last first. -/
def stringTail? : Nat → List Char → Reader String
  | 0, _, _ => none
  | fuel + 1, text, cs =>
    match cs with
    | '"' :: rest => some (String.ofList text.reverse, rest)
    | _ =>
      match stringChar? cs with
      | none => none
      | some (c, rest) => stringTail? fuel (c :: text) rest

/-- Whether a character is a decimal digit. -/
def isDigit (c : Char) : Bool := '0' ≤ c && c ≤ '9'

/-- The number written by decimal digits. -/
def decimalValue (digits : List Char) : Nat :=
  digits.foldl (fun n c => n * 10 + (c.toNat - 48)) 0

/-- One or more decimal digits. -/
def digits? : Reader (List Char) := fun cs =>
  match cs.takeWhile isDigit with
  | [] => none
  | ds => some (ds, cs.dropWhile isDigit)

/-- The whole part of a number: no leading zero but zero itself. -/
def wholePart? : Reader (List Char) := fun cs =>
  match digits? cs with
  | none => none
  | some (ds, rest) =>
    if ds.head? = some '0' ∧ ds.length ≠ 1 then none else some (ds, rest)

/-- The digits after a point, if there is one. -/
def fractionPart? : Reader (Option (List Char))
  | '.' :: rest => (digits? rest).map fun (ds, rest) => (some ds, rest)
  | cs => some (none, cs)

/-- A sign and the text after it. -/
def takeSign : List Char → Bool × List Char
  | '-' :: rest => (true, rest)
  | '+' :: rest => (false, rest)
  | cs => (false, cs)

/-- The exponent, if there is one. -/
def exponentPart? : Reader (Option Int)
  | c :: rest =>
    if c = 'e' ∨ c = 'E' then
      let (negative, rest) := takeSign rest
      (digits? rest).map fun (ds, rest) =>
        (some (if negative then -(decimalValue ds : Int) else decimalValue ds), rest)
    else some (none, c :: rest)
  | [] => some (none, [])

/-- A number without fraction and exponent: exact where it fits. -/
def wholeNumber? (negative : Bool) (n : Nat) : Option Number :=
  let exact := if negative then (if n = 0 then none else Integer.ofInt? (-n)) else Integer.ofInt? n
  match exact with
  | some i => some (.integer i)
  | none => (Binary64.ofDecimal? negative n 0).map .double

/-- A number. -/
def number? : Reader Number := fun cs => do
  let (negative, cs) := match cs with
    | '-' :: rest => (true, rest)
    | _ => (false, cs)
  let (whole, cs) ← wholePart? cs
  let (fraction, cs) ← fractionPart? cs
  let (exponent, cs) ← exponentPart? cs
  let n ← match fraction, exponent with
    | none, none => wholeNumber? negative (decimalValue whole)
    | _, _ =>
      let places := fraction.getD []
      (Binary64.ofDecimal? negative (decimalValue (whole ++ places))
        (exponent.getD 0 - places.length)).map .double
  return (n, cs)

/-- A fixed word. -/
def word? (word : List Char) (value : Json) : Reader Json := fun cs =>
  if word.isPrefixOf cs then some (value, cs.drop word.length) else none

mutual

/-- A value.  The fuel bounds the number of steps, `depth` the nesting still
allowed. -/
def value? : Nat → Nat → Reader Json
  | 0, _, _ => none
  | fuel + 1, depth, cs =>
    match skipBlanks cs with
    | '[' :: rest =>
      match depth, skipBlanks rest with
      | 0, _ => none
      | _, ']' :: rest' => some (.array [], rest')
      | depth + 1, _ => items? fuel depth [] rest
    | '\x7b' :: rest =>
      match depth, skipBlanks rest with
      | 0, _ => none
      | _, '\x7d' :: rest' => some (.object [], rest')
      | depth + 1, _ => members? fuel depth [] rest
    | '"' :: rest => (stringTail? (rest.length + 1) [] rest).map fun (s, rest') => (.string s, rest')
    | 't' :: rest => word? ['r', 'u', 'e'] (.bool true) rest
    | 'f' :: rest => word? ['a', 'l', 's', 'e'] (.bool false) rest
    | 'n' :: rest => word? ['u', 'l', 'l'] .null rest
    | cs' => (number? cs').map fun (n, rest) => (.number n, rest)

/-- The items of an array up to its closing bracket. -/
def items? : Nat → Nat → List Json → Reader Json
  | 0, _, _, _ => none
  | fuel + 1, depth, done, cs =>
    match value? fuel depth cs with
    | none => none
    | some (v, rest) =>
      match skipBlanks rest with
      | ',' :: rest' => items? fuel depth (v :: done) rest'
      | ']' :: rest' => some (.array (v :: done).reverse, rest')
      | _ => none

/-- The members of an object up to its closing brace. -/
def members? : Nat → Nat → List (String × Json) → Reader Json
  | 0, _, _, _ => none
  | fuel + 1, depth, done, cs =>
    match skipBlanks cs with
    | '"' :: rest =>
      match stringTail? (rest.length + 1) [] rest with
      | none => none
      | some (key, rest) =>
        match skipBlanks rest with
        | ':' :: rest =>
          match value? fuel depth rest with
          | none => none
          | some (v, rest) =>
            match skipBlanks rest with
            | ',' :: rest' => members? fuel depth ((key, v) :: done) rest'
            | '\x7d' :: rest' => some (.object (Entries.ofList ((key, v) :: done).reverse), rest')
            | _ => none
        | _ => none
    | _ => none

end

/-- The value written by a text, which holds nothing else. -/
def parse? (text : String) : Option Json :=
  let cs := text.toList
  match value? (2 * cs.length + 4) maxNesting cs with
  | some (v, rest) => if (skipBlanks rest).isEmpty then some v else none
  | none => none

end Criteria.Json
