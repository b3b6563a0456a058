import Criteria.Text.CharClass
import Criteria.Text.Script

/-!
# Named sets of characters

The sets behind the ASCII class names and behind property names: general
categories, scripts, and a few binary properties.
-/

namespace Criteria.Pattern

/-- A set of characters. -/
abbrev CharSet := Char → Bool

/-- The ASCII class with the given name. -/
def asciiClass (name : String) : CharSet := fun c =>
  let n := c.toNat
  let letter := CharClass.isAsciiLetter c
  let digit := CharClass.isAsciiDigit c
  match name with
  | "alnum" => letter || digit
  | "alpha" => letter
  | "ascii" => n < 128
  | "blank" => n == 32 || n == 9
  | "cntrl" => n < 32 || n == 127
  | "digit" => digit
  | "graph" => 32 < n && n < 127
  | "lower" => letter && 96 < n
  | "print" => 31 < n && n < 127
  | "punct" => 32 < n && n < 127 && !letter && !digit
  | "space" => n == 32 || (8 < n && n < 14)
  | "upper" => letter && n < 96
  | "word" => letter || digit || c == '_'
  | "xdigit" => digit || (64 < n && n < 71) || (96 < n && n < 103)
  | _ => false

namespace Property

/-- Characters that count as lower case beyond the lower-case letters. -/
def otherLowercase : List (Nat × Nat) :=
  [(0xAA, 0xAA), (0xBA, 0xBA), (0x2B0, 0x2B8), (0x2C0, 0x2C1), (0x2E0, 0x2E4), (0x345, 0x345),
   (0x37A, 0x37A), (0x10FC, 0x10FC), (0x1D2C, 0x1D6A), (0x1D78, 0x1D78), (0x1D9B, 0x1DBF),
   (0x2071, 0x2071), (0x207F, 0x207F), (0x2090, 0x209C), (0x2170, 0x217F), (0x24D0, 0x24E9),
   (0x2C7C, 0x2C7D), (0xA69C, 0xA69D), (0xA770, 0xA770), (0xA7F2, 0xA7F4), (0xA7F8, 0xA7F9),
   (0xAB5C, 0xAB5F), (0xAB69, 0xAB69), (0x10780, 0x10780), (0x10783, 0x10785),
   (0x10787, 0x107B0), (0x107B2, 0x107BA), (0x1E030, 0x1E06D)]

/-- Characters that count as upper case beyond the upper-case letters. -/
def otherUppercase : List (Nat × Nat) :=
  [(0x2160, 0x216F), (0x24B6, 0x24CF), (0x1F130, 0x1F149), (0x1F150, 0x1F169), (0x1F170, 0x1F189)]

/-- The set of characters whose category passes a test. -/
def ofCategory (test : GeneralCategory → Bool) : CharSet := fun c => test (.ofChar c)

/-- A general category, or a group of them, by any of its names. -/
def category? : String → Option CharSet
  | "any" => some fun _ => true
  | "assigned" => some (ofCategory (· != .cn))
  | "ascii" => some (·.toNat < 128)
  | "c" | "other" => some (ofCategory (·.isOther))
  | "cc" | "control" | "cntrl" => some (ofCategory (· == .cc))
  | "cf" | "format" => some (ofCategory (· == .cf))
  | "cn" | "unassigned" => some (ofCategory (· == .cn))
  | "co" | "privateuse" => some (ofCategory (· == .co))
  | "l" | "letter" => some (ofCategory (·.isLetter))
  | "lc" | "casedletter" => some (ofCategory ([.lu, .ll, .lt].contains ·))
  | "ll" | "lowercaseletter" => some (ofCategory (· == .ll))
  | "lm" | "modifierletter" => some (ofCategory (· == .lm))
  | "lo" | "otherletter" => some (ofCategory (· == .lo))
  | "lt" | "titlecaseletter" => some (ofCategory (· == .lt))
  | "lu" | "uppercaseletter" => some (ofCategory (· == .lu))
  | "m" | "mark" | "combiningmark" => some (ofCategory (·.isMark))
  | "mc" | "spacingmark" => some (ofCategory (· == .mc))
  | "me" | "enclosingmark" => some (ofCategory (· == .me))
  | "mn" | "nonspacingmark" => some (ofCategory (· == .mn))
  | "n" | "number" => some (ofCategory (·.isNumber))
  | "nd" | "decimalnumber" | "digit" => some (ofCategory (· == .nd))
  | "nl" | "letternumber" => some (ofCategory (· == .nl))
  | "no" | "othernumber" => some (ofCategory (· == .no))
  | "p" | "punctuation" | "punct" =>
    some (ofCategory ([.pc, .pd, .ps, .pe, .pi, .pf, .po].contains ·))
  | "pc" | "connectorpunctuation" => some (ofCategory (· == .pc))
  | "pd" | "dashpunctuation" => some (ofCategory (· == .pd))
  | "pe" | "closepunctuation" => some (ofCategory (· == .pe))
  | "pf" | "finalpunctuation" => some (ofCategory (· == .pf))
  | "pi" | "initialpunctuation" => some (ofCategory (· == .pi))
  | "po" | "otherpunctuation" => some (ofCategory (· == .po))
  | "ps" | "openpunctuation" => some (ofCategory (· == .ps))
  | "s" | "symbol" => some (ofCategory ([.sm, .sc, .sk, .so].contains ·))
  | "sc" | "currencysymbol" => some (ofCategory (· == .sc))
  | "sk" | "modifiersymbol" => some (ofCategory (· == .sk))
  | "sm" | "mathsymbol" => some (ofCategory (· == .sm))
  | "so" | "othersymbol" => some (ofCategory (· == .so))
  | "z" | "separator" => some (ofCategory (·.isSeparator))
  | "zl" | "lineseparator" => some (ofCategory (· == .zl))
  | "zp" | "paragraphseparator" => some (ofCategory (· == .zp))
  | "zs" | "spaceseparator" => some (ofCategory (· == .zs))
  | _ => none

/-- A binary property, by any of its names. -/
def binary? : String → Option CharSet
  | "alphabetic" | "alpha" => some CharClass.isAlphabetic
  | "whitespace" | "wspace" | "space" => some CharClass.isBlank
  | "lowercase" | "lower" =>
    some fun c => GeneralCategory.ofChar c == .ll || inRanges otherLowercase c.toNat
  | "uppercase" | "upper" =>
    some fun c => GeneralCategory.ofChar c == .lu || inRanges otherUppercase c.toNat
  | "joincontrol" | "joinc" => some fun c => inRanges [(0x200C, 0x200D)] c.toNat
  | _ => none

/-- A script, by any of its names. -/
def script? (name : String) : Option CharSet :=
  (Script.ranges? name).map fun ranges c => inRanges ranges c.toNat

/-- A name in lower case without separators; a leading `is` does not count. -/
def normalize (name : List Char) : String :=
  let plain := (name.filter fun c => c != ' ' && c != '_' && c != '-').map Char.toLower
  match plain with
  | 'i' :: 's' :: rest => if rest == ['c'] then "isc" else String.ofList rest
  | _ => String.ofList plain

/-- A name without a value: a binary property, a category or a script. -/
def ofName? (name : String) : Option CharSet :=
  (binary? name).orElse fun _ => (category? name).orElse fun _ => script? name

/-- A property with a value. -/
def ofNameValue? (name value : String) : Option CharSet :=
  match name with
  | "gc" | "generalcategory" => category? value
  | "sc" | "script" | "scx" | "scriptextensions" => script? value
  | _ => none

/-- A text before and after the first place where a separator stands. -/
def splitAt? (separator : List Char) : List Char → Option (List Char × List Char)
  | [] => none
  | c :: rest =>
    if separator.isPrefixOf (c :: rest) then some ([], (c :: rest).drop separator.length)
    else (splitAt? separator rest).map fun (before, after) => (c :: before, after)

/-- The set of characters with a property: its name, or name and value with `=`,
`:` or, for the opposite, `!=` between them. -/
def parse? (text : String) : Option CharSet :=
  let cs := text.toList
  match splitAt? ['!', '='] cs with
  | some (name, value) =>
    (ofNameValue? (normalize name) (normalize value)).map fun set c => !set c
  | none =>
    match (splitAt? [':'] cs).orElse fun _ => splitAt? ['='] cs with
    | some (name, value) => ofNameValue? (normalize name) (normalize value)
    | none => ofName? (normalize cs)

end Property

end Criteria.Pattern
