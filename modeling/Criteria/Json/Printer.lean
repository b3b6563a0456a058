import Criteria.Binary64.Shortest
import Criteria.Json.Basic

/-!
# JSON text of a value

Compact form: no blanks, members in order.  In strings only the quote, the
backslash and the control characters below U+0020 are escaped.
-/

namespace Criteria

/-- A hexadecimal digit, in lower case. -/
def hexDigit (n : Nat) : Char := if n < 10 then Char.ofNat (48 + n) else Char.ofNat (87 + n)

namespace Json

/-- A character as it stands inside a quoted string. -/
def escapeChar (c : Char) : List Char :=
  if c = '"' then ['\\', '"']
  else if c = '\\' then ['\\', '\\']
  else if c = '\n' then ['\\', 'n']
  else if c = '\r' then ['\\', 'r']
  else if c = '\t' then ['\\', 't']
  else if c.toNat = 8 then ['\\', 'b']
  else if c.toNat = 12 then ['\\', 'f']
  else if c.toNat < 32 then
    ['\\', 'u', '0', '0', hexDigit (c.toNat / 16), hexDigit (c.toNat % 16)]
  else [c]

/-- A string in quotes. -/
def quote (s : String) : String :=
  "\"" ++ String.ofList (s.toList.flatMap escapeChar) ++ "\""

end Json

/-- The text of a number. -/
def Number.text : Number → String
  | .integer i => toString i.val
  | .double x => x.text

namespace Json

mutual

/-- The compact text of a value. -/
def text : Json → String
  | .null => "null"
  | .bool b => if b then "true" else "false"
  | .number n => n.text
  | .string s => quote s
  | .array items => "[" ++ textItems items ++ "]"
  | .object members => "\x7b" ++ textMembers members ++ "\x7d"

/-- The texts of the items, with commas between them. -/
def textItems : List Json → String
  | [] => ""
  | [x] => text x
  | x :: y :: rest => text x ++ "," ++ textItems (y :: rest)

/-- The texts of the members, with commas between them. -/
def textMembers : List (String × Json) → String
  | [] => ""
  | [(key, x)] => quote key ++ ":" ++ text x
  | (key, x) :: m :: rest => quote key ++ ":" ++ text x ++ "," ++ textMembers (m :: rest)

end

end Json

end Criteria
