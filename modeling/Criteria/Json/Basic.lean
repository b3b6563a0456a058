import Criteria.Binary64.Basic

/-!
# JSON values

Numbers are either integers, held exactly, or finite doubles; the two never
coincide, so `1` and `1.0` are different values.  Objects list their members in
order.

* `Json.same`: equality of values.  Members of objects are compared by key, so
  their order does not matter; the two zeros of doubles are equal.
* `Json.DistinctKeys`: no object repeats a key, which holds of every value read
  from text.
-/

namespace Criteria

/-- An integer that fits 64 bits, with or without a sign. -/
structure Integer where
  /-- The number itself. -/
  val : Int
  /-- Nothing below the least signed 64-bit number. -/
  lower : -0x8000000000000000 ≤ val
  /-- Nothing above the greatest unsigned 64-bit number. -/
  upper : val < 0x10000000000000000
deriving DecidableEq

namespace Integer

/-- The integer of this value, if it is in range. -/
def ofInt? (i : Int) : Option Integer :=
  if h : -0x8000000000000000 ≤ i ∧ i < 0x10000000000000000 then some ⟨i, h.1, h.2⟩ else none

/-- The nearest signed 64-bit number. -/
def clamp (i : Int) : Integer :=
  ⟨max (-0x8000000000000000) (min i 0x7FFFFFFFFFFFFFFF), by omega, by omega⟩

/-- An unsigned machine word. -/
def ofUInt64 (n : UInt64) : Integer :=
  ⟨n.toNat, by omega, by have := n.toNat_lt; omega⟩

/-- The value, if it is an unsigned machine word. -/
def toUInt64? (i : Integer) : Option UInt64 :=
  if 0 ≤ i.val then some (UInt64.ofNat i.val.toNat) else none

/-- The value, if it is a signed 64-bit number. -/
def signed? (i : Integer) : Option Int := if i.val < 0x8000000000000000 then some i.val else none

/-- The nearest double. -/
def toDouble (i : Integer) : Binary64 :=
  .ofInt i.val (by have := i.lower; have := i.upper; omega)

instance : Inhabited Integer := ⟨⟨0, by decide, by decide⟩⟩

end Integer

/-- A JSON number. -/
inductive Number where
  /-- A number written without fraction and exponent that fits 64 bits. -/
  | integer (i : Integer)
  /-- Any other number. -/
  | double (x : Binary64)
deriving DecidableEq

namespace Number

/-- The nearest double. -/
def toDouble : Number → Binary64
  | .integer i => i.toDouble
  | .double x => x

/-- The value, if it is a signed 64-bit integer. -/
def signed? : Number → Option Int
  | .integer i => i.signed?
  | .double _ => none

/-- Equality within a representation; integers and doubles are never equal. -/
def same : Number → Number → Bool
  | .integer i, .integer j => i.val == j.val
  | .double x, .double y => x.same y
  | _, _ => false

end Number

/-- A JSON value. -/
inductive Json where
  | null
  | bool (b : Bool)
  | number (n : Number)
  | string (s : String)
  | array (items : List Json)
  | object (members : List (String × Json))
deriving Inhabited

namespace Json

mutual

/-- Equality of values; the order of the members of an object is ignored. -/
def same : Json → Json → Bool
  | .null, .null => true
  | .bool a, .bool b => a == b
  | .number m, .number n => m.same n
  | .string s, .string t => s == t
  | .array xs, .array ys => sameItems xs ys
  | .object xs, .object ys => xs.length == ys.length && sameMembers xs ys
  | _, _ => false

/-- Equality item by item. -/
def sameItems : List Json → List Json → Bool
  | [], [] => true
  | x :: xs, y :: ys => same x y && sameItems xs ys
  | _, _ => false

/-- Every member of the first list has an equal one in the second. -/
def sameMembers : List (String × Json) → List (String × Json) → Bool
  | [], _ => true
  | (key, x) :: xs, ys =>
    (match ys.lookup key with
      | none => false
      | some y => same x y) && sameMembers xs ys

end

mutual

/-- No object in the value repeats a key. -/
def DistinctKeys : Json → Prop
  | .array items => DistinctKeysItems items
  | .object members => (members.map Prod.fst).Nodup ∧ DistinctKeysMembers members
  | _ => True

/-- No object in any of the values repeats a key. -/
def DistinctKeysItems : List Json → Prop
  | [] => True
  | x :: xs => DistinctKeys x ∧ DistinctKeysItems xs

/-- No object in any of the members' values repeats a key. -/
def DistinctKeysMembers : List (String × Json) → Prop
  | [] => True
  | (_, x) :: xs => DistinctKeys x ∧ DistinctKeysMembers xs

end

/-- The text of a string value. -/
def asString? : Json → Option String
  | .string s => some s
  | _ => none

/-- The truth value of a boolean. -/
def asBool? : Json → Option Bool
  | .bool b => some b
  | _ => none

/-- The nearest double of a number. -/
def asDouble? : Json → Option Binary64
  | .number n => some n.toDouble
  | _ => none

/-- The value of a number that is a signed 64-bit integer. -/
def asSigned? : Json → Option Int
  | .number n => n.signed?
  | _ => none

/-- The items of an array. -/
def asArray? : Json → Option (List Json)
  | .array items => some items
  | _ => none

/-- The members of an object. -/
def asObject? : Json → Option (List (String × Json))
  | .object members => some members
  | _ => none

/-- A number value from an integer, clamped to the signed 64-bit range. -/
def ofInt (i : Int) : Json := .number (.integer (.clamp i))

end Json

end Criteria
