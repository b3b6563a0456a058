import Criteria.Json.Printer
import Criteria.Options.Basic
import Criteria.Text.Quoted

/-!
# Reading options from JSON

Options are written as an object, whose members may use any of the accepted
spellings and may stand in any order, or as a list by position.  What is not
given keeps its standard value and unknown members are ignored.  The first fault
in reading order is reported; an option that is given twice is reported before
its second value is looked at.
-/

namespace Criteria

/-- What a value of the wrong type is called in messages. -/
def Json.describe : Json → String
  | .null => "null"
  | .bool b => "boolean `" ++ (if b then "true" else "false") ++ "`"
  | .number (.integer i) => "integer `" ++ toString i.val ++ "`"
  | .number (.double x) => "floating point `" ++ x.text ++ "`"
  | .string s => "string " ++ Quoted.quote s
  | .array _ => "sequence"
  | .object _ => "map"

/-- Why options cannot be read. -/
inductive ReadFault where
  /-- A value of the wrong type. -/
  | wrongType (found : Json) (expected : String)
  /-- A negative number of levels. -/
  | negativeDepth (found : Int)
  /-- An option given twice. -/
  | duplicate (option : String)
  /-- A list with more items than there are options. -/
  | tooLong (length : Nat)
  /-- An output mode that does not exist. -/
  | unknownMode (name : String)
  /-- An output mode written as an object with no or several members. -/
  | manyModes

namespace ReadFault

/-- The message. -/
def message : ReadFault → String
  | .wrongType found expected =>
    "invalid type: " ++ found.describe ++ ", expected " ++ expected
  | .negativeDepth found =>
    "invalid value: integer `" ++ toString found ++ "`, expected usize"
  | .duplicate option => "duplicate field `" ++ option ++ "`"
  | .tooLong length =>
    "invalid length " ++ toString length ++ ", expected fewer elements in array"
  | .unknownMode name =>
    "unknown variant `" ++ name ++ "`, expected `function` or `string`"
  | .manyModes => "invalid value: map, expected map with a single key"

end ReadFault

namespace Options

/-- The options by name. -/
inductive Field where
  | entryName
  | optimize
  | negationKey
  | outputMode
  | maxDepth
deriving DecidableEq, Repr

namespace Field

/-- The fields in the order of their positions. -/
def all : List Field := [.entryName, .optimize, .negationKey, .outputMode, .maxDepth]

/-- The spelling that is written. -/
def name : Field → String
  | .entryName => "entry_name"
  | .optimize => "optimize"
  | .negationKey => "negation_key"
  | .outputMode => "output_mode"
  | .maxDepth => "max_operator_depth"

/-- All spellings that are read. -/
def spellings : Field → List String
  | .entryName => ["entry_name", "entryName", "entry"]
  | .optimize => ["optimize"]
  | .negationKey => ["negation_key", "negationKey", "negation"]
  | .outputMode => ["output_mode", "outputMode"]
  | .maxDepth => ["max_operator_depth", "maxOperatorDepth"]

/-- The field with the given spelling. -/
def ofSpelling? (key : String) : Option Field := all.find? (·.spellings.contains key)

end Field

/-- A string value. -/
def readString : Json → Except ReadFault String
  | .string s => .ok s
  | v => .error (.wrongType v "a string")

/-- A boolean value. -/
def readBool : Json → Except ReadFault Bool
  | .bool b => .ok b
  | v => .error (.wrongType v "a boolean")

/-- A number of levels. -/
def readDepth : Json → Except ReadFault UInt64
  | .number (.integer i) =>
    match i.toUInt64? with
    | some n => .ok n
    | none => .error (.negativeDepth i.val)
  | v => .error (.wrongType v "usize")

/-- An output mode by name. -/
def readModeName (name : String) : Except ReadFault OutputMode :=
  if name = "function" then .ok .function
  else if name = "string" then .ok .string
  else .error (.unknownMode name)

/-- An output mode: its name, or an object with the name as only key and `null`
as value. -/
def readMode : Json → Except ReadFault OutputMode
  | .string name => readModeName name
  | .object [(name, content)] =>
    match readModeName name, content with
    | .error fault, _ => .error fault
    | .ok mode, .null => .ok mode
    | .ok _, v => .error (.wrongType v "unit")
  | .object _ => .error .manyModes
  | v => .error (.wrongType v "string or map")

/-- The options with one field read from a value. -/
def set (o : Options) (value : Json) : Field → Except ReadFault Options
  | .entryName => (readString value).map fun s => { o with entryName := s }
  | .optimize => (readBool value).map fun b => { o with optimize := b }
  | .negationKey => (readString value).map fun s => { o with negationKey := s }
  | .outputMode => (readMode value).map fun m => { o with outputMode := m }
  | .maxDepth => (readDepth value).map fun n => { o with maxDepth := n }

/-- Members of an object read one after another; `given` are the fields read so
far. -/
def readMembers (o : Options) (given : List Field) :
    List (String × Json) → Except ReadFault Options
  | [] => .ok o
  | (key, value) :: rest =>
    match Field.ofSpelling? key with
    | none => readMembers o given rest
    | some field =>
      if given.contains field then .error (.duplicate field.name)
      else
        match o.set value field with
        | .error fault => .error fault
        | .ok o => readMembers o (field :: given) rest

/-- Items of a list read by position. -/
def readItems (o : Options) : List Field → List Json → Except ReadFault Options
  | field :: fields, value :: rest =>
    match o.set value field with
    | .error fault => .error fault
    | .ok o => readItems o fields rest
  | _, _ => .ok o

/-- Options from JSON. -/
def ofJson : Json → Except ReadFault Options
  | .object members => readMembers standard [] members
  | .array items =>
    match readItems standard Field.all items with
    | .error fault => .error fault
    | .ok o =>
      if items.length ≤ Field.all.length then .ok o else .error (.tooLong items.length)
  | v => .error (.wrongType v "struct CompileOptions")

end Options

end Criteria
