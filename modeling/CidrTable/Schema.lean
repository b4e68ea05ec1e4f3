import CidrTable.Json.Writer
import CidrTable.Located
import CidrTable.Report

/-! The values a table holds.

A `Schema` says all that a table needs to know of its values: the name they are reported
under, how a document decodes to one, how one is written as a document and shown to a
reader, and the value that stands for a miss. Decoding may itself log and count, as it
does when the values are tables.

A document is decoded in two ways: for good, when it is given away, and to see whether it
is a value at all, when it is only lent. Nothing makes the two agree, though those of most
values do (`Schema.DecodesAlike`). Decoded values are held in a store that gives them back
in an order of its own. -/
namespace CidrTable

/-- Why a document does not decode as a value. -/
inductive ValueError where
  /-- The document is of another kind. -/
  | wrongKind (found expected : String)
  /-- The integer is outside the type. -/
  | outOfRange (n : Int) (expected : String)
  /-- A tagged value has to be an object of one field. -/
  | notOneField
  | unknownField (name : String) (known : List String)
  | missingField (name : String)
  | unknownVariant (name : String) (known : List String)
  /-- A list ends before a field that has no default. -/
  | tooShort (length : Nat) (expected : String)
  /-- A list goes on after the last field. -/
  | tooLong (length : Nat)
  /-- A table inside the table fails, as its reader reports. -/
  | table (report : Located)
  deriving DecidableEq

namespace ValueError

/-- Names between backticks, as alternatives. -/
def alternatives (names : List String) : String :=
  match names.map fun n => "`" ++ n ++ "`" with
  | [a] => a
  | [a, b] => a ++ " or " ++ b
  | names => "one of " ++ ", ".intercalate names

def message : ValueError → String
  | wrongKind found expected => "invalid type: " ++ found ++ ", expected " ++ expected
  | outOfRange n expected =>
    "invalid value: integer `" ++ toString n ++ "`, expected " ++ expected
  | notOneField => "invalid value: map, expected map with a single key"
  | unknownField name known => "unknown field `" ++ name ++ "`, expected " ++ alternatives known
  | missingField name => "missing field `" ++ name ++ "`"
  | unknownVariant name known =>
    "unknown variant `" ++ name ++ "`, expected " ++ alternatives known
  | tooShort length expected =>
    "invalid length " ++ toString length ++ ", expected " ++ expected
  | tooLong length =>
    "invalid length " ++ toString length ++ ", expected fewer elements in array"
  | table report => report.write

/-- The error as a reader of documents reports it. -/
def report : ValueError → Located
  | table report => report
  | e => .ofString e.message

end ValueError

/-- How an error names the document it found. -/
def Json.describe : Json → String
  | .null => "null"
  | .bool b => "boolean `" ++ (if b then "true" else "false") ++ "`"
  | .whole n => "integer `" ++ toString n ++ "`"
  | .real x => "floating point `" ++ numeral x ++ "`"
  | .text s => "string " ++ Text.quoted s
  | .array _ => "sequence"
  | .object _ => "map"

def Json.unexpected {α : Type} (j : Json) (expected : String) : Except ValueError α :=
  .error (.wrongKind j.describe expected)

/-- The order in which values come out of a store, which promises none. -/
structure Arrangement (V : Type) where
  arrange : List (String × V) → List (String × V)
  perm : ∀ values, (arrange values).Perm values

/-- The order of the keys. -/
def Arrangement.byKey {V : Type} : Arrangement V := ⟨id, fun _ => .refl _⟩

/-- What a table knows of its values. -/
structure Schema (V : Type) where
  /-- The name in messages. -/
  name : String
  /-- What a document that is given away decodes to. -/
  decode : Json → Reported (Except ValueError V)
  /-- What a document that is only lent decodes to. -/
  peek : Json → Reported (Except ValueError V) := decode
  /-- The order in which decoded values come out of the store between them and the table. -/
  order : Arrangement V := .byKey
  encode : V → Json
  /-- The value that stands for a miss. -/
  fallback : V
  /-- The value as shown to a reader. -/
  inspect : V → String

/-- A document that is lent decodes to what it decodes to when it is given away. -/
def Schema.DecodesAlike {V : Type} (S : Schema V) : Prop :=
  ∀ j x, (S.peek j).result = .ok x ↔ (S.decode j).result = .ok x

end CidrTable
