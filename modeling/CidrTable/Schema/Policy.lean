import CidrTable.Schema.Scalar

/-! Schemas of two policy values: a classifier, which is a record with a field that has a
default, and an action, which is one of three variants. -/
namespace CidrTable

/-- How traffic of a subnet is classified. -/
structure Classifier where
  name : String
  boundary : Bool
  deriving DecidableEq

namespace Classifier

/-- What the record is called where one is expected. -/
def expected : String := "struct Classifier"

/-- Reads the fields of an object in turn onto those read before. -/
def ofFields (name : Option String) (boundary : Option Bool) :
    List (String × Json) → Except ValueError Classifier
  | [] =>
    match name with
    | some n => .ok ⟨n, boundary.getD false⟩
    | none => .error (.missingField "name")
  | (key, j) :: rest =>
    if key = "name" then do
      let n ← j.asText
      ofFields (some n) boundary rest
    else if key = "boundary" then do
      let b ← j.asBool
      ofFields name (some b) rest
    else .error (.unknownField key ["name", "boundary"])

/-- Reads the fields by position. -/
def ofItems : List Json → Except ValueError Classifier
  | [] => .error (.tooShort 0 (expected ++ " with 2 elements"))
  | [name] => do .ok ⟨← name.asText, false⟩
  | name :: boundary :: rest => do
    let n ← name.asText
    let b ← boundary.asBool
    if rest.isEmpty then .ok ⟨n, b⟩ else .error (.tooLong (rest.length + 2))

/-- A classifier, from an object or from a list. -/
def ofJson : Json → Except ValueError Classifier
  | .object fields => ofFields none none fields
  | .array items => ofItems items
  | j => j.unexpected expected

end Classifier

/-- What is done with the traffic of a subnet. -/
inductive Action where
  | allow
  | deny
  | limit (n : UInt32)
  deriving DecidableEq

namespace Action

def variants : List String := ["allow", "deny", "limit"]

/-- A variant without a value accepts null as one. -/
def bare (a : Action) : Option Json → Except ValueError Action
  | none => .ok a
  | some .null => .ok a
  | some j => j.unexpected "unit"

/-- The action of a variant's name and its value, if it comes with one. -/
def ofVariant (name : String) (value : Option Json) : Except ValueError Action :=
  if name = "allow" then bare .allow value
  else if name = "deny" then bare .deny value
  else if name = "limit" then
    match value with
    | some j => j.asUInt32.map .limit
    | none => .error (.wrongKind "unit variant" "newtype variant")
  else .error (.unknownVariant name variants)

/-- An action, from a variant's name or from an object with the name as its key. -/
def ofJson : Json → Except ValueError Action
  | .text s => ofVariant s none
  | .object [(key, j)] => ofVariant key (some j)
  | .object _ => .error .notOneField
  | j => j.unexpected "string or map"

end Action

namespace Schema

def classifier (name : String) : Schema Classifier where
  name := name
  decode j := pure (Classifier.ofJson j)
  encode c := .object [("name", .text c.name), ("boundary", .bool c.boundary)]
  fallback := ⟨"", false⟩
  inspect c :=
    "Classifier \x7b name: " ++ Text.quoted c.name ++ ", boundary: " ++
      (if c.boundary then "true" else "false") ++ " \x7d"

def action (name : String) : Schema Action where
  name := name
  decode j := pure (Action.ofJson j)
  encode
    | .allow => .text "allow"
    | .deny => .text "deny"
    | .limit n => .object [("limit", .whole n.toNat)]
  fallback := .allow
  inspect
    | .allow => "Allow"
    | .deny => "Deny"
    | .limit n => "Limit(" ++ toString n.toNat ++ ")"

end Schema

end CidrTable
