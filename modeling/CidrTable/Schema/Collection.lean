import CidrTable.Schema.Scalar

/-! Schemas of values made of 32-bit integers: one that may be absent, lists, and fields.
Lists and fields stop at the first value that does not decode. -/
namespace CidrTable

namespace Json

/-- Null, or what `item` reads. -/
def asOption {α : Type} (item : Json → Except ValueError α) : Json → Except ValueError (Option α)
  | .null => .ok none
  | j => (item j).map some

/-- A list of what `item` reads. -/
def asList {α : Type} (item : Json → Except ValueError α) : Json → Except ValueError (List α)
  | .array items => items.mapM item
  | j => j.unexpected "a sequence"

/-- Fields of what `item` reads. -/
def asFields {α : Type} (item : Json → Except ValueError α) : Json → Except ValueError (Fields α)
  | .object fields =>
    Fields.ofPairs <$> fields.mapM fun (key, j) => (item j).map fun x => (key, x)
  | j => j.unexpected "a map"

end Json

namespace Schema

def optionUInt32 (name : String) : Schema (Option UInt32) where
  name := name
  decode j := pure (j.asOption Json.asUInt32)
  encode
    | none => .null
    | some n => .whole n.toNat
  fallback := none
  inspect
    | none => "None"
    | some n => "Some(" ++ toString n.toNat ++ ")"

def listUInt32 (name : String) : Schema (List UInt32) where
  name := name
  decode j := pure (j.asList Json.asUInt32)
  encode ns := .array (ns.map fun n => .whole n.toNat)
  fallback := []
  inspect ns := "[" ++ ", ".intercalate (ns.map fun n => toString n.toNat) ++ "]"

def fieldsUInt32 (name : String) : Schema (Fields UInt32) where
  name := name
  decode j := pure (j.asFields Json.asUInt32)
  encode fields := .object (fields.map fun (key, n) => (key, .whole n.toNat))
  fallback := []
  inspect fields :=
    "\x7b" ++ ", ".intercalate
      (fields.map fun (key, n) => Text.quoted key ++ ": " ++ toString n.toNat) ++ "\x7d"

end Schema

end CidrTable
