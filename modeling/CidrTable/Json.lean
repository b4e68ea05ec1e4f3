import CidrTable.Binary64
import CidrTable.Fields

/-! JSON documents.

Whole numbers and binary numbers are apart, as `1` and `1.0` are. An object holds its
fields in the order in which they were written, repeats included; `Json.canonical` gives
the document that later reading goes by, where fields are in order of their keys and of
a repeated key the last one counts. -/
namespace CidrTable

inductive Json where
  | null
  | bool (b : Bool)
  | whole (n : Int)
  | real (x : Binary64)
  | text (s : String)
  | array (items : List Json)
  | object (fields : List (String × Json))

namespace Json

mutual

/-- The document with every object's fields in key order, the last of a repeated key kept. -/
def canonical : Json → Json
  | .array items => .array (canonicalItems items)
  | .object fields => .object (Fields.ofPairs (canonicalFields fields))
  | j => j

def canonicalItems : List Json → List Json
  | [] => []
  | j :: rest => canonical j :: canonicalItems rest

def canonicalFields : List (String × Json) → List (String × Json)
  | [] => []
  | (key, j) :: rest => (key, canonical j) :: canonicalFields rest

end

/-- A binary number as a document: one that is not finite has no numeral and is null. -/
def ofBinary64 (x : Binary64) : Json := if x.isFinite then .real x else .null

end Json

end CidrTable
