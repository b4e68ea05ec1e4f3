import CidrTable.Schema

/-! Schemas of single values: texts, integers of a width, booleans, binary numbers and
whole documents. Integers stand for binary numbers too, but a binary number never for an
integer. -/
namespace CidrTable

namespace Json

def asText : Json → Except ValueError String
  | .text s => .ok s
  | j => j.unexpected "a string"

def asBool : Json → Except ValueError Bool
  | .bool b => .ok b
  | j => j.unexpected "a boolean"

/-- An integer from `low` to `high`, expected under a type's name. -/
def asInteger (low high : Int) (expected : String) : Json → Except ValueError Int
  | .whole n => if low ≤ n ∧ n ≤ high then .ok n else .error (.outOfRange n expected)
  | j => j.unexpected expected

def asUInt32 (j : Json) : Except ValueError UInt32 :=
  (j.asInteger 0 0xFFFFFFFF "u32").map fun n => UInt32.ofNat n.toNat

def asInt8 (j : Json) : Except ValueError Int8 :=
  (j.asInteger (-128) 127 "i8").map Int8.ofInt

def asBinary64 : Json → Except ValueError Binary64
  | .whole n => .ok (.ofInt n)
  | .real x => .ok x
  | j => j.unexpected "f64"

mutual

/-- A document as shown to a reader. -/
def inspect : Json → String
  | .null => "Null"
  | .bool b => "Bool(" ++ (if b then "true" else "false") ++ ")"
  | .whole n => "Number(" ++ toString n ++ ")"
  | .real x => "Number(" ++ numeral x ++ ")"
  | .text s => "String(" ++ Text.quoted s ++ ")"
  | .array items => "Array [" ++ ", ".intercalate (inspectItems items) ++ "]"
  | .object fields => "Object \x7b" ++ ", ".intercalate (inspectFields fields) ++ "\x7d"

def inspectItems : List Json → List String
  | [] => []
  | j :: rest => inspect j :: inspectItems rest

def inspectFields : List (String × Json) → List String
  | [] => []
  | (key, j) :: rest => (Text.quoted key ++ ": " ++ inspect j) :: inspectFields rest

end

end Json

namespace Schema

/-- How binary numbers are shown to a reader. -/
def shownLayout : Binary64.Layout where
  least := -4
  bound := 16
  plus := false
  tie := .up

def text (name : String) : Schema String where
  name := name
  decode j := pure j.asText
  encode := .text
  fallback := ""
  inspect := Text.quoted

def uint32 (name : String) : Schema UInt32 where
  name := name
  decode j := pure j.asUInt32
  encode n := .whole n.toNat
  fallback := 0
  inspect n := toString n.toNat

def int8 (name : String) : Schema Int8 where
  name := name
  decode j := pure j.asInt8
  encode n := .whole n.toInt
  fallback := 0
  inspect n := toString n.toInt

def bool (name : String) : Schema Bool where
  name := name
  decode j := pure j.asBool
  encode := .bool
  fallback := false
  inspect b := if b then "true" else "false"

def binary64 (name : String) : Schema Binary64 where
  name := name
  decode j := pure j.asBinary64
  encode := .ofBinary64
  fallback := .finite false 0
  inspect x := String.ofList (shownLayout.write x)

def document (name : String) : Schema Json where
  name := name
  decode j := pure (.ok j)
  encode := id
  fallback := .null
  inspect := Json.inspect

end Schema

end CidrTable
