import CidrTable.Json
import CidrTable.Schema

/-! Data as a reader presents it.

A self-describing format presents a document piece by piece; a `Datum` is the tree of
those pieces. It has more kinds than a document: characters, bytes, optional values,
integers of 128 bits, wrapped and tagged values, and keys of any kind. A reader may
also fail anywhere, which is the piece `broken`; what the reader says is of any type. -/
namespace CidrTable

/-- A piece of data from a reader whose failures are of type `ε`. -/
inductive Datum (ε : Type) where
  | bool (b : Bool)
  /-- A signed integer of at most 64 bits. -/
  | int (n : Int)
  /-- An unsigned integer of at most 64 bits. -/
  | uint (n : Nat)
  /-- A signed integer of 128 bits. -/
  | wideInt (n : Int)
  /-- An unsigned integer of 128 bits. -/
  | wideUint (n : Nat)
  | float (x : Binary64)
  | char (c : Char)
  | text (s : String)
  | bytes (bs : List UInt8)
  | unit
  | none
  | some (inner : Datum ε)
  /-- A value in a wrapper type. -/
  | wrapped (inner : Datum ε)
  /-- A variant of a tagged type, by name. -/
  | variant (name : String)
  | seq (items : List (Datum ε))
  | map (entries : List (Datum ε × Datum ε))
  /-- The reader fails here. -/
  | broken (e : ε)

namespace Datum

variable {ε : Type}

/-- Binary numbers as errors name them: positional at every size. -/
def plainLayout : Binary64.Layout where
  least := -400
  bound := 400
  plus := false
  tie := .up

/-- How an error names a piece of data. -/
def describe : Datum ε → String
  | bool b => "boolean `" ++ (if b then "true" else "false") ++ "`"
  | int n => "integer `" ++ toString n ++ "`"
  | uint n => "integer `" ++ toString n ++ "`"
  | wideInt n => "integer `" ++ toString n ++ "` as i128"
  | wideUint n => "integer `" ++ toString n ++ "` as u128"
  | float x => "floating point `" ++ String.ofList (plainLayout.write x) ++ "`"
  | char c => "character `" ++ String.singleton c ++ "`"
  | text s => "string " ++ Text.quoted s
  | bytes _ => "byte array"
  | unit => "unit value"
  | none => "Option value"
  | some _ => "Option value"
  | wrapped _ => "newtype struct"
  | variant _ => "enum"
  | seq _ => "sequence"
  | map _ => "map"
  | broken _ => "nothing"

mutual

/-- A document as a reader of documents presents it. -/
def ofJson : Json → Datum ε
  | .null => .unit
  | .bool b => .bool b
  | .whole n => if 0 ≤ n then .uint n.toNat else .int n
  | .real x => .float x
  | .text s => .text s
  | .array items => .seq (ofItems items)
  | .object fields => .map (ofFields fields)

def ofItems : List Json → List (Datum ε)
  | [] => []
  | j :: rest => ofJson j :: ofItems rest

def ofFields : List (String × Json) → List (Datum ε × Datum ε)
  | [] => []
  | (key, j) :: rest => (.text key, ofJson j) :: ofFields rest

end

end Datum

end CidrTable
