import CidrTable.Datum

/-! Reading documents and texts from data.

`Datum.toJson` reads a whole document, `Datum.skip` reads past a piece without keeping
it. Both go through the pieces in order and stop at the first failure, the reader's own
or a piece that does not fit. -/
namespace CidrTable

/-- Why a piece of data could not be read. -/
inductive ReadError (ε : Type) where
  /-- The reader failed. -/
  | reader (e : ε)
  /-- The piece is of the wrong kind. -/
  | unexpected (found expected : String)
  /-- Bytes that should be text are not UTF-8. -/
  | notText
  /-- An integer of 128 bits does not fit 64. -/
  | numberOutOfRange
  deriving DecidableEq

/-- What is said of the data; `ofReader` words the reader's own failures. -/
def ReadError.message {ε : Type} (ofReader : ε → String) : ReadError ε → String
  | reader e => ofReader e
  | unexpected found expected => "invalid type: " ++ found ++ ", expected " ++ expected
  | notText => "invalid value: byte array, expected a string"
  | numberOutOfRange => "JSON number out of range"

namespace Datum

variable {ε : Type}

/-- The failure of a piece where another kind is expected; the reader's own comes first. -/
def refuse {α : Type} (d : Datum ε) (expected : String) : Except (ReadError ε) α :=
  match d with
  | broken e => .error (.reader e)
  | d => .error (.unexpected d.describe expected)

/-- The first key of an object. -/
def firstKey : Datum ε → Except (ReadError ε) String
  | char c => .ok (String.singleton c)
  | text s => .ok s
  | d => d.refuse "a string key"

/-- A later key of an object, for which the bytes of a text do as well. -/
def laterKey : Datum ε → Except (ReadError ε) String
  | char c => .ok (String.singleton c)
  | text s => .ok s
  | bytes bs =>
    match String.fromUTF8? ⟨bs.toArray⟩ with
    | Option.some s => .ok s
    | Option.none => .error .notText
  | d => d.refuse "a string"

/-- An integer of 128 bits, if a document can hold it. -/
def narrow (n : Int) : Except (ReadError ε) Json :=
  if -0x8000000000000000 ≤ n ∧ n ≤ 0xFFFFFFFFFFFFFFFF then .ok (.whole n)
  else .error .numberOutOfRange

mutual

/-- Reads a document. Absent values and numbers that are not finite are null. -/
def toJson : Datum ε → Except (ReadError ε) Json
  | bool b => .ok (.bool b)
  | int n => .ok (.whole n)
  | uint n => .ok (.whole n)
  | wideInt n => narrow n
  | wideUint n => narrow n
  | float x => .ok (.ofBinary64 x)
  | char c => .ok (.text (String.singleton c))
  | text s => .ok (.text s)
  | unit => .ok .null
  | none => .ok .null
  | some inner => toJson inner
  | seq items => (toItems items).map .array
  | map entries => (toFields true entries).map fun fields => .object (Fields.ofPairs fields)
  | d => d.refuse "any valid JSON value"

def toItems : List (Datum ε) → Except (ReadError ε) (List Json)
  | [] => .ok []
  | d :: rest => do
    let j ← toJson d
    let js ← toItems rest
    .ok (j :: js)

/-- Reads the fields of an object, as they stand. -/
def toFields (first : Bool) : List (Datum ε × Datum ε) → Except (ReadError ε) (List (String × Json))
  | [] => .ok []
  | (key, d) :: rest => do
    let k ← if first then key.firstKey else key.laterKey
    let j ← toJson d
    let fields ← toFields false rest
    .ok ((k, j) :: fields)

end

mutual

/-- Reads past a piece. A variant would need a value to be passed over. -/
def skip : Datum ε → Except (ReadError ε) Unit
  | some inner => skip inner
  | wrapped inner => skip inner
  | variant _ => .error (.unexpected "unit variant" "newtype variant")
  | seq items => skipItems items
  | map entries => skipEntries entries
  | broken e => .error (.reader e)
  | _ => .ok ()

def skipItems : List (Datum ε) → Except (ReadError ε) Unit
  | [] => .ok ()
  | d :: rest => do
    skip d
    skipItems rest

def skipEntries : List (Datum ε × Datum ε) → Except (ReadError ε) Unit
  | [] => .ok ()
  | (key, d) :: rest => do
    skip key
    skip d
    skipEntries rest

end

end Datum

end CidrTable
