import CidrTable.Datum.Read
import CidrTable.Json.Reader
import CidrTable.Table.Decode

/-! Decoding tables from any reader's data.

The rules are those for documents. A map is read to its end before any of its keys is
checked, so a reader's failure leaves no record and no metric. There is no way to hand
data back: what is neither a map nor a value is an error. A reader of documents reports
an error as a message with a place (`Table.readJson`); a reader of JSON text gives a message
without one the place at which it stands in the text (`Table.ofText`). -/
namespace CidrTable

/-- Why data does not decode as a table. -/
inductive DatumError (ε : Type) where
  | read (e : ReadError ε)
  | decode (e : DecodeError)
  deriving DecidableEq

/-- What is said of the data; `ofReader` words the reader's own failures. -/
def DatumError.message {ε : Type} (ofReader : ε → String) : DatumError ε → String
  | read e => e.message ofReader
  | decode e => e.message

/-- Why JSON text holds no table. -/
inductive Json.Failure where
  /-- It is no document. -/
  | malformed (e : SyntaxError)
  /-- The document holds no table; the message says why. -/
  | data (report : Located)
  deriving DecidableEq

/-- The failure that a reader of JSON text makes of an error, once it has read this front. -/
def Json.Failure.ofDatumError (front : List Char) : DatumError SyntaxError → Failure
  | .read (.reader e) => malformed e
  | e => data ((Located.ofString (e.message fun _ => "")).orBehind front)

namespace Datum

variable {ε : Type}

/-- A key of a table's map: text, or a thing of another kind. -/
def toKey : Datum ε → Except (ReadError ε) RawKey
  | char c => .ok (.text (String.singleton c))
  | text s => .ok (.text s)
  | bool _ => .ok (.other "bool")
  | int _ => .ok (.other "int")
  | uint _ => .ok (.other "uint")
  | float _ => .ok (.other "float")
  | bytes _ => .ok (.other "bytes")
  | unit => .ok (.other "null")
  | seq items => do
    skipItems items
    .ok (.other "sequence")
  | map entries => do
    skipEntries entries
    .ok (.other "map")
  | d => d.refuse "a map key"

def toEntries : List (Datum ε × Datum ε) → Except (ReadError ε) (List (RawKey × Json))
  | [] => .ok []
  | (key, d) :: rest => do
    let k ← key.toKey
    let j ← d.toJson
    let entries ← toEntries rest
    .ok ((k, j) :: entries)

end Datum

namespace Table

variable {V ε : Type}

/-- What a table expects, as an error says it. -/
def expected (S : Schema V) : String := "a map of subnets to " ++ S.name ++ " or a single value"

/-- Counts an outcome; a decline is an error here. -/
def finish (S : Schema V) (o : Outcome V) : Reported (Except (DatumError ε) (Table V)) := do
  let o ← o.counted
  pure ((o.toExcept S).mapError .decode)

/-- Decodes a bare value and counts the outcome. -/
def ofBare (S : Schema V) (raw : Json) : Reported (Except (DatumError ε) (Table V)) := do
  finish S (← Outcome.ofBare S raw)

/-- The table that a piece of data holds, or why it holds none. -/
def ofDatum (S : Schema V) : Datum ε → Reported (Except (DatumError ε) (Table V))
  | .map entries =>
    match Datum.toEntries entries with
    | .error e => pure (.error (.read e))
    | .ok entries => do finish S (Outcome.ofExcept (← ofEntries S entries))
  | .unit => finish S (.handled .empty)
  | .none => finish S (.handled .empty)
  | .some inner => ofDatum S inner
  | .bool b => ofBare S (.bool b)
  | .int n => ofBare S (.whole n)
  | .uint n => ofBare S (.whole n)
  | .float x => ofBare S (.ofBinary64 x)
  | .char c => ofBare S (.text (String.singleton c))
  | .text s => ofBare S (.text s)
  | .seq items =>
    match Datum.toItems items with
    | .error e => pure (.error (.read e))
    | .ok items => ofBare S (.array items)
  | d => pure ((d.refuse (expected S)).mapError .read)

/-- The table that a document holds, or what its reader reports. -/
def readJson (S : Schema V) (raw : Json) : Reported (Except Located (Table V)) := do
  let t ← ofDatum S (Datum.ofJson raw : Datum Empty)
  pure (t.mapError fun e => Located.ofString (e.message nofun))

/-- The table that a JSON text holds, or why it holds none. What follows the document is
looked at only once it has decoded. -/
def ofText (S : Schema V) (s : String) : Reported (Except Json.Failure (Table V)) :=
  match Json.readFront s.toList with
  | .error e => pure (.error (.malformed e))
  | .ok (j, rest) => do
    let t ← ofDatum S (Datum.ofJson j : Datum Json.SyntaxError)
    pure ((t.mapError (.ofDatumError (Json.frontOf s.toList rest))).bind fun t =>
      if (Json.skipBlanks rest).isEmpty then .ok t else .error (.malformed .malformed))

end Table

/-- Tables as the values of a table, got from a reader of documents. -/
def Schema.table {V : Type} (name : String) (S : Schema V)
    (order : Arrangement (Table V) := .byKey) : Schema (Table V) where
  name := name
  decode j := do
    let t ← Table.readJson S j
    pure (t.mapError .table)
  order := order
  encode := Table.encode S
  fallback := .empty
  inspect := Table.inspect S

end CidrTable
