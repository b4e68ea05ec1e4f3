/-! Fields: values under text keys, in the order of the keys.

The order is that of the keys' UTF-8 bytes, which is the order of their code points. A
key stands once; `put` replaces what it had. -/
namespace CidrTable

/-- Values under text keys. -/
abbrev Fields (α : Type) := List (String × α)

namespace Fields

variable {α β : Type}

/-- Puts a value under a key, at the key's place. -/
def put (key : String) (x : α) : Fields α → Fields α
  | [] => [(key, x)]
  | (k, y) :: rest =>
    if key < k then (key, x) :: (k, y) :: rest
    else if key = k then (key, x) :: rest
    else (k, y) :: put key x rest

def get? (fields : Fields α) (key : String) : Option α := List.lookup key fields

def has (fields : Fields α) (key : String) : Bool := (fields.get? key).isSome

/-- The fields that putting the pairs in turn leaves: of one key the last pair counts. -/
def ofPairs (pairs : List (String × α)) : Fields α :=
  pairs.foldl (fun fields (key, x) => fields.put key x) []

end Fields

end CidrTable
