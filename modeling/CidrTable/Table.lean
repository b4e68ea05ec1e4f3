import CidrTable.Trie.Cursor
import CidrTable.Schema

/-! Tables keyed by subnets.

A table answers an address with the value of its most specific subnet. It holds a trie
unless it is empty; IPv4 subnets live behind `::ffff:0:0/96`. The canonical form lists
the entries under the text of their prefixes. -/
namespace CidrTable

/-- A table of values under prefixes; without entries there is no trie. -/
structure Table (V : Type) where
  trie : Option (Trie V) := none

namespace Table

variable {V : Type}

def empty : Table V := ⟨none⟩

/-- The table of a trie's entries. -/
def ofTrie (t : Trie V) : Table V := if t.isEmpty then empty else ⟨some t⟩

def size (t : Table V) : Nat := (t.trie.map Trie.size).getD 0

def isEmpty (t : Table V) : Bool := t.size == 0

/-- The entries in order of their prefixes. -/
def toList (t : Table V) : List (Prefix × V) := (t.trie.map Trie.toList).getD []

/-- The entries as a walk over the trie comes to them. -/
def walk (t : Table V) : List (Prefix × V) := (t.trie.map fun trie => trie.cursor.entries).getD []

/-! ### Looking addresses up -/

/-- The most specific prefix around an address, with its value. -/
def lookupMatch (t : Table V) (a : Address) : Option (Prefix × V) :=
  t.trie.bind (·.lookup a.toPrefix)

/-- The most specific value for an address. -/
def lookup (t : Table V) (a : Address) : Option V := (t.lookupMatch a).map Prod.snd

/-- The most specific value for an address and whether there is one, else the fallback. -/
def lookupOr (t : Table V) (fallback : V) (a : Address) : V × Bool :=
  match t.lookup a with
  | some v => (v, true)
  | none => (fallback, false)

/-! ### Canonical form -/

/-- The entries under the text of their prefixes, in order of the prefixes. -/
def canonicalEntries (t : Table V) : List (String × V) :=
  t.toList.map fun (p, v) => (p.text, v)

/-- The entries under the text of their prefixes, in order of the texts. -/
def canonicalFields (t : Table V) : Fields V := Fields.ofPairs t.canonicalEntries

/-- The table as a document, its entries in order of the prefixes. -/
def encode (S : Schema V) (t : Table V) : Json :=
  .object (t.canonicalEntries.map fun (key, v) => (key, S.encode v))

/-- The canonical fields as a document. -/
def encodeFields (S : Schema V) (t : Table V) : Json :=
  .object (t.canonicalFields.map fun (key, v) => (key, S.encode v))

/-- A map as its writer is told of it: how many entries are coming, then each of them. -/
structure Announced where
  count : Nat
  entries : List (String × Json)

/-- What the writer of a table is told. -/
def announce (S : Schema V) (t : Table V) : Announced where
  count := t.size
  entries := t.walk.map fun (p, v) => (p.text, S.encode v)

end Table

/-- Entries under quoted keys, as shown to a reader. -/
def inspectEntries {V : Type} (inspect : V → String) (entries : List (Prefix × V)) : String :=
  "\x7b" ++ ", ".intercalate
    (entries.map fun (p, v) => Text.quoted p.text ++ ": " ++ inspect v) ++ "\x7d"

/-- The table as shown to a reader. -/
def Table.inspect {V : Type} (S : Schema V) (t : Table V) : String :=
  "SubnetMap \x7b trie: " ++
    (match t.trie with
    | some trie => "Some(" ++ inspectEntries S.inspect trie.toList ++ ")"
    | none => "None") ++ " \x7d"

end CidrTable
