import CidrTable.Table
import CidrTable.Table.Error

/-! Decoding tables from documents.

The keys are checked first, in order, and replaced by the canonical text of their
prefixes; of entries with one prefix the last one counts. Then the values decode, in
order of the canonical texts, and last the table is built from those texts, in an order
that nothing fixes. An object holds the entries of a table, null is the empty table, and
any other document that decodes as a value is the value of the whole address space. -/
namespace CidrTable

/-- A key as it comes from a document: text, or a thing of another kind. -/
inductive RawKey where
  | text (s : String)
  | other (kind : String)
  deriving DecidableEq

namespace Table

variable {V : Type}

/-! ### Entries -/

/-- The place of a key whose mask is as wide as the addresses of a family. -/
def normalize (index : Nat) (key : Subnet.Key) : Except DecodeError Prefix :=
  if key.maskBits = 32 ∨ key.maskBits = 128 then .ok key.toPrefix
  else .error (.maskWidth index key.maskBits)

/-- A key as written and the canonical text of its prefix, or why the key is refused. -/
def checkKey (index : Nat) (key : RawKey) : Except DecodeError (String × String) :=
  match key with
  | .other kind => .error (.keyKind index kind)
  | .text written =>
    match Subnet.Key.ofString written with
    | .error cause => .error (.subnet index written cause)
    | .ok k => (normalize index k).map fun p => (written, p.text)

/-- Checks the keys in order and collects the values under the canonical texts; `index`
counts the keys, `done` holds what came before. -/
def collect (index : Nat) (done : Fields Json) :
    List (RawKey × Json) → Reported (Except DecodeError (Fields Json))
  | [] => pure (.ok done)
  | (key, j) :: rest =>
    match checkKey index key with
    | .error e => pure (.error e)
    | .ok (written, canonical) => do
      Reported.log (.accepted index written canonical)
      if done.has canonical then Reported.log (.overridden index written canonical)
      collect (index + 1) (done.put canonical j) rest

/-- Decodes values in order, up to the first that fails. -/
def decodeValues (S : Schema V) : Fields Json → Reported (Except DecodeError (List (String × V)))
  | [] => pure (.ok [])
  | (key, j) :: rest => do
    match ← S.decode j with
    | .error e => pure (.error (.value S.name e.report))
    | .ok v =>
      let vs ← decodeValues S rest
      pure (vs.map ((key, v) :: ·))

/-- Inserts values under the prefixes their keys denote; `index` counts the keys. The trie
writes down every comparison that it makes. -/
def insertAll (index : Nat) (trie : Trie V) :
    List (String × V) → Reported (Except DecodeError (Trie V))
  | [] => pure (.ok trie)
  | (key, v) :: rest =>
    match Prefix.ofString key with
    | .error cause => pure (.error (.subnet index key cause))
    | .ok p => do
      Reported.logAll ((trie.record p).map .inserted)
      insertAll (index + 1) (trie.insert p v).1 rest

/-- The table of a list of entries whose decoded values are inserted in a given order. -/
def ofEntriesIn (A : Arrangement V) (S : Schema V) (entries : List (RawKey × Json)) :
    Reported (Except DecodeError (Table V)) := do
  match ← collect 0 [] entries with
  | .error e => pure (.error e)
  | .ok fields =>
    match ← decodeValues S fields with
    | .error e => pure (.error e)
    | .ok values =>
      match ← insertAll 0 .empty (A.arrange values) with
      | .error e => pure (.error e)
      | .ok trie =>
        Reported.log (.built trie.size)
        pure (.ok (ofTrie trie))

/-- The table of a list of entries. -/
def ofEntries (S : Schema V) (entries : List (RawKey × Json)) :
    Reported (Except DecodeError (Table V)) := ofEntriesIn S.order S entries

end Table

/-! ### Documents -/

/-- What became of a document offered for decoding. -/
inductive Outcome (V : Type) where
  | handled (table : Table V)
  /-- It is handed back untouched. -/
  | declined (raw : Json)
  | failed (e : DecodeError)

namespace Outcome

variable {V : Type}

def ofExcept : Except DecodeError (Table V) → Outcome V
  | .ok t => .handled t
  | .error e => .failed e

/-- The table, or why there is none; a decline is the error that names the values' type. -/
def toExcept (S : Schema V) : Outcome V → Except DecodeError (Table V)
  | .handled t => .ok t
  | .declined _ => .error (.notApplicable S.name)
  | .failed e => .error e

def isHandled : Outcome V → Bool
  | .handled _ => true
  | _ => false

/-- The metrics that count an outcome. -/
def metrics : Outcome V → List Metric
  | .handled t => [⟨"subnetmap_decodes_total", 1⟩, ⟨"subnetmap_entries", t.size⟩]
  | .declined _ => [⟨"subnetmap_declined_total", 1⟩]
  | .failed _ => [⟨"subnetmap_decode_failures_total", 1⟩]

def counted (o : Outcome V) : Reported (Outcome V) := do
  Reported.count o.metrics
  pure o

/-- The key that stands for the whole address space. -/
def wholeSpace : String := "::/0"

/-- A bare value for the whole address space. It is lent to see whether it is one, and then
given away as the entry of the table. -/
def ofBare (S : Schema V) (raw : Json) : Reported (Outcome V) := do
  match ← S.peek raw with
  | .error e =>
    Reported.log (.refused S.name e.report.write)
    pure (.declined raw)
  | .ok _ => ofExcept <$> Table.ofEntries S [(.text wholeSpace, raw)]

/-- Decodes a document without counting the outcome. -/
def uncounted (S : Schema V) : Json → Reported (Outcome V)
  | .null => pure (.handled .empty)
  | .object fields =>
    ofExcept <$> Table.ofEntries S (fields.map fun (key, j) => (.text key, j))
  | raw => ofBare S raw

/-- Decodes a document and counts the outcome. -/
def ofJson (S : Schema V) (raw : Json) : Reported (Outcome V) := uncounted S raw >>= counted

end Outcome

/-- The table that a document holds, or why it holds none. -/
def Table.ofJson {V : Type} (S : Schema V) (raw : Json) :
    Reported (Except DecodeError (Table V)) :=
  Outcome.toExcept S <$> Outcome.ofJson S raw

end CidrTable
