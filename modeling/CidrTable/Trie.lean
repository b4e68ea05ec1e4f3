import CidrTable.Subnet

/-! A path-compressed binary trie over prefixes.

Every node carries the whole prefix it stands for. A node without a value is a
branching point, made where two prefixes part. `Node.insert` places a prefix by
comparing it with one node at a time (`Prefix.placement`) and says what value it
replaced; `Node.steps` is the record of those comparisons. `Node.get?` looks for
exactly one prefix, `Node.lookup` for the deepest stored prefix around another, and
`Node.toList` lists the entries, outer prefixes first and lower addresses first. -/
namespace CidrTable

/-- Where a prefix belongs relative to a node. -/
inductive Placement where
  /-- It is the node's own prefix. -/
  | same
  /-- It is inside the node, on the side of its next bit. -/
  | below (bit : Bool)
  /-- The node is inside it, on the side of the node's next bit. -/
  | above (bit : Bool)
  /-- Both part at `branch`, the node on the side of its next bit. -/
  | apart (branch : Prefix) (bit : Bool)
  deriving DecidableEq

/-- Where `p` belongs relative to a node that stands for `q`. -/
def Prefix.placement (p q : Prefix) : Placement :=
  let shared := Word.commonLength p.bits q.bits (min p.len q.len)
  if shared = q.len then
    if p.len = q.len then .same else .below (p.bit q.len)
  else if shared = p.len then .above (q.bit shared)
  else .apart (p.truncate shared) (q.bit shared)

/-- One comparison on the way to a prefix's place. -/
inductive Step where
  | leaf
  | replace
  | descend (node : Prefix) (bit : Bool)
  | above (node : Prefix)
  | split (branch : Prefix)
  deriving DecidableEq

/-- The record of one comparison while `p` is inserted. -/
def Step.text (p : Prefix) (s : Step) : String :=
  "[INSERT] " ++ p.text ++ ": " ++
    match s with
    | leaf => "empty link, new leaf"
    | replace => "exact match, replacing value"
    | descend node bit =>
      "descending below " ++ node.text ++ " (bit " ++ (if bit then "1" else "0") ++ ")"
    | above node => "insert above " ++ node.text
    | split branch => "split at " ++ branch.text

/-- The part of a trie below a link. -/
inductive Node (V : Type) where
  | empty
  | node (stem : Prefix) (value : Option V) (zero one : Node V)

namespace Node

variable {V : Type}

/-- A node with `inside` in the slot of `bit` and `other` in the slot beside it. -/
def fork (p : Prefix) (value : Option V) (bit : Bool) (inside other : Node V) : Node V :=
  if bit then .node p value other inside else .node p value inside other

/-- Stores a value under a prefix and gives back the value it replaced. -/
def insert (p : Prefix) (v : V) : Node V → Node V × Option V
  | .empty => (.node p (some v) .empty .empty, none)
  | .node q w zero one =>
    match p.placement q with
    | .same => (.node q (some v) zero one, w)
    | .below false =>
      let (zero', old) := zero.insert p v
      (.node q w zero' one, old)
    | .below true =>
      let (one', old) := one.insert p v
      (.node q w zero one', old)
    | .above bit => (fork p (some v) bit (.node q w zero one) .empty, none)
    | .apart branch bit =>
      (fork branch none bit (.node q w zero one) (.node p (some v) .empty .empty), none)

/-- The comparisons that an insertion makes. -/
def steps (p : Prefix) : Node V → List Step
  | .empty => [.leaf]
  | .node q _ zero one =>
    match p.placement q with
    | .same => [.replace]
    | .below false => .descend q false :: zero.steps p
    | .below true => .descend q true :: one.steps p
    | .above _ => [.above q]
    | .apart branch _ => [.split branch]

/-- The value stored under exactly this prefix. -/
def get? (p : Prefix) : Node V → Option V
  | .empty => none
  | .node q w zero one =>
    if q = p then w
    else if !q.contains p || p.len ≤ q.len then none
    else if p.bit q.len then one.get? p else zero.get? p

/-- The deepest stored prefix around `q`, with its value. -/
def lookup (q : Prefix) : Node V → Option (Prefix × V)
  | .empty => none
  | .node p w zero one =>
    if p.contains q then
      let own := w.map (p, ·)
      if q.len ≤ p.len then own
      else (if q.bit p.len then one.lookup q else zero.lookup q).or own
    else none

/-- The entries, each prefix before the ones inside it, lower addresses first. -/
def toList : Node V → List (Prefix × V)
  | .empty => []
  | .node p w zero one => (w.map (p, ·)).toList ++ (zero.toList ++ one.toList)

end Node

/-- A trie and the number of values in it. -/
structure Trie (V : Type) where
  root : Node V := .empty
  size : Nat := 0

namespace Trie

variable {V : Type}

/-- The trie that holds nothing. -/
def empty : Trie V := ⟨.empty, 0⟩

/-- Stores a value under a prefix and gives back the value it replaced. -/
def insert (t : Trie V) (p : Prefix) (v : V) : Trie V × Option V :=
  let (root, old) := t.root.insert p v
  (⟨root, if old.isNone then t.size + 1 else t.size⟩, old)

/-- The records that inserting a prefix writes. -/
def record (t : Trie V) (p : Prefix) : List String := (t.root.steps p).map (Step.text p)

/-- Whether nothing is stored. -/
def isEmpty (t : Trie V) : Bool := t.size == 0

/-- The value stored under exactly this prefix. -/
def get? (t : Trie V) (p : Prefix) : Option V := t.root.get? p

/-- The deepest stored prefix around `q`, with its value. -/
def lookup (t : Trie V) (q : Prefix) : Option (Prefix × V) := t.root.lookup q

/-- The entries in order of their prefixes. -/
def toList (t : Trie V) : List (Prefix × V) := t.root.toList

/-- Stores entries in turn. -/
def insertList (t : Trie V) (entries : List (Prefix × V)) : Trie V :=
  entries.foldl (fun t e => (t.insert e.1 e.2).1) t

/-- The trie that inserting the entries in turn leaves. -/
def ofList (entries : List (Prefix × V)) : Trie V := empty.insertList entries

/-- The records that storing entries in turn writes. -/
def recordList (t : Trie V) : List (Prefix × V) → List String
  | [] => []
  | (p, v) :: rest => t.record p ++ (t.insert p v).1.recordList rest

end Trie

end CidrTable
