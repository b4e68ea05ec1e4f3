import CidrTable.Trie

/-! Walking a trie from entry to entry.

A cursor keeps the nodes that are still to be visited, the next one in front. A node that is
visited leaves its children in its place, the one with the lower addresses in front of the
other; `Cursor.next?` visits nodes until one of them has a value, and `Cursor.entries` are all
the entries that it comes to before there is none. -/
namespace CidrTable

/-- A walk over a trie: the nodes still to be visited, the next one in front. -/
structure Cursor (V : Type) where
  pending : List (Node V)

variable {V : Type}

/-- The number of links, those that lead nowhere counted. -/
def Node.links : Node V → Nat
  | .empty => 1
  | .node _ _ zero one => 1 + zero.links + one.links

namespace Cursor

/-- Puts what hangs below a link in front of the nodes to be visited, if anything does. -/
def push : Node V → List (Node V) → List (Node V)
  | .empty, pending => pending
  | n, pending => n :: pending

/-- The links still to be followed. -/
def size (c : Cursor V) : Nat := c.pending.foldr (fun n links => n.links + links) 0

theorem size_cons (n : Node V) (rest : List (Node V)) :
    size ⟨n :: rest⟩ = n.links + size ⟨rest⟩ := rfl

theorem size_push_le (n : Node V) (rest : List (Node V)) :
    size ⟨push n rest⟩ ≤ n.links + size ⟨rest⟩ := by
  cases n with
  | empty => exact Nat.le_add_left ..
  | node => exact Nat.le_of_eq (size_cons ..)

/-- A visit leaves fewer links to be followed. -/
theorem size_visit_lt (p : Prefix) (w : Option V) (zero one : Node V) (rest : List (Node V)) :
    size ⟨push zero (push one rest)⟩ < size ⟨.node p w zero one :: rest⟩ := by
  have hzero := size_push_le zero (push one rest)
  have hone := size_push_le one rest
  rw [size_cons, Node.links]
  omega

/-- The next entry and the walk from there on. -/
def next? : Cursor V → Option ((Prefix × V) × Cursor V)
  | ⟨[]⟩ => none
  | ⟨.empty :: rest⟩ => next? ⟨rest⟩
  | ⟨.node p (some v) zero one :: rest⟩ => some ((p, v), ⟨push zero (push one rest)⟩)
  | ⟨.node _ none zero one :: rest⟩ => next? ⟨push zero (push one rest)⟩
termination_by c => c.size
decreasing_by
  · rw [size_cons, Node.links]
    omega
  · exact size_visit_lt ..

theorem size_lt_of_next? {c rest : Cursor V} {e : Prefix × V} (h : c.next? = some (e, rest)) :
    rest.size < c.size := by
  fun_induction next? c with
  | case1 => cases h
  | case2 pending ih =>
    have hlt := ih h
    rw [size_cons]
    omega
  | case3 =>
    obtain ⟨-, rfl⟩ := Prod.mk.inj (Option.some.inj h)
    exact size_visit_lt ..
  | case4 _ zero one pending ih => exact Nat.lt_trans (ih h) (size_visit_lt ..)

/-- The entries from here to the end of the walk. -/
def entries (c : Cursor V) : List (Prefix × V) :=
  match _h : c.next? with
  | none => []
  | some (e, rest) => e :: rest.entries
termination_by c.size
decreasing_by exact size_lt_of_next? _h

end Cursor

/-- The walk over all of a trie. -/
def Trie.cursor (t : Trie V) : Cursor V := ⟨Cursor.push t.root []⟩

end CidrTable
