import CidrTable.Proofs.Order
import CidrTable.Proofs.Trie.Refinement
import CidrTable.Trie.Cursor

/-! A walk over a trie comes to its entries in order.

What remains of a walk is listed below the nodes still to be visited (`Cursor.remaining`). A step
takes the first of it (`remaining_eq_next?`), so the whole walk is the list (`entries_cursor`).
In a well-formed node the list rises: the stem is in front of both sides, and one side in
front of the other (`WellFormed.rises`). So a trie that represents a map is walked through the
map's entries in the order of their prefixes, and a branching node is passed over
(`Represents.walksInOrder`). -/
namespace CidrTable

variable {V : Type}

/-! ### What remains of a walk -/

namespace Cursor

/-- The entries below the nodes still to be visited. -/
def remaining (c : Cursor V) : List (Prefix × V) := c.pending.flatMap Node.toList

theorem remaining_cons (n : Node V) (rest : List (Node V)) :
    remaining ⟨n :: rest⟩ = n.toList ++ remaining ⟨rest⟩ := List.flatMap_cons

theorem remaining_push (n : Node V) (rest : List (Node V)) :
    remaining ⟨push n rest⟩ = n.toList ++ remaining ⟨rest⟩ := by
  cases n with
  | empty => rfl
  | node => exact remaining_cons ..

theorem remaining_visit (p : Prefix) (w : Option V) (zero one : Node V) (rest : List (Node V)) :
    remaining ⟨.node p w zero one :: rest⟩ =
      (w.map (p, ·)).toList ++ remaining ⟨push zero (push one rest)⟩ := by
  rw [remaining_cons, remaining_push, remaining_push, Node.toList]
  simp only [List.append_assoc]

/-- **A step of a walk takes the first of what remains**, and there is none where nothing does. -/
theorem remaining_eq_next? (c : Cursor V) :
    c.remaining = (c.next?.map fun s => s.1 :: s.2.remaining).getD [] := by
  fun_induction next? c with
  | case1 => rfl
  | case2 rest ih =>
    rw [remaining_cons]
    exact ih
  | case3 p v zero one rest => exact remaining_visit p (some v) zero one rest
  | case4 p zero one rest ih =>
    rw [remaining_visit]
    exact ih

/-- A walk to the end comes to all that remains. -/
theorem entries_eq_remaining (c : Cursor V) : c.entries = c.remaining := by
  fun_induction entries c with
  | case1 c hnext =>
    rw [remaining_eq_next?, hnext]
    rfl
  | case2 c e rest hnext ih =>
    rw [remaining_eq_next? c, hnext, ih]
    rfl

end Cursor

/-- **The walk over a trie is the list of its entries.** -/
theorem Trie.entries_cursor (t : Trie V) : t.cursor.entries = t.toList := by
  rw [Cursor.entries_eq_remaining, cursor, Cursor.remaining_push]
  exact List.append_nil _

/-! ### The order of the list -/

namespace Node

theorem WellFormed.rises {n : Node V} (h : n.WellFormed) :
    n.toList.Pairwise fun a b => a.1.compare b.1 = .lt := by
  induction n with
  | empty => exact .nil
  | node p w zero one ihz iho =>
    obtain ⟨hz, wz⟩ := h.child false
    obtain ⟨ho, wo⟩ := h.child true
    have hsides : (zero.toList ++ one.toList).Pairwise fun a b => a.1.compare b.1 = .lt := by
      refine List.pairwise_append.mpr ⟨ihz wz, iho wo, fun a ha b hb => ?_⟩
      exact Prefix.compare_of_sides (hz.inside_of_mem wz ha) (ho.inside_of_mem wo hb)
    cases w with
    | none => exact hsides
    | some v =>
      refine List.pairwise_cons.mpr ⟨fun e he => ?_, hsides⟩
      have he : e ∈ zero.toList ++ one.toList := he
      rcases List.mem_append.mp he with he | he
      · exact Prefix.compare_of_inside (hz.inside_of_mem wz he)
      · exact Prefix.compare_of_inside (ho.inside_of_mem wo he)

/-! ### Branching nodes -/

/-- The nodes, each with what it holds, in front of those below it. -/
def stems : Node V → List (Prefix × Option V)
  | .empty => []
  | .node p w zero one => (p, w) :: (zero.stems ++ one.stems)

theorem mem_stems_node (p : Prefix) (w : Option V) (zero one : Node V) (s : Prefix × Option V) :
    s ∈ (Node.node p w zero one).stems ↔ s = (p, w) ∨ ∃ b, s ∈ (slot b zero one).stems := by
  simp [stems, slot]

theorem Hangs.inside_of_mem_stems {p : Prefix} {b : Bool} {n : Node V} (h : n.Hangs p b)
    (hn : n.WellFormed) {s : Prefix × Option V} (hs : s ∈ n.stems) : s.1.Inside p b := by
  induction n generalizing p b with
  | empty => cases hs
  | node q w zero one ihz iho =>
    have hq : q.Inside p b := h
    rcases (mem_stems_node q w zero one s).mp hs with rfl | ⟨c, hs⟩
    · exact hq
    · cases c
      · exact ihz ((hn.child false).1.outward hq) (hn.child false).2 hs
      · exact iho ((hn.child true).1.outward hq) (hn.child true).2 hs

/-- The prefix of a branching node is not among the entries. -/
theorem WellFormed.not_mem_of_branching {n : Node V} (h : n.WellFormed) {p : Prefix}
    (hp : (p, none) ∈ n.stems) {e : Prefix × V} (he : e ∈ n.toList) : e.1 ≠ p := by
  induction n with
  | empty => cases he
  | node q w zero one ihz iho =>
    rcases (mem_stems_node q w zero one _).mp hp with hown | ⟨b, hp⟩
    · obtain ⟨rfl, rfl⟩ := Prod.mk.inj hown
      rcases h.own_or_inside he with ⟨-, hw⟩ | ⟨c, hin, -⟩
      · cases hw
      · exact hin.ne
    · have hside := (h.child b).1.inside_of_mem_stems (h.child b).2 hp
      rcases h.own_or_inside he with ⟨rfl, -⟩ | ⟨c, hin, he⟩
      · exact hside.ne.symm
      · by_cases hcb : c = b
        · subst hcb
          cases c
          · exact ihz (h.child false).2 hp he
          · exact iho (h.child true).2 hp he
        · rintro rfl
          exact hcb (hin.side_unique hside)

end Node

/-! ### The walk over a trie -/

namespace Trie

/-- A walk over a trie that stands for a map. -/
structure WalksInOrder (t : Trie V) (M : Prefix → Option V) : Prop where
  /-- The walk comes to the entries of the map and to nothing else. -/
  mem_iff : ∀ p v, (p, v) ∈ t.cursor.entries ↔ M p = some v
  /-- It comes to each once, by bits and then by length. -/
  rises : t.cursor.entries.Pairwise fun a b => a.1.compare b.1 = .lt
  /-- What it comes to later lies around nothing that it has come to before. -/
  outer_first : t.cursor.entries.Pairwise fun a b => b.1.contains a.1 = false
  length : t.cursor.entries.length = t.size
  /-- It passes over the nodes without a value. -/
  branching : ∀ p, (p, none) ∈ t.root.stems → ∀ e ∈ t.cursor.entries, e.1 ≠ p

/-- **A trie is walked in the order of its prefixes.** -/
theorem Represents.walksInOrder {t : Trie V} {M : Prefix → Option V} (h : t.Represents M) :
    t.WalksInOrder M := by
  have hrises : t.toList.Pairwise fun a b => a.1.compare b.1 = .lt := h.wellFormed.root.rises
  constructor <;> rw [t.entries_cursor]
  case mem_iff => exact h.mem_iff
  case rises => exact hrises
  case outer_first => exact hrises.imp Prefix.not_contains_of_compare
  case length => exact h.wellFormed.size.symm
  case branching => exact fun p hp e he => h.wellFormed.root.not_mem_of_branching hp he

end Trie

end CidrTable
