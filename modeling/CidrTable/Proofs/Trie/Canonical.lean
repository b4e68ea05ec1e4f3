import CidrTable.Proofs.Trie.Refinement

/-! A trie is determined by its entries.

The stem of a well-formed node is the longest prefix around all its entries
(`WellFormed.contains_stem`), so entries fix the stem, the stem's own value and what lies
on either side: two well-formed nodes with the same entries are equal
(`WellFormed.eq_of_entries`), and so are two tries that represent one map
(`Trie.Represents.unique`). So a trie shows the last writes that made it and nothing else
of its history (`Trie.ofList_eq_iff_lastWrite`). -/
namespace CidrTable

variable {V : Type}

namespace Node

theorem WellFormed.exists_mem {n : Node V} (h : n.WellFormed) (hne : n ≠ .empty) :
    ∃ e, e ∈ n.toList := by
  induction h with
  | empty => exact absurd rfl hne
  | @node q w zero one _ _ hbranch _ _ ihz _ =>
    cases w with
    | some v => exact ⟨(q, v), (mem_toList_node ..).mpr (Or.inl ⟨rfl, rfl⟩)⟩
    | none =>
      obtain ⟨e, he⟩ := ihz (hbranch rfl).1
      exact ⟨e, (mem_toList_node ..).mpr (Or.inr (Or.inl he))⟩

/-- Whatever is around all entries is around the stem. -/
theorem WellFormed.contains_stem {q : Prefix} {w : Option V} {zero one : Node V}
    (h : (Node.node q w zero one).WellFormed) {r : Prefix}
    (hr : ∀ e ∈ (Node.node q w zero one).toList, r.contains e.1 = true) : r.contains q = true := by
  cases h with
  | node hz ho hbranch wz wo =>
    cases w with
    | some v => exact hr (q, v) ((mem_toList_node ..).mpr (Or.inl ⟨rfl, rfl⟩))
    | none =>
      -- A branching stem has entries on both sides, and a longer `r` would be on one of them.
      obtain ⟨e₀, he₀⟩ := wz.exists_mem (hbranch rfl).1
      obtain ⟨e₁, he₁⟩ := wo.exists_mem (hbranch rfl).2
      have hin₀ := hz.inside_of_mem wz he₀
      have hin₁ := ho.inside_of_mem wo he₁
      have hr₀ := hr e₀ ((mem_toList_node ..).mpr (Or.inr (Or.inl he₀)))
      have hr₁ := hr e₁ ((mem_toList_node ..).mpr (Or.inr (Or.inr he₁)))
      have hlen : r.len ≤ q.len := by
        by_contra hgt
        have hbit := (Prefix.bit_of_contains hr₀ q.len (by omega)).symm.trans
          (Prefix.bit_of_contains hr₁ q.len (by omega))
        rw [hin₀.side, hin₁.side] at hbit
        cases hbit
      exact Prefix.contains_of_contains hr₀ hin₀.contains hlen

theorem WellFormed.own_iff {q : Prefix} {w : Option V} {zero one : Node V}
    (h : (Node.node q w zero one).WellFormed) (v : V) :
    w = some v ↔ (q, v) ∈ (Node.node q w zero one).toList := by
  constructor
  · exact fun hw => (mem_toList_node ..).mpr (Or.inl ⟨rfl, hw⟩)
  · intro he
    rcases h.own_or_inside he with ⟨_, hw⟩ | ⟨b, hin, _⟩
    · exact hw
    · exact absurd rfl hin.ne

/-- The entries of a child are those of the node on its side. -/
theorem WellFormed.mem_child_iff {q : Prefix} {w : Option V} {zero one : Node V}
    (h : (Node.node q w zero one).WellFormed) (b : Bool) (e : Prefix × V) :
    e ∈ (slot b zero one).toList ↔ e.1.Inside q b ∧ e ∈ (Node.node q w zero one).toList := by
  obtain ⟨hangs, wf⟩ := h.child b
  constructor
  · intro he
    have hin := hangs.inside_of_mem wf he
    exact ⟨hin, (h.mem_slot_iff hin).mpr he⟩
  · intro hboth
    obtain ⟨hin, he⟩ := hboth
    exact (h.mem_slot_iff hin).mp he

/-- **Well-formed nodes with the same entries are equal.** -/
theorem WellFormed.eq_of_entries {m n : Node V} (hm : m.WellFormed) (hn : n.WellFormed)
    (h : ∀ e, e ∈ m.toList ↔ e ∈ n.toList) : m = n := by
  induction m generalizing n with
  | empty =>
    by_contra hne
    obtain ⟨e, he⟩ := hn.exists_mem (Ne.symm hne)
    cases (h e).mpr he
  | node q w zero one ihz iho =>
    cases n with
    | empty =>
      obtain ⟨e, he⟩ := hm.exists_mem (by simp)
      cases (h e).mp he
    | node r u zero' one' =>
      have hrq : r.contains q = true :=
        hm.contains_stem fun e he => hn.contains_of_mem ((h e).mp he)
      have hqr : q.contains r = true :=
        hn.contains_stem fun e he => hm.contains_of_mem ((h e).mpr he)
      obtain rfl : r = q := Prefix.eq_of_contains hrq (Prefix.len_le_of_contains hqr)
      have hvalue : w = u := by
        apply Option.ext
        intro v
        rw [hm.own_iff, hn.own_iff, h]
      have hchild : ∀ b e, e ∈ (slot b zero one).toList ↔ e ∈ (slot b zero' one').toList := by
        intro b e
        rw [hm.mem_child_iff, hn.mem_child_iff, h]
      have hzero : zero = zero' := ihz (hm.child false).2 (hn.child false).2 (hchild false)
      have hone : one = one' := iho (hm.child true).2 (hn.child true).2 (hchild true)
      rw [hvalue, hzero, hone]

end Node

namespace Trie

/-- **Two tries that represent one map are equal.** -/
theorem Represents.unique {s t : Trie V} {M : Prefix → Option V} (hs : s.Represents M)
    (ht : t.Represents M) : s = t := by
  have hroot : s.root = t.root :=
    hs.wellFormed.root.eq_of_entries ht.wellFormed.root fun e =>
      (hs.mem_iff e.1 e.2).trans (ht.mem_iff e.1 e.2).symm
  have hsize : s.size = t.size := by
    rw [hs.wellFormed.size, ht.wellFormed.size, toList, toList, hroot]
  cases s
  cases t
  cases hroot
  cases hsize
  rfl

theorem ofList_congr {xs ys : List (Prefix × V)} (h : ∀ p, lastWrite xs p = lastWrite ys p) :
    ofList xs = ofList ys := by
  have hmap : lastWrite xs = lastWrite ys := funext h
  have hxs := represents_ofList xs
  rw [hmap] at hxs
  exact hxs.unique (represents_ofList ys)

/-- **A trie keeps nothing of its history**: two lists of writes leave the same nodes and the
same size exactly if every prefix has the same last value in both. -/
theorem ofList_eq_iff_lastWrite (xs ys : List (Prefix × V)) :
    ofList xs = ofList ys ↔ ∀ p, lastWrite xs p = lastWrite ys p := by
  constructor
  · intro h p
    rw [← (represents_ofList xs).get?_eq, ← (represents_ofList ys).get?_eq, h]
  · exact ofList_congr

end Trie

end CidrTable
