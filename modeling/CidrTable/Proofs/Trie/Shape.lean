import CidrTable.Proofs.Nesting

/-! The shape of a trie and what an insertion does to it.

`Node.Inserts` says once all that an insertion can do: it makes a leaf, replaces a value,
descends on one side, puts a node above another, or splits at a branch; `insert_inserts`
is that `Node.insert` does one of these. `Node.WellFormed` is the invariant: children hang
strictly inside their node, each on its own side, and a node without a value branches.
Every insertion keeps it (`Inserts.wellFormed`), and below a well-formed link every entry
lies inside the stem (`WellFormed.contains_of_mem`). -/
namespace CidrTable.Node

variable {V : Type}

/-! ### Two slots -/

def slot (b : Bool) (zero one : Node V) : Node V := if b then one else zero

/-- A node is a fork seen from either slot. -/
theorem fork_slot (q : Prefix) (w : Option V) (b : Bool) (zero one : Node V) :
    fork q w b (slot b zero one) (slot (!b) zero one) = .node q w zero one := by
  cases b <;> rfl

@[simp] theorem toList_empty : (Node.empty : Node V).toList = [] := rfl

theorem mem_toList_leaf (p : Prefix) (v : V) (e : Prefix × V) :
    e ∈ (Node.node p (some v) .empty .empty).toList ↔ e = (p, v) := by
  simp [toList]

theorem mem_toList_node (q : Prefix) (w : Option V) (zero one : Node V) (e : Prefix × V) :
    e ∈ (Node.node q w zero one).toList ↔
      (e.1 = q ∧ w = some e.2) ∨ e ∈ zero.toList ∨ e ∈ one.toList := by
  obtain ⟨p, v⟩ := e
  cases w <;> simp [toList, eq_comm]

theorem mem_toList_fork (q : Prefix) (w : Option V) (b : Bool) (inner other : Node V) (e : Prefix × V) :
    e ∈ (fork q w b inner other).toList ↔
      (e.1 = q ∧ w = some e.2) ∨ e ∈ inner.toList ∨ e ∈ other.toList := by
  cases b
  · exact mem_toList_node q w inner other e
  · show e ∈ (Node.node q w other inner).toList ↔ _
    rw [mem_toList_node, or_comm (a := e ∈ other.toList)]

theorem length_toList_fork (q : Prefix) (w : Option V) (b : Bool) (inner other : Node V) :
    (fork q w b inner other).toList.length =
      w.toList.length + inner.toList.length + other.toList.length := by
  cases b <;> cases w <;> simp [fork, toList] <;> omega

/-! ### What an insertion can do -/

/-- Storing `v` under `p` turns the first node into the second and gives back what it replaced. -/
inductive Inserts (p : Prefix) (v : V) : Node V → Node V → Option V → Prop where
  | leaf : Inserts p v .empty (.node p (some v) .empty .empty) none
  | replace (w : Option V) (zero one : Node V) :
      Inserts p v (.node p w zero one) (.node p (some v) zero one) w
  | descend {q : Prefix} {b : Bool} {inner inner' : Node V} {old : Option V} (w : Option V)
      (other : Node V) : p.Inside q b → Inserts p v inner inner' old →
      Inserts p v (fork q w b inner other) (fork q w b inner' other) old
  | above {q : Prefix} {b : Bool} (w : Option V) (zero one : Node V) : q.Inside p b →
      Inserts p v (.node q w zero one) (fork p (some v) b (.node q w zero one) .empty) none
  | split {q r : Prefix} {b : Bool} (w : Option V) (zero one : Node V) :
      p.Inside r (!b) → q.Inside r b →
      Inserts p v (.node q w zero one)
        (fork r none b (.node q w zero one) (.node p (some v) .empty .empty)) none

/-- **An insertion does one of the five things.** -/
theorem insert_inserts (p : Prefix) (v : V) (n : Node V) :
    Inserts p v n (n.insert p v).1 (n.insert p v).2 := by
  induction n with
  | empty => exact .leaf
  | node q w zero one ihz iho =>
    have hm := p.placement_means q
    simp only [insert]
    generalize p.placement q = place at hm ⊢
    cases place with
    | same =>
      cases hm
      exact .replace w zero one
    | below b =>
      cases b
      · exact .descend (b := false) w one hm ihz
      · exact .descend (b := true) w zero hm iho
    | above b => exact .above w zero one hm
    | apart r b => exact .split w zero one hm.1 hm.2

/-! ### Well-formed nodes -/

/-- What hangs below the link, if anything, stands for a prefix inside `p` on the side of `b`. -/
def Hangs (p : Prefix) (b : Bool) : Node V → Prop
  | .empty => True
  | .node q _ _ _ => q.Inside p b

/-- Children hang inside their node, each on its side; a node without a value has both. -/
inductive WellFormed : Node V → Prop where
  | empty : WellFormed .empty
  | node {q : Prefix} {w : Option V} {zero one : Node V} (zero_hangs : zero.Hangs q false)
      (one_hangs : one.Hangs q true) (branches : w = none → zero ≠ .empty ∧ one ≠ .empty)
      (zero_wellFormed : zero.WellFormed) (one_wellFormed : one.WellFormed) :
      WellFormed (.node q w zero one)

theorem wellFormed_fork {q : Prefix} {w : Option V} {b : Bool} {inner other : Node V} :
    (fork q w b inner other).WellFormed ↔ inner.Hangs q b ∧ other.Hangs q (!b) ∧
      (w = none → inner ≠ .empty ∧ other ≠ .empty) ∧ inner.WellFormed ∧ other.WellFormed := by
  cases b
  · constructor
    · intro h
      rcases h with _ | ⟨hz, ho, hb, wz, wo⟩
      exact ⟨hz, ho, hb, wz, wo⟩
    · intro h
      obtain ⟨hz, ho, hb, wz, wo⟩ := h
      exact .node hz ho hb wz wo
  · constructor
    · intro h
      rcases h with _ | ⟨hz, ho, hb, wz, wo⟩
      exact ⟨ho, hz, fun h => (hb h).symm, wo, wz⟩
    · intro h
      obtain ⟨ho, hz, hb, wo, wz⟩ := h
      exact .node hz ho (fun h => (hb h).symm) wz wo

/-- What hangs inside a prefix hangs inside whatever is around that prefix. -/
theorem Hangs.outward {p q : Prefix} {b c : Bool} {n : Node V} (h : n.Hangs q c)
    (hq : q.Inside p b) : n.Hangs p b := by
  cases n with
  | empty => trivial
  | node r w zero one => exact hq.of_contains (Prefix.Inside.contains h)

theorem Hangs.inside_of_mem {p : Prefix} {b : Bool} {n : Node V} (h : n.Hangs p b) (hn : n.WellFormed)
    {e : Prefix × V} (he : e ∈ n.toList) : e.1.Inside p b := by
  induction hn generalizing p b with
  | empty => simp [toList] at he
  | @node q w zero one hz ho _ _ _ ihz iho =>
    have hq : q.Inside p b := h
    rcases (mem_toList_node q w zero one e).mp he with ⟨rfl, _⟩ | he | he
    · exact hq
    · exact ihz (hz.outward hq) he
    · exact iho (ho.outward hq) he

theorem WellFormed.contains_of_mem {q : Prefix} {w : Option V} {zero one : Node V}
    (h : (Node.node q w zero one).WellFormed) {e : Prefix × V}
    (he : e ∈ (Node.node q w zero one).toList) : q.contains e.1 = true := by
  cases h with
  | node hz ho _ wz wo =>
    rcases (mem_toList_node q w zero one e).mp he with ⟨rfl, _⟩ | he | he
    · exact Prefix.contains_refl _
    · exact (hz.inside_of_mem wz he).contains
    · exact (ho.inside_of_mem wo he).contains

/-! ### Insertion keeps the shape -/

theorem wellFormed_leaf (p : Prefix) (v : V) : (Node.node p (some v) .empty .empty).WellFormed :=
  .node trivial trivial (by simp) .empty .empty

theorem Inserts.ne_empty {p : Prefix} {v : V} {n n' : Node V} {old : Option V}
    (h : Inserts p v n n' old) : n' ≠ .empty := by
  cases h with
  | leaf => simp
  | replace => simp
  | @descend _ b => cases b <;> simp [fork]
  | @above _ b => cases b <;> simp [fork]
  | @split _ _ b => cases b <;> simp [fork]

/-- An insertion inside `q` on the side of `b` leaves a node that hangs there. -/
theorem Inserts.hangs {p q : Prefix} {b : Bool} {v : V} {n n' : Node V} {old : Option V}
    (h : Inserts p v n n' old) (hn : n.Hangs q b) (hp : p.Inside q b) : n'.Hangs q b := by
  cases h with
  | leaf => exact hp
  | replace => exact hp
  | @descend _ c => cases c <;> exact hn
  | @above _ c => cases c <;> exact hp
  | @split s r c w zero one hpr hsr =>
    have hr : r.Inside q b := hp.of_parting (s := s) hn hpr hsr
    cases c <;> exact hr

/-- **Every insertion keeps a node well-formed.** -/
theorem Inserts.wellFormed {p : Prefix} {v : V} {n n' : Node V} {old : Option V}
    (h : Inserts p v n n' old) (hn : n.WellFormed) : n'.WellFormed := by
  induction h with
  | leaf => exact wellFormed_leaf p v
  | replace w zero one =>
    cases hn with
    | node hz ho _ wz wo => exact .node hz ho (by simp) wz wo
  | descend w other hp hi ih =>
    obtain ⟨hin, hother, hb, win, wother⟩ := wellFormed_fork.mp hn
    exact wellFormed_fork.mpr
      ⟨hi.hangs hin hp, hother, fun hw => ⟨hi.ne_empty, (hb hw).2⟩, ih win, wother⟩
  | above w zero one hq => exact wellFormed_fork.mpr ⟨hq, trivial, by simp, hn, .empty⟩
  | split w zero one hp hq =>
    exact wellFormed_fork.mpr ⟨hq, hp, by simp, hn, wellFormed_leaf p v⟩

theorem WellFormed.insert {n : Node V} (h : n.WellFormed) (p : Prefix) (v : V) :
    (n.insert p v).1.WellFormed := (insert_inserts p v n).wellFormed h

end CidrTable.Node
