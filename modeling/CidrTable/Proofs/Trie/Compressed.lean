import CidrTable.Proofs.Trie.Walk
import Mathlib.Data.Fintype.Card

/-! How large and how deep a trie gets.

A well-formed node has fewer nodes than twice its entries (`WellFormed.length_stems_le`), and
on a `Path` from a link downwards each prefix lies inside the one before it (`Path.rises`), so
there is one node at most for each length (`Path.length_le`). Reading goes down one such path,
the `descent`, and looks at nothing else (`get?_eq_descent`, `lookup_eq_descent`); inserting
compares with one node at a time on the way (`WellFormed.length_steps_le`).
`Trie.ofList_compressed` puts all of it together for the tries that writes leave. -/
namespace CidrTable

variable {V : Type}

namespace Node

/-! ### How many nodes there are -/

theorem countP_stems (n : Node V) : n.stems.countP (·.2.isSome) = n.toList.length := by
  induction n with
  | empty => rfl
  | node q w zero one ihz iho =>
    cases w <;> simp [stems, toList, List.countP_append, ihz, iho]

/-- **There are fewer nodes than twice the entries**, as a node without a value has both sides. -/
theorem WellFormed.length_stems_le {n : Node V} (h : n.WellFormed) :
    n.stems.length ≤ 2 * n.toList.length - 1 := by
  induction h with
  | empty => exact Nat.zero_le _
  | @node q w zero one _ _ hbranch _ _ ihz iho =>
    have hlength : (Node.node q w zero one).stems.length =
        1 + zero.stems.length + one.stems.length := by
      simp [stems]
      omega
    have hentries : (Node.node q w zero one).toList.length =
        w.toList.length + zero.toList.length + one.toList.length :=
      length_toList_fork q w false zero one
    have hnode : ∀ m : Node V, m ≠ .empty → 0 < m.stems.length := by
      intro m hm
      cases m with
      | empty => exact absurd rfl hm
      | node => exact Nat.succ_pos _
    rw [hlength, hentries]
    cases w with
    | some v =>
      simp only [Option.toList_some, List.length_singleton]
      omega
    | none =>
      have hzero := hnode zero (hbranch rfl).1
      have hone := hnode one (hbranch rfl).2
      simp only [Option.toList_none, List.length_nil]
      omega

/-! ### Paths -/

/-- A way down from a link: the nodes on it, each with what it holds. -/
inductive Path : Node V → List (Prefix × Option V) → Prop where
  | stop (n : Node V) : Path n []
  | step {q : Prefix} {w : Option V} {zero one : Node V} {rest : List (Prefix × Option V)}
      (b : Bool) : Path (slot b zero one) rest → Path (.node q w zero one) ((q, w) :: rest)

theorem Path.mem_stems {n : Node V} {path : List (Prefix × Option V)} (h : Path n path)
    {s : Prefix × Option V} (hs : s ∈ path) : s ∈ n.stems := by
  induction h with
  | stop n => cases hs
  | step b _ ih =>
    apply (mem_stems_node ..).mpr
    rcases List.mem_cons.mp hs with rfl | hs
    · exact .inl rfl
    · exact .inr ⟨b, ih hs⟩

theorem Path.rises {n : Node V} {path : List (Prefix × Option V)} (h : Path n path)
    (hn : n.WellFormed) : path.Pairwise fun r s => ∃ b, s.1.Inside r.1 b := by
  induction h with
  | stop n => exact .nil
  | step b hrest ih =>
    obtain ⟨hangs, wf⟩ := hn.child b
    refine .cons (fun s hs => ?_) (ih wf)
    exact ⟨b, hangs.inside_of_mem_stems wf (hrest.mem_stems hs)⟩

/-- **A path has one node at most for each length of a prefix.** -/
theorem Path.length_le {n : Node V} {path : List (Prefix × Option V)} (h : Path n path)
    (hn : n.WellFormed) : path.length ≤ 129 := by
  have hnodup : (path.map fun s => (⟨s.1.len, Nat.lt_succ_of_le s.1.len_le⟩ : Fin 129)).Nodup := by
    apply List.Pairwise.map _ _ (h.rises hn)
    rintro r s ⟨b, hin⟩ heq
    exact Nat.ne_of_lt hin.longer (congrArg Fin.val heq)
  have hcard := hnodup.length_le_card
  rwa [List.length_map, Fintype.card_fin] at hcard

/-! ### The way of one prefix -/

/-- The nodes on the way to a prefix: it goes on below a node exactly if the prefix lies
strictly inside, on the side of the prefix's next bit. -/
def descent (p : Prefix) : Node V → List (Prefix × Option V)
  | .empty => []
  | .node q w zero one =>
    (q, w) ::
      if q.contains p && decide (q.len < p.len) then
        if p.bit q.len then one.descent p else zero.descent p
      else []

theorem path_descent (p : Prefix) (n : Node V) : Path n (n.descent p) := by
  induction n with
  | empty => exact .stop _
  | node q w zero one ihz iho =>
    rw [descent]
    split
    · cases p.bit q.len
      · exact .step false ihz
      · exact .step true iho
    · exact .step false (.stop _)

theorem get?_eq_descent (p : Prefix) (n : Node V) : n.get? p = ((n.descent p).lookup p).join := by
  induction n with
  | empty => rfl
  | node q w zero one ihz iho =>
    rw [get?, descent, List.lookup_cons]
    by_cases hq : q = p
    · subst hq
      simp
    · have hpq : (p == q) = false := beq_eq_false_iff_ne.mpr (Ne.symm hq)
      have hstop : (!q.contains p || decide (p.len ≤ q.len)) =
          !(q.contains p && decide (q.len < p.len)) := by
        rw [Bool.not_and, ← decide_not]
        simp only [Nat.not_lt]
      rw [if_neg hq, hpq, hstop]
      cases q.contains p && decide (q.len < p.len)
      · rfl
      · cases p.bit q.len
        · exact ihz
        · exact iho

/-- The last of some nodes that is around `q` and holds a value. -/
def lastAround (q : Prefix) (nodes : List (Prefix × Option V)) : Option (Prefix × V) :=
  nodes.reverse.findSome? fun s => if s.1.contains q then s.2.map (s.1, ·) else none

theorem lastAround_cons (q : Prefix) (s : Prefix × Option V) (rest : List (Prefix × Option V)) :
    lastAround q (s :: rest) =
      (lastAround q rest).or (if s.1.contains q then s.2.map (s.1, ·) else none) := by
  rw [lastAround, List.reverse_cons, List.findSome?_append, List.findSome?_singleton]
  rfl

/-- The entry around a prefix is the last on its way. -/
theorem lookup_eq_descent (q : Prefix) (n : Node V) : n.lookup q = lastAround q (n.descent q) := by
  induction n with
  | empty => rfl
  | node p w zero one ihz iho =>
    rw [lookup, descent, lastAround_cons]
    cases hpq : p.contains q
    · rfl
    · simp only [if_true, Bool.true_and]
      by_cases hlen : q.len ≤ p.len
      · rw [if_pos hlen, decide_eq_false (Nat.not_lt.mpr hlen)]
        rfl
      · rw [if_neg hlen, decide_eq_true (Nat.not_le.mp hlen)]
        cases q.bit p.len
        · simp only [Bool.false_eq_true, if_true, if_false, ihz]
        · simp only [if_true, iho]

/-- An insertion spends a bit of its prefix with every node that it passes. -/
theorem WellFormed.length_steps_le {n : Node V} (h : n.WellFormed) (p : Prefix) (k : Nat)
    (hk : k ≤ p.len) (hstems : ∀ s ∈ n.stems, k ≤ s.1.len) : (n.steps p).length + k ≤ p.len + 1 := by
  induction n generalizing k with
  | empty =>
    rw [steps, List.length_singleton]
    omega
  | node q w zero one ihz iho =>
    have hq : k ≤ q.len := hstems (q, w) (List.mem_cons_self ..)
    have hbelow : ∀ b, ∀ s ∈ (slot b zero one).stems, q.len + 1 ≤ s.1.len := fun b s hs =>
      ((h.child b).1.inside_of_mem_stems (h.child b).2 hs).longer
    have hm := p.placement_means q
    rw [steps]
    generalize p.placement q = place at hm ⊢
    cases place with
    | below b =>
      have hin : p.Inside q b := hm
      have hlen : q.len + 1 ≤ p.len := hin.longer
      cases b
      · have hsteps := ihz (h.child false).2 (q.len + 1) hlen (hbelow false)
        rw [List.length_cons]
        omega
      · have hsteps := iho (h.child true).2 (q.len + 1) hlen (hbelow true)
        rw [List.length_cons]
        omega
    | _ =>
      rw [List.length_singleton]
      omega

end Node

/-! ### The tries that writes leave -/

namespace Trie

/-- What keeps a trie small. -/
structure Compressed (t : Trie V) : Prop where
  /-- Every node stands for an address cut to a length that addresses have. -/
  canonical : ∀ s ∈ t.root.stems, s.1.len ≤ 128 ∧ ∀ i, s.1.len ≤ i → s.1.bit i = false
  /-- Children hang strictly inside their node, each on its side; one without a value has both. -/
  wellFormed : t.root.WellFormed
  size : t.root.stems.countP (·.2.isSome) = t.size
  length_stems : t.root.stems.length ≤ 2 * t.size - 1
  length_path : ∀ path, t.root.Path path → path.length ≤ 129
  /-- Reading one prefix, or around one, looks at the nodes of one path only. -/
  path_descent : ∀ p, t.root.Path (t.root.descent p)
  get? : ∀ p, t.get? p = ((t.root.descent p).lookup p).join
  lookup : ∀ q, t.lookup q = Node.lastAround q (t.root.descent q)
  /-- An insertion makes as many comparisons at most, the empty link at the end counted. -/
  length_steps : ∀ p, (t.root.steps p).length ≤ 129

theorem WellFormed.compressed {t : Trie V} (h : t.WellFormed) : t.Compressed := by
  constructor
  case canonical => exact fun s _ => ⟨s.1.len_le, s.1.bit_of_le⟩
  case wellFormed => exact h.root
  case size => exact t.root.countP_stems.trans h.size.symm
  case length_stems =>
    rw [h.size]
    exact h.root.length_stems_le
  case length_path => exact fun path hpath => hpath.length_le h.root
  case path_descent => exact fun p => Node.path_descent p t.root
  case get? => exact fun p => Node.get?_eq_descent p t.root
  case lookup => exact fun q => Node.lookup_eq_descent q t.root
  case length_steps =>
    intro p
    have hsteps := h.root.length_steps_le p 0 (Nat.zero_le _) fun _ _ => Nat.zero_le _
    have hlen := p.len_le
    omega

/-- **However it was written, a trie has fewer nodes than twice its entries and no way down of
more than 129 nodes**, which bounds every insertion and every reading. -/
theorem ofList_compressed (writes : List (Prefix × V)) : (ofList writes).Compressed :=
  (represents_ofList writes).wellFormed.compressed

end Trie

end CidrTable
