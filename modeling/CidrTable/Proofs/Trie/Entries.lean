import CidrTable.Proofs.Trie.Shape

/-! A trie by its entries.

The entries of a node are what `Node.toList` lists. On well-formed nodes an insertion
overwrites one entry and gives back the one it replaced (`Inserts.mem_iff`,
`Inserts.replaced_iff`), `get?` finds exactly the entry of a prefix (`get?_eq_some_iff`)
and `lookup` the entry of the longest prefix around another (`lookup_deepest`). -/
namespace CidrTable.Node

variable {V : Type}

/-! ### Entries and sides -/

theorem WellFormed.child {q : Prefix} {w : Option V} {zero one : Node V}
    (h : (Node.node q w zero one).WellFormed) (b : Bool) :
    (slot b zero one).Hangs q b ∧ (slot b zero one).WellFormed := by
  cases h with
  | node hz ho _ wz wo => cases b <;> constructor <;> assumption

/-- On the inner side of a fork there are only the inner entries. -/
theorem mem_inner_iff {q : Prefix} {w : Option V} {b : Bool} {inner other : Node V}
    (h : (fork q w b inner other).WellFormed) {e : Prefix × V} (he : e.1.Inside q b) :
    e ∈ (fork q w b inner other).toList ↔ e ∈ inner.toList := by
  rw [mem_toList_fork]
  constructor
  · intro hmem
    rcases hmem with ⟨hq, _⟩ | hin | hother
    · exact absurd hq he.ne
    · exact hin
    · obtain ⟨_, hangs, _, _, wf⟩ := wellFormed_fork.mp h
      exact absurd ((hangs.inside_of_mem wf hother).side_unique he) (by simp)
  · exact fun hin => Or.inr (Or.inl hin)

theorem WellFormed.mem_slot_iff {q : Prefix} {w : Option V} {zero one : Node V}
    (h : (Node.node q w zero one).WellFormed) {b : Bool} {e : Prefix × V} (he : e.1.Inside q b) :
    e ∈ (Node.node q w zero one).toList ↔ e ∈ (slot b zero one).toList := by
  rw [← fork_slot q w b] at h ⊢
  exact mem_inner_iff h he

/-- An entry is the node's own or lies on one side of its stem. -/
theorem WellFormed.own_or_inside {q : Prefix} {w : Option V} {zero one : Node V}
    (h : (Node.node q w zero one).WellFormed) {e : Prefix × V}
    (he : e ∈ (Node.node q w zero one).toList) :
    (e.1 = q ∧ w = some e.2) ∨ ∃ b, e.1.Inside q b ∧ e ∈ (Node.slot b zero one).toList := by
  rcases (mem_toList_node q w zero one e).mp he with hown | hz | ho
  · exact Or.inl hown
  · obtain ⟨hangs, wf⟩ := h.child false
    exact Or.inr ⟨false, hangs.inside_of_mem wf hz, hz⟩
  · obtain ⟨hangs, wf⟩ := h.child true
    exact Or.inr ⟨true, hangs.inside_of_mem wf ho, ho⟩

/-! ### Insertion -/

theorem Inserts.mem_of_ne {p : Prefix} {v : V} {n n' : Node V} {old : Option V}
    (h : Inserts p v n n' old) {e : Prefix × V} (he : e.1 ≠ p) : e ∈ n'.toList ↔ e ∈ n.toList := by
  have hnew : e ≠ (p, v) := fun h => he (congrArg Prod.fst h)
  induction h with
  | leaf => simp [mem_toList_leaf, hnew]
  | replace w zero one => simp [mem_toList_node, he]
  | descend w other _ _ ih => simp only [mem_toList_fork, ih]
  | above w zero one _ => simp [mem_toList_fork, he]
  | split w zero one _ _ => simp [mem_toList_fork, mem_toList_leaf, hnew]

theorem Inserts.mem_self {p : Prefix} {v : V} {n n' : Node V} {old : Option V}
    (h : Inserts p v n n' old) : (p, v) ∈ n'.toList := by
  induction h with
  | leaf => exact (mem_toList_leaf ..).mpr rfl
  | replace => exact (mem_toList_node ..).mpr (Or.inl ⟨rfl, rfl⟩)
  | descend w other _ _ ih => exact (mem_toList_fork ..).mpr (Or.inr (Or.inl ih))
  | above => exact (mem_toList_fork ..).mpr (Or.inl ⟨rfl, rfl⟩)
  | split => exact (mem_toList_fork ..).mpr (Or.inr (Or.inr ((mem_toList_leaf ..).mpr rfl)))

/-- What an insertion gives back is the entry that was there. -/
theorem Inserts.replaced_iff {p : Prefix} {v : V} {n n' : Node V} {old : Option V}
    (h : Inserts p v n n' old) (hn : n.WellFormed) (u : V) : old = some u ↔ (p, u) ∈ n.toList := by
  induction h with
  | leaf => simp [toList]
  | replace w zero one =>
    rw [mem_toList_node]
    constructor
    · exact fun hw => Or.inl ⟨rfl, hw⟩
    · intro h
      rcases h with ⟨_, hw⟩ | he | he
      · exact hw
      · exact absurd rfl ((hn.child false).1.inside_of_mem (hn.child false).2 he).ne
      · exact absurd rfl ((hn.child true).1.inside_of_mem (hn.child true).2 he).ne
  | @descend q b inner inner' old w other hp _ ih =>
    rw [ih (wellFormed_fork.mp hn).2.2.2.1, mem_inner_iff hn (e := (p, u)) hp]
  | above w zero one hq =>
    have hout := hq.not_contains
    constructor
    · intro hold
      cases hold
    · intro he
      rw [hn.contains_of_mem he] at hout
      cases hout
  | split w zero one hp hq =>
    constructor
    · intro hold
      cases hold
    · intro he
      have hout := hq.not_contains_other hp (by simp)
      rw [hn.contains_of_mem he] at hout
      cases hout

/-- An insertion adds an entry exactly if it replaces none. -/
theorem Inserts.length_toList {p : Prefix} {v : V} {n n' : Node V} {old : Option V}
    (h : Inserts p v n n' old) :
    n'.toList.length = if old.isNone then n.toList.length + 1 else n.toList.length := by
  induction h with
  | leaf => rfl
  | replace w zero one => cases w <;> simp [toList]
  | @descend _ _ _ _ old w other _ _ ih =>
    rw [length_toList_fork, length_toList_fork, ih]
    cases old with
    | none =>
      simp
      omega
    | some _ => simp
  | above w zero one _ =>
    rw [length_toList_fork]
    simp [toList, Nat.add_comm]
  | split w zero one _ _ =>
    rw [length_toList_fork]
    simp [toList]

/-! ### Reading one prefix -/

/-- **`get?` finds exactly the entry of a prefix.** -/
theorem WellFormed.get?_eq_some_iff {n : Node V} (h : n.WellFormed) (p : Prefix) (v : V) :
    n.get? p = some v ↔ (p, v) ∈ n.toList := by
  induction n with
  | empty => simp [get?, toList]
  | node q w zero one ihz iho =>
    simp only [get?]
    by_cases hq : q = p
    · subst hq
      rw [if_pos rfl]
      constructor
      · exact fun hw => (mem_toList_node q w zero one _).mpr (Or.inl ⟨rfl, hw⟩)
      · intro he
        rcases h.own_or_inside he with ⟨_, hw⟩ | ⟨b, hin, _⟩
        · exact hw
        · exact absurd rfl hin.ne
    · rw [if_neg hq]
      by_cases hp : q.contains p = true ∧ q.len < p.len
      · have hin := Prefix.inside_of_contains hp.1 hp.2
        have hstop : (!q.contains p || decide (p.len ≤ q.len)) = false := by
          rw [hp.1, decide_eq_false (by omega)]
          rfl
        rw [if_neg (by rw [hstop]; decide), h.mem_slot_iff (e := (p, v)) hin]
        cases p.bit q.len
        · exact ihz (h.child false).2
        · exact iho (h.child true).2
      · have hstop : (!q.contains p || decide (p.len ≤ q.len)) = true := by
          cases hc : q.contains p
          · rfl
          · simpa using fun hlt => hp ⟨hc, hlt⟩
        rw [if_pos hstop]
        constructor
        · intro hnone
          cases hnone
        · intro he
          rcases h.own_or_inside he with ⟨hown, _⟩ | ⟨b, hin, _⟩
          · exact absurd hown.symm hq
          · exact absurd ⟨hin.contains, hin.longer⟩ hp

theorem WellFormed.value_unique {n : Node V} (h : n.WellFormed) {p : Prefix} {u v : V}
    (hu : (p, u) ∈ n.toList) (hv : (p, v) ∈ n.toList) : u = v := by
  rw [← h.get?_eq_some_iff] at hu hv
  exact Option.some.inj (hu.symm.trans hv)

/-- **An insertion overwrites one entry and keeps all others.** -/
theorem Inserts.mem_iff {p : Prefix} {v : V} {n n' : Node V} {old : Option V}
    (h : Inserts p v n n' old) (hn : n.WellFormed) (r : Prefix) (u : V) :
    (r, u) ∈ n'.toList ↔ if r = p then u = v else (r, u) ∈ n.toList := by
  by_cases hr : r = p
  · subst hr
    rw [if_pos rfl]
    constructor
    · exact fun hu => (h.wellFormed hn).value_unique hu h.mem_self
    · rintro rfl
      exact h.mem_self
  · rw [if_neg hr]
    exact h.mem_of_ne (e := (r, u)) hr

theorem WellFormed.nodup_keys {n : Node V} (h : n.WellFormed) : (n.toList.map Prod.fst).Nodup := by
  induction n with
  | empty => exact List.nodup_nil
  | node q w zero one ihz iho =>
    obtain ⟨hz, wz⟩ := h.child false
    obtain ⟨ho, wo⟩ := h.child true
    have hzone : ((zero.toList ++ one.toList).map Prod.fst).Nodup := by
      rw [List.map_append, List.nodup_append]
      refine ⟨ihz wz, iho wo, ?_⟩
      intro p hp p' hp' heq
      obtain ⟨e, he, rfl⟩ := List.mem_map.mp hp
      obtain ⟨e', he', rfl⟩ := List.mem_map.mp hp'
      have hside := hz.inside_of_mem wz he
      rw [heq] at hside
      exact absurd (hside.side_unique (ho.inside_of_mem wo he')) (by simp)
    cases w with
    | none => exact hzone
    | some v =>
      refine List.nodup_cons.mpr ⟨?_, hzone⟩
      intro hq
      obtain ⟨e, he, hqe⟩ := List.mem_map.mp hq
      have he : e ∈ zero.toList ++ one.toList := he
      rcases List.mem_append.mp he with he | he
      · exact (hz.inside_of_mem wz he).ne hqe
      · exact (ho.inside_of_mem wo he).ne hqe

/-! ### Reading around a prefix -/

/-- What an answer says: the entry of the longest prefix around `q`, or that there is none. -/
def Deepest (entries : List (Prefix × V)) (q : Prefix) : Option (Prefix × V) → Prop
  | some e => e ∈ entries ∧ e.1.contains q = true ∧
      ∀ e' ∈ entries, e'.1.contains q = true → e'.1.len ≤ e.1.len
  | none => ∀ e ∈ entries, e.1.contains q = false

theorem WellFormed.deepest_unique {n : Node V} (h : n.WellFormed) {q : Prefix}
    {r s : Option (Prefix × V)} (hr : Deepest n.toList q r) (hs : Deepest n.toList q s) : r = s := by
  cases r with
  | none =>
    cases s with
    | none => rfl
    | some e =>
      have hout := hr e hs.1
      rw [hs.2.1] at hout
      cases hout
  | some e =>
    cases s with
    | none =>
      have hout := hs e hr.1
      rw [hr.2.1] at hout
      cases hout
    | some f =>
      obtain ⟨he, heq, hlongest⟩ := hr
      obtain ⟨hf, hfq, hlongest'⟩ := hs
      have hlen : e.1.len = f.1.len := Nat.le_antisymm (hlongest' e he heq) (hlongest f hf hfq)
      have hkey : e.1 = f.1 := Prefix.eq_of_contains_of_len heq hfq hlen
      have hmem : (e.1, f.2) ∈ n.toList := hkey ▸ hf
      exact congrArg some (Prod.ext hkey (h.value_unique he hmem))

/-- No entry of a node is around what its stem is not around. -/
theorem WellFormed.deepest_outside {p : Prefix} {w : Option V} {zero one : Node V}
    (h : (Node.node p w zero one).WellFormed) {q : Prefix} (hq : p.contains q = false) :
    Deepest (Node.node p w zero one).toList q none := by
  intro e he
  cases heq : e.1.contains q
  · rfl
  · rw [Prefix.contains_trans (h.contains_of_mem he) heq] at hq
    exact hq

/-- Around the stem itself there is at most the stem's own entry. -/
theorem WellFormed.deepest_stem {p : Prefix} {w : Option V} {zero one : Node V}
    (h : (Node.node p w zero one).WellFormed) :
    Deepest (Node.node p w zero one).toList p (w.map (p, ·)) := by
  cases w with
  | none =>
    intro e he
    rcases h.own_or_inside he with ⟨_, hw⟩ | ⟨b, hin, _⟩
    · cases hw
    · exact hin.not_contains
  | some v =>
    refine ⟨(mem_toList_node ..).mpr (Or.inl ⟨rfl, rfl⟩), Prefix.contains_refl p, fun e he hep => ?_⟩
    exact Prefix.len_le_of_contains hep

/-- Around what lies on one side there are the stem's own entry and those on that side. -/
theorem WellFormed.own_or_slot {p : Prefix} {w : Option V} {zero one : Node V}
    (h : (Node.node p w zero one).WellFormed) {q : Prefix} {b : Bool} (hin : q.Inside p b)
    {e : Prefix × V} (he : e ∈ (Node.node p w zero one).toList) (heq : e.1.contains q = true) :
    (e.1 = p ∧ w = some e.2) ∨ e ∈ (slot b zero one).toList := by
  rcases h.own_or_inside he with hown | ⟨c, hc, hmem⟩
  · exact Or.inl hown
  · by_cases hside : c = b
    · exact Or.inr (hside ▸ hmem)
    · rw [hc.not_contains_other hin hside] at heq
      cases heq

/-- On one side of the stem its answer counts, and where it has none the stem's own entry. -/
theorem WellFormed.deepest_slot {p : Prefix} {w : Option V} {zero one : Node V}
    (h : (Node.node p w zero one).WellFormed) {q : Prefix} {b : Bool} (hin : q.Inside p b)
    {r : Option (Prefix × V)} (hr : Deepest (slot b zero one).toList q r) :
    Deepest (Node.node p w zero one).toList q (r.or (w.map (p, ·))) := by
  obtain ⟨hangs, wf⟩ := h.child b
  cases r with
  | some e =>
    obtain ⟨hmem, heq, hlongest⟩ := hr
    have hside := hangs.inside_of_mem wf hmem
    refine ⟨(h.mem_slot_iff hside).mpr hmem, heq, fun e' he' hq' => ?_⟩
    rcases h.own_or_slot hin he' hq' with ⟨hown, _⟩ | hmem'
    · rw [hown]
      exact Nat.le_of_lt hside.longer
    · exact hlongest e' hmem' hq'
  | none =>
    have hslot : ∀ e ∈ (Node.node p w zero one).toList, e.1.contains q = true →
        e.1 = p ∧ w = some e.2 := by
      intro e he heq
      rcases h.own_or_slot hin he heq with hown | hmem
      · exact hown
      · rw [hr e hmem] at heq
        cases heq
    cases w with
    | none =>
      intro e he
      cases heq : e.1.contains q
      · rfl
      · cases (hslot e he heq).2
    | some v =>
      refine ⟨(mem_toList_node ..).mpr (Or.inl ⟨rfl, rfl⟩), hin.contains, fun e he heq => ?_⟩
      exact Nat.le_of_eq (congrArg Prefix.len (hslot e he heq).1)

/-- **`lookup` finds the entry of the longest prefix around another.** -/
theorem WellFormed.lookup_deepest {n : Node V} (h : n.WellFormed) (q : Prefix) :
    Deepest n.toList q (n.lookup q) := by
  induction n with
  | empty => intro e he; cases he
  | node p w zero one ihz iho =>
    simp only [lookup]
    cases hpq : p.contains q
    · exact h.deepest_outside hpq
    · rw [if_pos rfl]
      by_cases hlen : q.len ≤ p.len
      · obtain rfl := Prefix.eq_of_contains hpq hlen
        rw [if_pos hlen]
        exact h.deepest_stem
      · rw [if_neg hlen]
        refine h.deepest_slot (Prefix.inside_of_contains hpq (by omega)) ?_
        cases q.bit p.len
        · exact ihz (h.child false).2
        · exact iho (h.child true).2

theorem WellFormed.lookup_eq_iff {n : Node V} (h : n.WellFormed) (q : Prefix)
    (r : Option (Prefix × V)) : n.lookup q = r ↔ Deepest n.toList q r :=
  ⟨fun hl => hl ▸ h.lookup_deepest q, h.deepest_unique (h.lookup_deepest q)⟩

end CidrTable.Node
