import CidrTable.Proofs.LastWrite
import CidrTable.Proofs.Trie.Entries
import Mathlib.Data.Finset.Card
import Mathlib.Data.Finset.Dedup

/-! A trie is a finite map in which the last write wins.

`Trie.Represents` ties a trie to a map: it is well-formed, counts its entries, and lists
exactly the map's. An insertion updates the map (`Represents.insert`), so the trie that a
list of writes leaves represents their last writes (`represents_ofList`), and everything
the trie answers is what the map says (`ofList_refines_lastWrite`). -/
namespace CidrTable.Trie

variable {V : Type}

/-! ### The invariant -/

/-- The nodes are well-formed and the size counts the entries. -/
structure WellFormed (t : Trie V) : Prop where
  root : t.root.WellFormed
  size : t.size = t.toList.length

/-- The entries are those of a map. -/
structure Represents (t : Trie V) (M : Prefix → Option V) : Prop where
  wellFormed : t.WellFormed
  mem_iff : ∀ p v, (p, v) ∈ t.toList ↔ M p = some v

theorem represents_empty : (empty : Trie V).Represents fun _ => none :=
  ⟨⟨.empty, rfl⟩, fun _ _ => by simp [empty, toList]⟩

/-- An insertion gives back what the map held. -/
theorem Represents.replaced {t : Trie V} {M : Prefix → Option V} (h : t.Represents M) (p : Prefix)
    (v : V) : (t.insert p v).2 = M p := by
  have hins := Node.insert_inserts p v t.root
  apply Option.ext
  intro u
  show (t.root.insert p v).2 = some u ↔ M p = some u
  rw [hins.replaced_iff h.wellFormed.root, ← h.mem_iff]
  rfl

theorem WellFormed.insert {t : Trie V} (h : t.WellFormed) (p : Prefix) (v : V) :
    (t.insert p v).1.WellFormed := by
  refine ⟨h.root.insert p v, ?_⟩
  show _ = (t.root.insert p v).1.toList.length
  rw [(Node.insert_inserts p v t.root).length_toList]
  show (if (t.root.insert p v).2.isNone then t.size + 1 else t.size) = _
  rw [h.size]
  rfl

/-- **An insertion updates the map.** -/
theorem Represents.insert {t : Trie V} {M : Prefix → Option V} (h : t.Represents M) (p : Prefix)
    (v : V) : (t.insert p v).1.Represents (Function.update M p (some v)) := by
  refine ⟨h.wellFormed.insert p v, fun r u => ?_⟩
  show (r, u) ∈ (t.root.insert p v).1.toList ↔ _
  rw [(Node.insert_inserts p v t.root).mem_iff h.wellFormed.root]
  by_cases hr : r = p
  · subst hr
    rw [if_pos rfl, Function.update_self, Option.some.injEq, eq_comm]
  · rw [if_neg hr, Function.update_of_ne hr]
    exact h.mem_iff r u

theorem ofList_snoc (writes : List (Prefix × V)) (p : Prefix) (v : V) :
    ofList (writes ++ [(p, v)]) = ((ofList writes).insert p v).1 := by
  simp [ofList, insertList]

/-- **The trie that writes leave represents their last writes.** -/
theorem represents_ofList (writes : List (Prefix × V)) :
    (ofList writes).Represents (lastWrite writes) := by
  induction writes using List.reverseRecOn with
  | nil => exact represents_empty
  | append_singleton writes e ih =>
    rw [ofList_snoc, lastWrite_snoc]
    exact ih.insert e.1 e.2

/-! ### Answers -/

theorem Represents.get?_eq {t : Trie V} {M : Prefix → Option V} (h : t.Represents M) (p : Prefix) :
    t.get? p = M p := by
  apply Option.ext
  intro v
  rw [← h.mem_iff]
  exact h.wellFormed.root.get?_eq_some_iff p v

theorem Represents.isEmpty_iff {t : Trie V} {M : Prefix → Option V} (h : t.Represents M) :
    t.isEmpty = true ↔ ∀ p, M p = none := by
  rw [isEmpty, beq_iff_eq, h.wellFormed.size, List.length_eq_zero_iff]
  constructor
  · intro hnil p
    rw [Option.eq_none_iff_forall_ne_some]
    intro v hv
    have := (h.mem_iff p v).mpr hv
    rw [hnil] at this
    cases this
  · intro hM
    refine List.eq_nil_iff_forall_not_mem.mpr fun e he => ?_
    have := (h.mem_iff e.1 e.2).mp he
    rw [hM] at this
    cases this

theorem Represents.mem_keys_iff {t : Trie V} {M : Prefix → Option V} (h : t.Represents M)
    (p : Prefix) : p ∈ t.toList.map Prod.fst ↔ M p ≠ none := by
  rw [List.mem_map, Option.ne_none_iff_exists']
  constructor
  · intro hlisted
    obtain ⟨e, he, rfl⟩ := hlisted
    exact ⟨e.2, (h.mem_iff e.1 e.2).mp he⟩
  · intro hstored
    obtain ⟨v, hv⟩ := hstored
    exact ⟨(p, v), (h.mem_iff p v).mpr hv, rfl⟩

/-- The prefixes under which something is stored, each counted once. -/
theorem Represents.size_eq {t : Trie V} {M : Prefix → Option V} (h : t.Represents M) :
    ∃ keys : Finset Prefix, (∀ p, p ∈ keys ↔ M p ≠ none) ∧ t.size = keys.card := by
  refine ⟨(t.toList.map Prod.fst).toFinset, fun p => ?_, ?_⟩
  · rw [List.mem_toFinset, h.mem_keys_iff]
  · have hnodup : (t.toList.map Prod.fst).Nodup := h.wellFormed.root.nodup_keys
    rw [List.toFinset_card_of_nodup hnodup, List.length_map]
    exact h.wellFormed.size

/-- What holds of every listed prefix holds of every key of the map. -/
theorem Represents.forall_mem_iff {t : Trie V} {M : Prefix → Option V} (h : t.Represents M)
    (P : Prefix → Prop) : (∀ e ∈ t.toList, P e.1) ↔ ∀ p, M p ≠ none → P p := by
  simp only [← h.mem_keys_iff, List.forall_mem_map]

/-- A hit is the entry of the longest key around the query. -/
theorem Represents.lookup_eq_some_iff {t : Trie V} {M : Prefix → Option V} (h : t.Represents M)
    (q p : Prefix) (v : V) :
    t.lookup q = some (p, v) ↔ M p = some v ∧ p.contains q = true ∧
      ∀ r, M r ≠ none → r.contains q = true → r.len ≤ p.len := by
  rw [← h.mem_iff, ← h.forall_mem_iff fun r => r.contains q = true → r.len ≤ p.len]
  exact h.wellFormed.root.lookup_eq_iff q (some (p, v))

theorem Represents.lookup_eq_none_iff {t : Trie V} {M : Prefix → Option V} (h : t.Represents M)
    (q : Prefix) : t.lookup q = none ↔ ∀ p, M p ≠ none → p.contains q = false := by
  rw [← h.forall_mem_iff fun p => p.contains q = false]
  exact h.wellFormed.root.lookup_eq_iff q none

/-- What a trie answers when it stands for a map. -/
structure Refines (t : Trie V) (M : Prefix → Option V) : Prop where
  /-- The next insertion gives back what the map holds. -/
  replaced : ∀ p v, (t.insert p v).2 = M p
  /-- The size is the number of keys. -/
  size : ∃ keys : Finset Prefix, (∀ p, p ∈ keys ↔ M p ≠ none) ∧ t.size = keys.card
  isEmpty : t.isEmpty = true ↔ ∀ p, M p = none
  get? : ∀ p, t.get? p = M p
  /-- A hit is the entry of the longest key around the query. -/
  hit : ∀ q p v, t.lookup q = some (p, v) ↔ M p = some v ∧ p.contains q = true ∧
    ∀ r, M r ≠ none → r.contains q = true → r.len ≤ p.len
  /-- A miss means that no key is around the query. -/
  miss : ∀ q, t.lookup q = none ↔ ∀ p, M p ≠ none → p.contains q = false

/-- **After any writes a trie answers as the map of the last writes does.** -/
theorem ofList_refines_lastWrite (writes : List (Prefix × V)) :
    (ofList writes).Refines (lastWrite writes) := by
  have h := represents_ofList writes
  exact ⟨h.replaced, h.size_eq, h.isEmpty_iff, h.get?_eq, h.lookup_eq_some_iff, h.lookup_eq_none_iff⟩

end CidrTable.Trie
