import CidrTable.Proofs.Table.Decoded
import CidrTable.Proofs.Trie.Walk
import CidrTable.Schema.Scalar

/-! Tables are written in the order of their prefixes.

A table's entries are those that a walk over its trie comes to (`walk_eq`), and the writer of a
table is told their number and then each of them under the text of its prefix. A trie is walked
in the order of its prefixes and a text stands for one prefix only, so a decoded table is written
in that order, under keys that differ, with as many entries as were announced
(`walked_and_written_in_order`). -/
namespace CidrTable.Table

variable {V : Type}

theorem walk_eq (t : Table V) : t.walk = t.toList := by
  simp only [walk, toList, Trie.entries_cursor]

/-- The document of a table holds the entries that its writer is told of. -/
theorem encode_eq (S : Schema V) (t : Table V) : t.encode S = .object (t.announce S).entries := by
  rw [encode, canonicalEntries, List.map_map, announce, walk_eq]
  rfl

theorem nodup_keys_announce (S : Schema V) (t : Table V) (h : (t.walk.map Prod.fst).Nodup) :
    ((t.announce S).entries.map Prod.fst).Nodup := by
  have hkeys : (t.announce S).entries.map Prod.fst = (t.walk.map Prod.fst).map Prefix.text := by
    rw [announce, List.map_map, List.map_map]
    rfl
  rw [hkeys]
  exact h.map Prefix.text_injective

/-- How a table is written. -/
structure WritesInOrder (S : Schema V) (t : Table V) : Prop where
  /-- The number announced is that of the entries, and the size of the table. -/
  count : (t.announce S).count = t.size ∧ (t.announce S).entries.length = t.size
  /-- The entries are written in the order of the walk, each under the text of its prefix. -/
  entries : (t.announce S).entries = t.walk.map fun e => (e.1.text, S.encode e.2)
  /-- The walk comes to all that is stored, once each, by bits and then by length. -/
  mem_iff : ∀ p v, (p, v) ∈ t.walk ↔ (t.trie.bind fun trie => trie.get? p) = some v
  rises : t.walk.Pairwise fun a b => a.1.compare b.1 = .lt
  /-- No key is written twice. -/
  nodup : ((t.announce S).entries.map Prod.fst).Nodup
  /-- The document of the table is what was written. -/
  document : t.encode S = .object (t.announce S).entries

theorem Represents.mem_iff_get? {t : Table V} {M : Prefix → Option V} (h : t.Represents M)
    (p : Prefix) (v : V) :
    (p, v) ∈ t.toList ↔ (t.trie.bind fun trie => trie.get? p) = some v := by
  rw [h.mem_iff]
  cases htrie : t.trie with
  | none => simp [h.empty htrie p]
  | some trie => rw [Option.bind_some, (h.trie trie htrie).1.get?_eq]

theorem Represents.rises {t : Table V} {M : Prefix → Option V} (h : t.Represents M) :
    t.toList.Pairwise fun a b => a.1.compare b.1 = .lt := by
  cases htrie : t.trie with
  | none => simp [toList, htrie]
  | some trie =>
    have hlist : t.toList = trie.toList := by simp [toList, htrie]
    rw [hlist]
    exact (h.trie trie htrie).1.wellFormed.root.rises

/-- **A trie is walked, and a decoded table written, in the order of the prefixes**: the walk
comes to the last values written and nothing else, the table announces its size and writes as many
entries under as many keys. -/
theorem walked_and_written_in_order (S : Schema V) (writes : List (Prefix × V)) (t : Table V)
    (h : Decoded S t) :
    (Trie.ofList writes).WalksInOrder (lastWrite writes) ∧ t.WritesInOrder S := by
  obtain ⟨M, ht⟩ := h.exists_represents
  refine ⟨(Trie.represents_ofList writes).walksInOrder, ?_⟩
  constructor
  case count =>
    refine ⟨rfl, ?_⟩
    rw [announce, List.length_map, walk_eq, ht.size_eq]
  case entries => rfl
  case mem_iff =>
    rw [walk_eq]
    exact ht.mem_iff_get?
  case rises =>
    rw [walk_eq]
    exact ht.rises
  case nodup =>
    refine nodup_keys_announce S t ?_
    rw [walk_eq]
    exact ht.nodup_keys
  case document => exact encode_eq S t

/-- Both families, an outer prefix written last and one written twice. -/
theorem nested_entries_walked_and_written :
    (Trie.ofList [(Prefix.cut (Address.mapped 0x0A000000) 104 (by decide), "first"), (.any, "any"),
        (.cut (Address.mapped 0x0A000000) 104 (by decide), "inner")]).WalksInOrder
      (lastWrite [(Prefix.cut (Address.mapped 0x0A000000) 104 (by decide), "first"), (.any, "any"),
        (.cut (Address.mapped 0x0A000000) 104 (by decide), "inner")]) ∧
    WritesInOrder (Schema.text "text") (ofTrie (.ofList [(.any, "any"),
      (.cut 0 80 (by decide), "around"),
      (.cut (Address.mapped 0x0A000000) 104 (by decide), "inner")])) :=
  walked_and_written_in_order _ _ _
    (.entries [(.text "10.0.0.0/8", .text "inner"), (.text "::/0", .text "any"),
      (.text "::/80", .text "around")] rfl)

end CidrTable.Table
