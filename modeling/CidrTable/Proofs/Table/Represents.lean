import CidrTable.Proofs.Table.Decode
import CidrTable.Proofs.Trie.Canonical

/-! A table is a finite map from prefixes to values.

`Table.Represents` ties a table to a map, as `Trie.Represents` does a trie; the empty map
has the table without a trie (`represents_ofTrie`), so a map has one table only
(`Represents.unique`). The table that entries decode to represents what the last values
under their prefixes decode to (`represents_ofEntries`). -/
namespace CidrTable.Table

variable {V : Type}

/-- The entries are those of a map, and a trie is there only if it has some. -/
structure Represents (t : Table V) (M : Prefix → Option V) : Prop where
  trie : ∀ trie, t.trie = some trie → trie.Represents M ∧ trie.isEmpty = false
  empty : t.trie = none → ∀ p, M p = none

theorem represents_empty : (empty : Table V).Represents fun _ => none :=
  ⟨nofun, fun _ _ => rfl⟩

/-- The table of a trie stands for what the trie stands for. -/
theorem represents_ofTrie {trie : Trie V} {M : Prefix → Option V} (h : trie.Represents M) :
    (ofTrie trie).Represents M := by
  unfold ofTrie
  split
  case isTrue hempty => exact ⟨nofun, fun _ => h.isEmpty_iff.mp hempty⟩
  case isFalse hempty =>
    refine ⟨?_, nofun⟩
    rintro _ ⟨⟩
    exact ⟨h, Bool.eq_false_iff.mpr hempty⟩

section Represents

variable {s t : Table V} {M : Prefix → Option V}

theorem Represents.mem_iff (h : t.Represents M) (p : Prefix) (v : V) :
    (p, v) ∈ t.toList ↔ M p = some v := by
  cases htrie : t.trie with
  | none => simp [toList, htrie, h.empty htrie p]
  | some trie =>
    rw [← (h.trie trie htrie).1.mem_iff]
    simp [toList, htrie]

theorem Represents.nodup_keys (h : t.Represents M) : (t.toList.map Prod.fst).Nodup := by
  cases htrie : t.trie with
  | none => simp [toList, htrie]
  | some trie =>
    have hlist : t.toList = trie.toList := by simp [toList, htrie]
    rw [hlist]
    exact (h.trie trie htrie).1.wellFormed.root.nodup_keys

/-- The entries are the writes, in some order, where no prefix is written twice. -/
theorem Represents.perm {writes : List (Prefix × V)} (h : t.Represents (lastWrite writes))
    (hwrites : (writes.map Prod.fst).Nodup) : writes.Perm t.toList := by
  refine (List.perm_ext_iff_of_nodup (hwrites.of_map _) (h.nodup_keys.of_map _)).mpr fun e => ?_
  rw [h.mem_iff e.1 e.2, lastWrite_of_nodup hwrites]

theorem Represents.mem_keys_iff (h : t.Represents M) (p : Prefix) :
    p ∈ t.toList.map Prod.fst ↔ M p ≠ none := by
  cases htrie : t.trie with
  | none => simp [toList, htrie, h.empty htrie p]
  | some trie =>
    have hlist : t.toList = trie.toList := by simp [toList, htrie]
    rw [hlist]
    exact (h.trie trie htrie).1.mem_keys_iff p

theorem Represents.size_eq (h : t.Represents M) : t.size = t.toList.length := by
  cases htrie : t.trie with
  | none => simp [size, toList, htrie]
  | some trie =>
    have hsize := (h.trie trie htrie).1.wellFormed.size
    simp [size, toList, htrie, hsize]

/-- **A map has one table.** -/
theorem Represents.unique (hs : s.Represents M) (ht : t.Represents M) : s = t := by
  obtain ⟨strie⟩ := s
  obtain ⟨ttrie⟩ := t
  cases strie with
  | none =>
    cases ttrie with
    | none => rfl
    | some trie =>
      obtain ⟨hrep, hne⟩ := ht.trie trie rfl
      rw [hrep.isEmpty_iff.mpr (hs.empty rfl)] at hne
      cases hne
  | some trie =>
    cases ttrie with
    | none =>
      obtain ⟨hrep, hne⟩ := hs.trie trie rfl
      rw [hrep.isEmpty_iff.mpr (ht.empty rfl)] at hne
      cases hne
    | some trie' => rw [(hs.trie trie rfl).1.unique (ht.trie trie' rfl).1]

/-! ### Looking addresses up -/

/-- A hit is the entry of the longest key around the address. -/
theorem Represents.lookupMatch_eq_some_iff (h : t.Represents M) (a : Address) (p : Prefix) (v : V) :
    t.lookupMatch a = some (p, v) ↔ M p = some v ∧ p.containsAddress a = true ∧
      ∀ q, M q ≠ none → q.containsAddress a = true → q.len ≤ p.len := by
  cases htrie : t.trie with
  | none => simp [lookupMatch, htrie, h.empty htrie]
  | some trie =>
    have hlookup : t.lookupMatch a = trie.lookup a.toPrefix := by simp [lookupMatch, htrie]
    rw [hlookup]
    exact (h.trie trie htrie).1.lookup_eq_some_iff a.toPrefix p v

theorem Represents.lookupMatch_eq_none_iff (h : t.Represents M) (a : Address) :
    t.lookupMatch a = none ↔ ∀ p, M p ≠ none → p.containsAddress a = false := by
  cases htrie : t.trie with
  | none => simp [lookupMatch, htrie, h.empty htrie]
  | some trie =>
    have hlookup : t.lookupMatch a = trie.lookup a.toPrefix := by simp [lookupMatch, htrie]
    rw [hlookup]
    exact (h.trie trie htrie).1.lookup_eq_none_iff a.toPrefix

end Represents

/-! ### Decoded tables -/

/-- What the last value under a prefix decodes to. -/
def decodedMap (S : Schema V) (entries : List (RawKey × Json)) (p : Prefix) : Option V :=
  (lastWrite (denotations entries) (some p)).bind fun j => (S.decode j).result.toOption

/-- **The table that entries decode to represents what their last values decode to.** -/
theorem represents_ofEntries (S : Schema V) (entries : List (RawKey × Json)) (t : Table V)
    (h : (ofEntries S entries).result = .ok t) : t.Represents (decodedMap S entries) := by
  obtain ⟨writes, listing, values, hdenote, hlisting, hd, rfl⟩ := (ofEntries_ok_iff S entries t).mp h
  have hnodup : (values.map Prod.fst).Nodup := hd.keys_eq ▸ nodup_of_listing hlisting
  have hmap : lastWrite values = decodedMap S entries := by
    funext p
    apply Option.ext
    intro v
    rw [lastWrite_of_nodup hnodup, hd.mem_iff, decodedMap, hdenote.lastWrite_eq,
      Option.bind_eq_some_iff]
    refine exists_congr fun j => ?_
    rw [mem_of_listing hlisting, toOption_eq_some_iff]
  rw [← hmap]
  exact represents_ofTrie (Trie.represents_ofList values)

theorem exists_value_of_ofEntries (S : Schema V) (entries : List (RawKey × Json)) (t : Table V)
    (h : (ofEntries S entries).result = .ok t) (p : Prefix) (j : Json)
    (hj : lastWrite (denotations entries) (some p) = some j) : ∃ v, (S.decode j).result = .ok v := by
  obtain ⟨writes, listing, values, hdenote, hlisting, hd, -⟩ := (ofEntries_ok_iff S entries t).mp h
  rw [hdenote.lastWrite_eq] at hj
  exact hd.exists_value p j ((mem_of_listing hlisting p j).mpr hj)

end CidrTable.Table
