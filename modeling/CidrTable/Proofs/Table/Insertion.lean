import CidrTable.Proofs.Table.InsertionOrder
import CidrTable.Proofs.Table.Represents
import CidrTable.Schema.Scalar

/-! Decoding entries is inserting them.

Decoding takes entries through the canonical texts of their prefixes, drops the overridden
ones and inserts the rest in any order. Where every key and every value is good, the trie at
the end is the one that inserting the entries themselves, first to last, builds
(`ofEntriesIn_eq_insertion`): both tables represent the last values of the entries, and a
map has one table only. -/
namespace CidrTable.Table

variable {V : Type}

/-! ### The trie in a table -/

/-- The table of a trie has the trie in it, or none if the trie is empty. -/
theorem getD_trie_ofTrie {trie : Trie V} {M : Prefix → Option V} (h : trie.Represents M) :
    (ofTrie trie).trie.getD .empty = trie := by
  unfold ofTrie
  split
  case isTrue hempty =>
    have hnone : M = fun _ => none := funext (h.isEmpty_iff.mp hempty)
    subst hnone
    exact Trie.represents_empty.unique h
  case isFalse => rfl

theorem trie_ofTrie_eq_none_iff (writes : List (Prefix × V)) :
    (ofTrie (Trie.ofList writes)).trie = none ↔ writes = [] := by
  have h := Trie.represents_ofList writes
  constructor
  · intro hnone
    have hempty : ∀ p, lastWrite writes p = none := (represents_ofTrie h).empty hnone
    refine List.eq_nil_iff_forall_not_mem.mpr fun e he => ?_
    exact (lastWrite_eq_none_iff writes e.1).mp (hempty e.1) e he rfl
  · rintro rfl
    rfl

/-! ### Entries read one by one -/

/-- Every key denotes a prefix and every document decodes: the entries read, in order. -/
def Reads (S : Schema V) (entries : List (RawKey × Json)) (values : List (Prefix × V)) : Prop :=
  List.Forall₂ (fun e w => e.1.prefix? = some w.1 ∧ (S.decode e.2).result = .ok w.2) entries values

/-- Reading entries is denoting their prefixes and decoding their documents. -/
theorem Reads.exists_writes {S : Schema V} {entries : List (RawKey × Json)}
    {values : List (Prefix × V)} (h : Reads S entries values) :
    ∃ writes, Denote entries writes ∧ Decodes S writes values := by
  induction h with
  | nil => exact ⟨[], rfl, .nil⟩
  | @cons e w entries values hhead _ ih =>
    obtain ⟨writes, hdenote, hdecodes⟩ := ih
    refine ⟨(w.1, e.2) :: writes, ?_, .cons ⟨rfl, hhead.2⟩ hdecodes⟩
    exact (denote_cons_iff e.1 e.2 entries _).mpr ⟨w.1, writes, hhead.1, rfl, hdenote⟩

theorem Reads.exists_table {S : Schema V} {entries : List (RawKey × Json)}
    {values : List (Prefix × V)} (h : Reads S entries values) :
    ∃ t, (ofEntries S entries).result = .ok t := by
  obtain ⟨writes, hdenote, hdecodes⟩ := h.exists_writes
  obtain ⟨listing, hlisting⟩ := exists_listing writes
  obtain ⟨kept, hkept⟩ := exists_decodes S listing fun e he => by
    exact hdecodes.exists_value e.1 e.2 (mem_of_lastWrite ((mem_of_listing hlisting e.1 e.2).mp he))
  exact ⟨_, (ofEntries_ok_iff S entries _).mpr ⟨writes, listing, kept, hdenote, hlisting, hkept, rfl⟩⟩

/-- What the entries decode to are the last of the values read. -/
theorem Reads.lastWrite_eq {S : Schema V} {entries : List (RawKey × Json)}
    {values : List (Prefix × V)} (h : Reads S entries values) :
    lastWrite values = decodedMap S entries := by
  obtain ⟨writes, hdenote, hdecodes⟩ := h.exists_writes
  funext p
  rw [hdecodes.lastWrite_eq, decodedMap, hdenote.lastWrite_eq]

/-- **Decoding entries builds the trie that inserting them in turn builds**, in whatever order
the decoded values are inserted; without entries there is no trie. -/
theorem ofEntriesIn_eq_insertion (A : Arrangement V) (S : Schema V) (entries : List (RawKey × Json))
    (values : List (Prefix × V)) (h : Reads S entries values) :
    ∃ t, (ofEntriesIn A S entries).result = .ok t ∧ t.trie.getD .empty = Trie.ofList values ∧
      (t.trie = none ↔ entries = []) := by
  obtain ⟨t, ht⟩ := h.exists_table
  have hread : (ofTrie (Trie.ofList values)).Represents (decodedMap S entries) :=
    h.lastWrite_eq ▸ represents_ofTrie (Trie.represents_ofList values)
  obtain rfl : t = ofTrie (Trie.ofList values) := (represents_ofEntries S entries t ht).unique hread
  refine ⟨_, (result_ofEntriesIn A S entries).trans ht, getD_trie_ofTrie (Trie.represents_ofList values), ?_⟩
  rw [trie_ofTrie_eq_none_iff, ← List.length_eq_zero_iff, ← List.length_eq_zero_iff,
    List.Forall₂.length_eq h]

/-- One prefix under two keys, and the decoded values inserted in reverse. -/
theorem reversed_entries_inserted :
    Reads (Schema.text "text")
        [(.text "10.0.0.0/8", .text "first"), (.text "::/0", .text "any"),
          (.text "::ffff:10.0.0.0/104", .text "last")]
        [(.cut (Address.mapped 0x0A000000) 104 (by decide), "first"), (.any, "any"),
          (.cut (Address.mapped 0x0A000000) 104 (by decide), "last")] ∧
      ∃ t, (ofEntriesIn ⟨List.reverse, List.reverse_perm⟩ (Schema.text "text")
          [(.text "10.0.0.0/8", .text "first"), (.text "::/0", .text "any"),
            (.text "::ffff:10.0.0.0/104", .text "last")]).result = .ok t ∧
        t.trie.getD .empty =
          Trie.ofList [(.cut (Address.mapped 0x0A000000) 104 (by decide), "first"), (.any, "any"),
            (.cut (Address.mapped 0x0A000000) 104 (by decide), "last")] := by
  have hreads : Reads (Schema.text "text")
      [(.text "10.0.0.0/8", .text "first"), (.text "::/0", .text "any"),
        (.text "::ffff:10.0.0.0/104", .text "last")]
      [(.cut (Address.mapped 0x0A000000) 104 (by decide), "first"), (.any, "any"),
        (.cut (Address.mapped 0x0A000000) 104 (by decide), "last")] :=
    .cons ⟨rfl, rfl⟩ (.cons ⟨rfl, rfl⟩ (.cons ⟨rfl, rfl⟩ .nil))
  obtain ⟨t, ht, htrie, -⟩ := ofEntriesIn_eq_insertion ⟨List.reverse, List.reverse_perm⟩ _ _ _ hreads
  exact ⟨hreads, t, ht, htrie⟩

end CidrTable.Table
