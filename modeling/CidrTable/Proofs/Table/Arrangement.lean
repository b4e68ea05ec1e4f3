import CidrTable.Proofs.Table.Texts
import CidrTable.Proofs.Trie.Canonical

/-! No order of insertion shows in the trie.

Decoded values stand under distinct texts, so in any arrangement they are the same writes
(`Arrangement.exists_arranged`), and inserting them makes the same trie
(`insertAll_arranged`). -/
namespace CidrTable

variable {V : Type}

theorem lastWrite_perm {κ α : Type} [DecidableEq κ] {xs ys : List (κ × α)} (h : xs.Perm ys)
    (hys : (ys.map Prod.fst).Nodup) (k : κ) : lastWrite xs k = lastWrite ys k := by
  have hxs : (xs.map Prod.fst).Nodup := (h.map Prod.fst).nodup_iff.mpr hys
  apply Option.ext
  intro x
  rw [lastWrite_of_nodup hxs, lastWrite_of_nodup hys, h.mem_iff]

/-- Entries under texts are arranged to entries under texts. -/
theorem Arrangement.exists_arranged (A : Arrangement V) (values : List (Prefix × V)) :
    ∃ arranged, A.arrange (underTexts values) = underTexts arranged ∧ arranged.Perm values := by
  have hperm := A.perm (underTexts values)
  obtain ⟨arranged, harranged⟩ := exists_underTexts (A.arrange (underTexts values)) fun e he => by
    obtain ⟨f, -, rfl⟩ := List.mem_map.mp (hperm.mem_iff.mp he)
    exact ⟨f.1, rfl⟩
  rw [harranged] at hperm
  refine ⟨arranged, harranged, (List.map_perm_map_iff fun e f h => ?_).mp hperm⟩
  obtain ⟨hkey, hvalue⟩ := Prod.mk.inj h
  exact Prod.ext (Prefix.text_injective hkey) hvalue

/-- **Values under distinct prefixes make one trie in every order**, and none is refused; only
the records of the insertions show the order. -/
theorem Table.insertAll_arranged (A : Arrangement V) (values : List (Prefix × V))
    (h : (values.map Prod.fst).Nodup) :
    ∃ arranged, arranged.Perm values ∧ insertAll 0 .empty (A.arrange (underTexts values)) =
      ⟨.ok (Trie.ofList values), (Trie.empty.recordList arranged).map .inserted, []⟩ := by
  obtain ⟨arranged, harranged, hperm⟩ := A.exists_arranged values
  have htrie : Trie.ofList arranged = Trie.ofList values :=
    Trie.ofList_congr fun p => lastWrite_perm hperm h p
  refine ⟨arranged, hperm, ?_⟩
  rw [harranged, insertAll_underTexts, ← htrie]
  rfl

end CidrTable
