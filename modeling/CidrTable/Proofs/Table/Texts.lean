import CidrTable.Table.Decode
import CidrTable.Proofs.Fields
import CidrTable.Proofs.Subnet.Key

/-! Entries under the texts of their prefixes.

A text stands for one prefix only, so under their texts entries meet and part as they do
under their prefixes. The fields that such entries leave are again entries under texts
(`exists_listing`): one for each prefix, with the last value under it (`mem_of_listing`).
Inserting under texts is inserting under prefixes (`insertAll_underTexts`). -/
namespace CidrTable

variable {α V : Type}

/-- Entries under the texts of their prefixes. -/
def underTexts (entries : List (Prefix × α)) : List (String × α) :=
  entries.map fun e => (e.1.text, e.2)

theorem underTexts_cons (e : Prefix × α) (entries : List (Prefix × α)) :
    underTexts (e :: entries) = (e.1.text, e.2) :: underTexts entries := rfl

theorem mem_underTexts (entries : List (Prefix × α)) (p : Prefix) (x : α) :
    (p.text, x) ∈ underTexts entries ↔ (p, x) ∈ entries := by
  rw [underTexts, List.mem_map]
  constructor
  · intro h
    obtain ⟨⟨q, y⟩, he, heq⟩ := h
    obtain ⟨hq, rfl⟩ := Prod.mk.inj heq
    rwa [← Prefix.text_injective hq]
  · exact fun he => ⟨(p, x), he, rfl⟩

theorem lastWrite_underTexts (entries : List (Prefix × α)) (p : Prefix) :
    lastWrite (underTexts entries) p.text = lastWrite entries p := by
  have h := lastWrite_map Prefix.text Prefix.text_injective id entries p
  rwa [Option.map_id] at h

/-! ### Listings -/

theorem exists_underTexts (fields : List (String × α)) (h : ∀ e ∈ fields, ∃ p : Prefix, e.1 = p.text) :
    ∃ entries : List (Prefix × α), fields = underTexts entries := by
  induction fields with
  | nil => exact ⟨[], rfl⟩
  | cons e fields ih =>
    obtain ⟨entries, hentries⟩ := ih fun f hf => h f (List.mem_cons_of_mem _ hf)
    obtain ⟨p, hp⟩ := h e List.mem_cons_self
    refine ⟨(p, e.2) :: entries, ?_⟩
    rw [hentries, underTexts_cons, ← hp]

/-- The fields that entries under texts leave are entries under texts. -/
theorem exists_listing (entries : List (Prefix × α)) :
    ∃ listing : List (Prefix × α), Fields.ofPairs (underTexts entries) = underTexts listing := by
  refine exists_underTexts _ fun e he => ?_
  have hmem : e ∈ underTexts entries := mem_of_lastWrite ((Fields.mem_ofPairs _ e.1 e.2).mp he)
  obtain ⟨f, -, rfl⟩ := List.mem_map.mp hmem
  exact ⟨f.1, rfl⟩

section Listing

variable {entries listing : List (Prefix × α)}
  (h : Fields.ofPairs (underTexts entries) = underTexts listing)

include h

/-- **A listing holds each prefix's last value.** -/
theorem mem_of_listing (p : Prefix) (x : α) :
    (p, x) ∈ listing ↔ lastWrite entries p = some x := by
  rw [← mem_underTexts, ← h, Fields.mem_ofPairs, lastWrite_underTexts]

theorem nodup_of_listing : (listing.map Prod.fst).Nodup := by
  have hkeys : ((underTexts listing).map Prod.fst).Nodup := h ▸ (Fields.sorted_ofPairs _).nodup
  have hmap : (underTexts listing).map Prod.fst = (listing.map Prod.fst).map Prefix.text := by
    rw [underTexts, List.map_map, List.map_map]
    rfl
  rw [hmap] at hkeys
  exact hkeys.of_map _

/-- Where no prefix is written twice, a listing is the entries in another order. -/
theorem perm_of_listing (hentries : (entries.map Prod.fst).Nodup) : listing.Perm entries := by
  refine (List.perm_ext_iff_of_nodup ((nodup_of_listing h).of_map _) (hentries.of_map _)).mpr
    fun e => ?_
  rw [mem_of_listing h e.1 e.2, lastWrite_of_nodup hentries]

end Listing

/-! ### Inserting -/

/-- Inserting under texts is inserting under prefixes, with the records of the insertions. -/
theorem Table.insertAll_underTexts (index : Nat) (trie : Trie V) (entries : List (Prefix × V)) :
    Table.insertAll index trie (underTexts entries) =
      ⟨.ok (trie.insertList entries), (trie.recordList entries).map .inserted, []⟩ := by
  induction entries generalizing index trie with
  | nil => rfl
  | cons e entries ih =>
    have hrest := ih (index + 1) (trie.insert e.1 e.2).1
    simp only [underTexts_cons, insertAll, Prefix.ofString_text, hrest, Trie.recordList,
      List.map_append]
    rfl

end CidrTable
