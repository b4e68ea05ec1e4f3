import CidrTable.Proofs.Datum
import CidrTable.Proofs.Table.Decoded
import CidrTable.Schema.Scalar

/-! Tables survive being written and decoded again.

The two canonical documents of a table are one (`canonical_encodeFields`), with the entries
under texts in the order of the texts. A decoded table represents a map and a map has one
table, so the document decodes to the table itself (`Decoded.round_trip`). -/
namespace CidrTable

variable {V : Type}

namespace Table

/-! ### Canonical documents -/

/-- The canonical document of a table: its canonical fields, their values canonical too. -/
theorem canonical_encode (S : Schema V) (t : Table V) :
    (t.encode S).canonical =
      .object (t.canonicalFields.map fun e => (e.1, (S.encode e.2).canonical)) := by
  rw [encode, Json.canonical, Json.canonicalFields_eq, List.map_map]
  exact congrArg Json.object (Fields.ofPairs_map (fun v => (S.encode v).canonical) t.canonicalEntries)

/-- The canonical fields make the same document. -/
theorem canonical_encodeFields (S : Schema V) (t : Table V) :
    (t.encodeFields S).canonical = (t.encode S).canonical := by
  have hself : Fields.ofPairs t.canonicalFields = t.canonicalFields :=
    Fields.ofPairs_of_sorted _ (Fields.sorted_ofPairs _)
  rw [canonical_encode, encodeFields, Json.canonical, Json.canonicalFields_eq, List.map_map]
  refine congrArg Json.object ?_
  exact (Fields.ofPairs_map (fun v => (S.encode v).canonical) t.canonicalFields).trans (by rw [hself])

/-! ### Decoding what was written -/

/-- The written entries of a table in order of their texts. -/
def written (S : Schema V) (listing : List (Prefix × V)) : List (Prefix × Json) :=
  listing.map fun e => (e.1, (S.encode e.2).canonical)

theorem decodes_written (S : Schema V) (listing : List (Prefix × V))
    (h : ∀ e ∈ listing, (S.decode (S.encode e.2).canonical).result = .ok e.2) :
    Decodes S (written S listing) listing := by
  induction listing with
  | nil => exact .nil
  | cons e listing ih =>
    exact .cons ⟨rfl, h e List.mem_cons_self⟩ (ih fun f hf => h f (List.mem_cons_of_mem _ hf))

theorem denote_underTexts (raw : List (Prefix × Json)) :
    Denote ((underTexts raw).map fun e => (.text e.1, e.2)) raw := by
  induction raw with
  | nil => rfl
  | cons r raw ih => exact congrArg₂ List.cons (Prod.ext (RawKey.prefix?_text r.1) rfl) ih

/-- **The canonical entries of a table decode to the table.** -/
theorem ofEntries_written (S : Schema V) (t : Table V) (M : Prefix → Option V) (ht : t.Represents M)
    (hvalues : ∀ e ∈ t.toList, (S.decode (S.encode e.2).canonical).result = .ok e.2) :
    (ofEntries S ((t.canonicalFields.map fun e => (e.1, (S.encode e.2).canonical)).map
      fun e => (.text e.1, e.2))).result = .ok t := by
  obtain ⟨listing, hlisting⟩ := exists_listing t.toList
  have hperm : listing.Perm t.toList := perm_of_listing hlisting ht.nodup_keys
  have hfields : (t.canonicalFields.map fun e => (e.1, (S.encode e.2).canonical)) =
      underTexts (written S listing) := by
    rw [show t.canonicalFields = underTexts listing from hlisting, underTexts, underTexts, written,
      List.map_map, List.map_map]
    rfl
  have hsorted : Fields.ofPairs (underTexts (written S listing)) = underTexts (written S listing) := by
    rw [← hfields]
    exact Fields.ofPairs_of_sorted _ (List.pairwise_map.mpr (Fields.sorted_ofPairs _))
  have hmap : lastWrite listing = M := by
    funext p
    apply Option.ext
    intro v
    rw [lastWrite_of_nodup (nodup_of_listing hlisting), hperm.mem_iff, ht.mem_iff]
  have htable : t = ofTrie (Trie.ofList listing) :=
    ht.unique (hmap ▸ represents_ofTrie (Trie.represents_ofList listing))
  rw [hfields]
  refine (ofEntries_ok_iff S _ t).mpr ⟨_, _, listing, denote_underTexts _, hsorted, ?_, htable⟩
  exact decodes_written S listing fun e he => hvalues e (hperm.mem_iff.mp he)

/-- Under a canonical text stands the value of an entry. -/
theorem exists_entry_of_mem (t : Table V) (f : String × V) (h : f ∈ t.canonicalFields) :
    ∃ e ∈ t.toList, e.2 = f.2 := by
  have hmem : f ∈ t.canonicalEntries := mem_of_lastWrite ((Fields.mem_ofPairs _ f.1 f.2).mp h)
  obtain ⟨e, he, rfl⟩ := List.mem_map.mp hmem
  exact ⟨e, he, rfl⟩

theorem length_canonicalFields (t : Table V) (M : Prefix → Option V) (ht : t.Represents M) :
    t.canonicalFields.length = t.size := by
  obtain ⟨listing, hlisting⟩ := exists_listing t.toList
  have hperm : listing.Perm t.toList := perm_of_listing hlisting ht.nodup_keys
  rw [show t.canonicalFields = underTexts listing from hlisting, underTexts, List.length_map,
    hperm.length_eq, ht.size_eq]

/-! ### The round trip -/

theorem toEntries_ofFields {ε : Type} (fields : List (String × Json)) (h : ∀ e ∈ fields, e.2.Settled) :
    Datum.toEntries (Datum.ofFields fields : List (Datum ε × Datum ε)) =
      .ok (fields.map fun e => (.text e.1, e.2)) := by
  induction fields with
  | nil => rfl
  | cons e fields ih =>
    rw [Datum.ofFields, Datum.toEntries, h e List.mem_cons_self,
      ih fun f hf => h f (List.mem_cons_of_mem _ hf)]
    rfl

/-- However its document is decoded, the table comes back. -/
structure ComesBack (S : Schema V) (t : Table V) (doc : Json) : Prop where
  hook : (Outcome.ofJson S doc).result = .handled t
  document : (ofJson S doc).result = .ok t
  /-- A reader presents the document piece by piece, which needs finite numbers. -/
  datum : (∀ e ∈ t.toList, (S.encode e.2).isFinite = true) →
    ∀ ε : Type, (ofDatum S (Datum.ofJson doc : Datum ε)).result = .ok t

theorem comesBack_canonical (S : Schema V) (t : Table V) (h : Decoded S t)
    (hvalues : ∀ e ∈ t.toList, (S.decode (S.encode e.2).canonical).result = .ok e.2) :
    ComesBack S t (t.encode S).canonical := by
  obtain ⟨M, ht⟩ := h.exists_represents
  have hentries := ofEntries_written S t M ht hvalues
  have hhook : (Outcome.ofJson S (t.encode S).canonical).result = .handled t := by
    rw [canonical_encode]
    exact congrArg Outcome.ofExcept hentries
  constructor
  case hook => exact hhook
  case document => exact (toExcept_ok_iff S _ t).mpr hhook
  case datum =>
    intro hfinite ε
    have hsettled : ∀ f ∈ t.canonicalFields.map fun e => (e.1, (S.encode e.2).canonical),
        f.2.Settled := by
      intro f hf
      obtain ⟨e, he, rfl⟩ := List.mem_map.mp hf
      obtain ⟨entry, hentry, hvalue⟩ := exists_entry_of_mem t e he
      exact Datum.settled_canonical _ (hvalue ▸ hfinite entry hentry)
    rw [canonical_encode, Datum.ofJson, ofDatum, toEntries_ofFields _ hsettled]
    exact (finish_ok_iff S _ t).mpr (congrArg Outcome.ofExcept hentries)

/-- **A decoded table survives being written**: both its canonical documents decode to the
table itself, and its canonical fields are as many as its entries. -/
theorem Decoded.round_trip (S : Schema V) (t : Table V) (h : Decoded S t)
    (hvalues : ∀ e ∈ t.toList, (S.decode (S.encode e.2).canonical).result = .ok e.2) :
    ComesBack S t (t.encode S).canonical ∧ ComesBack S t (t.encodeFields S).canonical ∧
      t.canonicalFields.length = t.size := by
  obtain ⟨M, ht⟩ := h.exists_represents
  have hback := comesBack_canonical S t h hvalues
  refine ⟨hback, ?_, length_canonicalFields t M ht⟩
  rw [canonical_encodeFields]
  exact hback

/-- A table of both families whose prefixes are nested around the mapped addresses. -/
theorem nested_entries_come_back :
    ComesBack (Schema.text "text")
      (ofTrie (.ofList [(.any, "any"), (.cut 0 80 (by decide), "around"),
        (.cut (Address.mapped 0x0A000000) 104 (by decide), "inner")]))
      (encode (Schema.text "text") (ofTrie (.ofList [(.any, "any"), (.cut 0 80 (by decide), "around"),
        (.cut (Address.mapped 0x0A000000) 104 (by decide), "inner")]))).canonical :=
  (Decoded.round_trip _ _
    (.entries [(.text "10.0.0.0/8", .text "inner"), (.text "::/0", .text "any"),
      (.text "::/80", .text "around")] rfl) fun _ _ => rfl).1

end Table

end CidrTable
