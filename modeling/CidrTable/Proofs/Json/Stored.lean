import CidrTable.Proofs.Datum

/-! Documents as they are held once read.

Read from the pieces it is presented as, a document with finite numbers comes out canonical
(`Datum.toJson_ofJson`). A document is held in that form: with every object's fields in key
order, each key once, and its binary numbers finite (`Json.Stored`). A reader that takes the
top object apart itself sees that object's fields as they were written and only their values
canonical (`Json.outermost`); of a held document it sees the document itself
(`Stored.outermost_eq`). -/
namespace CidrTable

variable {ε : Type}

/-! ### Documents read from pieces -/

namespace Datum

open Json

mutual

/-- **A document presented piece by piece is read as its canonical form.** -/
theorem toJson_ofJson (j : Json) (h : j.isFinite = true) :
    toJson (ofJson j : Datum ε) = .ok j.canonical := by
  cases j with
  | null => rfl
  | bool b => rfl
  | whole n =>
    rw [ofJson]
    split
    case isTrue hn => exact congrArg (fun n => Except.ok (Json.whole n)) (Int.toNat_of_nonneg hn)
    case isFalse => rfl
  | real x => exact congrArg Except.ok (if_pos h)
  | text s => rfl
  | array items =>
    rw [ofJson, toJson, toItems_canonicalItems items h]
    rfl
  | object fields =>
    rw [ofJson, toJson, toFields_canonicalFields true fields h]
    rfl

theorem toItems_canonicalItems (items : List Json) (h : itemsFinite items = true) :
    toItems (ofItems items : List (Datum ε)) = .ok (canonicalItems items) := by
  cases items with
  | nil => rfl
  | cons j items =>
    obtain ⟨hj, hitems⟩ := Bool.and_eq_true_iff.mp h
    rw [ofItems, toItems, toJson_ofJson j hj, toItems_canonicalItems items hitems]
    rfl

theorem toFields_canonicalFields (first : Bool) (fields : List (String × Json))
    (h : fieldsFinite fields = true) :
    toFields first (ofFields fields : List (Datum ε × Datum ε)) = .ok (canonicalFields fields) := by
  cases fields with
  | nil => rfl
  | cons f fields =>
    obtain ⟨hf, hfields⟩ := Bool.and_eq_true_iff.mp h
    rw [ofFields, toFields, toJson_ofJson f.2 hf, toFields_canonicalFields false fields hfields]
    cases first <;> rfl

end

end Datum

namespace Json

/-! ### The outermost fields -/

/-- The document with its own fields as they were written and all inside them canonical. -/
def outermost : Json → Json
  | .object fields => .object (canonicalFields fields)
  | j => j.canonical

/-- The keys of an object in the order of its fields; other documents have none. -/
def keys : Json → List String
  | .object fields => fields.map Prod.fst
  | _ => []

theorem keys_outermost (j : Json) : j.outermost.keys = j.keys := by
  cases j with
  | object fields => simp [outermost, keys, canonicalFields_eq, Function.comp_def]
  | _ => rfl

/-! ### Held documents -/

/-- The document is canonical and its binary numbers are finite. -/
structure Stored (j : Json) : Prop where
  canonical : j.canonical = j
  finite : j.isFinite = true

theorem Stored.sorted {fields : List (String × Json)} (h : (Json.object fields).Stored) :
    Fields.Sorted fields := by
  have hfields : Fields.ofPairs (canonicalFields fields) = fields := Json.object.inj h.canonical
  rw [← hfields]
  exact Fields.sorted_ofPairs _

/-- The values of a held object's fields are canonical where they stand. -/
theorem Stored.canonicalFields_eq {fields : List (String × Json)}
    (h : (Json.object fields).Stored) : canonicalFields fields = fields := by
  have hsorted : Fields.Sorted (canonicalFields fields) := by
    rw [Json.canonicalFields_eq]
    exact List.pairwise_map.mpr h.sorted
  -- The canonical fields rise as the fields do, so putting them in turn moves none.
  rw [← Fields.ofPairs_of_sorted _ hsorted]
  exact Json.object.inj h.canonical

theorem isFinite_of_mem_fields {fields : List (String × Json)} (h : fieldsFinite fields = true)
    {e : String × Json} (he : e ∈ fields) : e.2.isFinite = true := by
  induction fields with
  | nil => cases he
  | cons f fields ih =>
    obtain ⟨hf, hfields⟩ := Bool.and_eq_true_iff.mp h
    rcases List.mem_cons.mp he with rfl | he
    · exact hf
    · exact ih hfields he

theorem Stored.of_mem {fields : List (String × Json)} (h : (Json.object fields).Stored)
    {e : String × Json} (he : e ∈ fields) : e.2.Stored := by
  refine ⟨?_, isFinite_of_mem_fields h.finite he⟩
  have hmap : fields.map (fun e => (e.1, e.2.canonical)) = fields.map id := by
    rw [← Json.canonicalFields_eq, h.canonicalFields_eq, List.map_id]
  exact congrArg Prod.snd (List.map_inj_left.mp hmap e he)

/-- A reader that takes a held document apart sees the document itself. -/
theorem Stored.outermost_eq {j : Json} (h : j.Stored) : j.outermost = j := by
  cases j with
  | object fields => exact congrArg Json.object h.canonicalFields_eq
  | _ => exact h.canonical

end Json

end CidrTable
