import CidrTable.Datum.Read
import CidrTable.Proofs.Fields

/-! Documents read back from the pieces they are presented as.

Presented piece by piece and read again, a canonical document comes back as it was if its
binary numbers are finite (`Datum.settled_canonical`): an object's fields are in order already,
so putting them in turn moves none. -/
namespace CidrTable

variable {ε : Type}

namespace Json

mutual

/-- Every binary number in the document is finite. -/
def isFinite : Json → Bool
  | .real x => x.isFinite
  | .array items => itemsFinite items
  | .object fields => fieldsFinite fields
  | _ => true

def itemsFinite : List Json → Bool
  | [] => true
  | j :: rest => isFinite j && itemsFinite rest

def fieldsFinite : List (String × Json) → Bool
  | [] => true
  | (_, j) :: rest => isFinite j && fieldsFinite rest

end

/-- The document comes back from its pieces as it is. -/
def Settled (j : Json) : Prop :=
  ∀ ε : Type, Datum.toJson (Datum.ofJson j : Datum ε) = .ok j

theorem canonicalFields_eq (fields : List (String × Json)) :
    canonicalFields fields = fields.map fun e => (e.1, e.2.canonical) := by
  induction fields with
  | nil => rfl
  | cons e fields ih => rw [canonicalFields, ih, List.map_cons]

end Json

namespace Datum

open Json

theorem toItems_ofItems (items : List Json) (h : ∀ j ∈ items, j.Settled) :
    toItems (ofItems items : List (Datum ε)) = .ok items := by
  induction items with
  | nil => rfl
  | cons j items ih =>
    rw [ofItems, toItems, h j List.mem_cons_self, ih fun i hi => h i (List.mem_cons_of_mem _ hi)]
    rfl

theorem toFields_ofFields (first : Bool) (fields : List (String × Json))
    (h : ∀ e ∈ fields, e.2.Settled) :
    toFields first (ofFields fields : List (Datum ε × Datum ε)) = .ok fields := by
  induction fields generalizing first with
  | nil => rfl
  | cons e fields ih =>
    rw [ofFields, toFields, h e List.mem_cons_self,
      ih false fun f hf => h f (List.mem_cons_of_mem _ hf)]
    cases first <;> rfl

/-- Fields in order whose values come back make an object that comes back. -/
theorem settled_object (fields : Fields Json) (hs : Fields.Sorted fields)
    (h : ∀ e ∈ fields, e.2.Settled) : (Json.object fields).Settled := by
  intro ε
  rw [ofJson, toJson, toFields_ofFields true fields h]
  exact congrArg (fun fields => Except.ok (Json.object fields)) (Fields.ofPairs_of_sorted fields hs)

mutual

/-- **A canonical document comes back from its pieces.** -/
theorem settled_canonical (j : Json) (h : j.isFinite = true) : j.canonical.Settled := by
  cases j with
  | null => exact fun _ => rfl
  | bool b => exact fun _ => rfl
  | whole n =>
    intro ε
    rw [canonical, ofJson]
    split
    case isTrue hn => exact congrArg (fun n => Except.ok (Json.whole n)) (Int.toNat_of_nonneg hn)
    case isFalse => rfl
    all_goals nofun
  | real x => exact fun _ => congrArg Except.ok (if_pos h)
  | text s => exact fun _ => rfl
  | array items =>
    intro ε
    rw [canonical, ofJson, toJson, toItems_ofItems _ (settled_canonicalItems items h)]
    rfl
  | object fields =>
    refine settled_object _ (Fields.sorted_ofPairs _) fun e he => ?_
    have hmem := mem_of_lastWrite ((Fields.mem_ofPairs _ e.1 e.2).mp he)
    exact settled_canonicalFields fields h e hmem

theorem settled_canonicalItems (items : List Json) (h : itemsFinite items = true) :
    ∀ j ∈ canonicalItems items, j.Settled := by
  cases items with
  | nil => exact nofun
  | cons i items =>
    obtain ⟨hi, hitems⟩ := Bool.and_eq_true_iff.mp h
    intro j hj
    rcases List.mem_cons.mp hj with rfl | hj
    · exact settled_canonical i hi
    · exact settled_canonicalItems items hitems j hj

theorem settled_canonicalFields (fields : List (String × Json)) (h : fieldsFinite fields = true) :
    ∀ e ∈ canonicalFields fields, e.2.Settled := by
  cases fields with
  | nil => exact nofun
  | cons f fields =>
    obtain ⟨hf, hfields⟩ := Bool.and_eq_true_iff.mp h
    intro e he
    rcases List.mem_cons.mp he with rfl | he
    · exact settled_canonical f.2 hf
    · exact settled_canonicalFields fields hfields e he

end

end Datum

end CidrTable
