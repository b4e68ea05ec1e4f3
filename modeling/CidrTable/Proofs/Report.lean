import CidrTable.Schema
import CidrTable.Trie

/-! Reports that are the same but for the order of insertion.

Decoded values come out of their store in an order that nothing fixes, and what the trie records
of its insertions shows that order. Logs that differ in nothing else (`SameLogs`) hold the same
records of the decoder, in the same order (`SameLogs.decoderRecords_eq`). Steps that differ in
nothing else may be taken one after another (`Reported.SameButForOrder.bind`). -/
namespace CidrTable

variable {α β V : Type}

/-! ### Records of the decoder -/

@[simp] theorem decoderRecords_append (xs ys : List Record) :
    decoderRecords (xs ++ ys) = decoderRecords xs ++ decoderRecords ys := List.filter_append ..

@[simp] theorem decoderRecords_inserted (steps : List String) :
    decoderRecords (steps.map .inserted) = [] := by
  induction steps with
  | nil => rfl
  | cons step steps ih => exact ih

/-! ### Logs -/

/-- Logs that differ at most in the orders in which the values of tables were inserted. -/
inductive SameLogs : List Record → List Record → Prop where
  | nil : SameLogs [] []
  | record (r : Record) {xs ys : List Record} : SameLogs xs ys → SameLogs (r :: xs) (r :: ys)
  /-- Values under distinct prefixes, inserted in two orders. -/
  | inserted {V : Type} (values values' : List (Prefix × V)) {xs ys : List Record} :
      values.Perm values' → (values.map Prod.fst).Nodup → SameLogs xs ys →
      SameLogs ((Trie.empty.recordList values).map .inserted ++ xs)
        ((Trie.empty.recordList values').map .inserted ++ ys)

namespace SameLogs

theorem refl (xs : List Record) : SameLogs xs xs := by
  induction xs with
  | nil => exact .nil
  | cons r xs ih => exact .record r ih

theorem append {xs ys xs' ys' : List Record} (h : SameLogs xs ys) (h' : SameLogs xs' ys') :
    SameLogs (xs ++ xs') (ys ++ ys') := by
  induction h with
  | nil => exact h'
  | record r _ ih => exact .record r ih
  | inserted values values' hperm hnodup _ ih =>
    rw [List.append_assoc, List.append_assoc]
    exact .inserted values values' hperm hnodup ih

/-- **The order of insertion does not show in the records of the decoder.** -/
theorem decoderRecords_eq {xs ys : List Record} (h : SameLogs xs ys) :
    decoderRecords xs = decoderRecords ys := by
  induction h with
  | nil => rfl
  | record r _ ih => rw [decoderRecords, decoderRecords, List.filter_cons, List.filter_cons,
      ← decoderRecords, ← decoderRecords, ih]
  | inserted values values' _ _ _ ih => simp only [decoderRecords_append, decoderRecords_inserted, ih]

end SameLogs

/-! ### Steps -/

/-- The same result and the same metrics, and logs that differ at most in orders of insertion. -/
structure Reported.SameButForOrder (r r' : Reported α) : Prop where
  result : r.result = r'.result
  logs : SameLogs r.logs r'.logs
  metrics : r.metrics = r'.metrics

namespace Reported.SameButForOrder

theorem refl (r : Reported α) : r.SameButForOrder r := ⟨rfl, .refl _, rfl⟩

theorem bind {r r' : Reported α} {f g : α → Reported β} (h : r.SameButForOrder r')
    (hf : (f r.result).SameButForOrder (g r.result)) : (r >>= f).SameButForOrder (r' >>= g) := by
  have hg : (r' >>= g) = ⟨(g r.result).result, r'.logs ++ (g r.result).logs,
      r'.metrics ++ (g r.result).metrics⟩ := by
    rw [h.result]
    rfl
  rw [hg]
  refine ⟨hf.result, h.logs.append hf.logs, ?_⟩
  rw [Reported.metrics_bind, h.metrics, hf.metrics]

theorem map {r r' : Reported α} (f : α → β) (h : r.SameButForOrder r') :
    (f <$> r).SameButForOrder (f <$> r') := h.bind (.refl _)

end Reported.SameButForOrder

/-! ### Schemas -/

/-- Documents decode to the same with both, but for the order of insertion. -/
structure Schema.SameButForOrder (S S' : Schema V) : Prop where
  name : S.name = S'.name
  decode : ∀ j, (S.decode j).SameButForOrder (S'.decode j)
  peek : ∀ j, (S.peek j).SameButForOrder (S'.peek j)

namespace Schema.SameButForOrder

theorem refl (S : Schema V) : S.SameButForOrder S := ⟨rfl, fun _ => .refl _, fun _ => .refl _⟩

/-- The order in which a table stores its own values makes no other difference. -/
theorem order (S : Schema V) (A : Arrangement V) : S.SameButForOrder { S with order := A } :=
  ⟨rfl, fun _ => .refl _, fun _ => .refl _⟩

end Schema.SameButForOrder

end CidrTable
