import CidrTable.Proofs.Report
import CidrTable.Proofs.Table.Decode
import CidrTable.Table.OfDatum

/-! The order of insertion.

Two decodes of one document insert the decoded values in orders of their own. Every way to a table
comes to the same with both, but for what the trie records of its insertions: entries
(`Table.ofEntriesIn_sameButForOrder`), documents (`Outcome.ofJson_sameButForOrder`) and data
(`Table.ofDatum_sameButForOrder`). So it is with values that are tables
(`Schema.SameButForOrder.table`). -/
namespace CidrTable

variable {V ε : Type}

/-! ### Entries -/

namespace Table

theorem decodeValues_sameButForOrder {S S' : Schema V} (h : S.SameButForOrder S')
    (fields : Fields Json) : (decodeValues S fields).SameButForOrder (decodeValues S' fields) := by
  induction fields with
  | nil => exact .refl _
  | cons f fields ih =>
    obtain ⟨key, j⟩ := f
    rw [decodeValues, decodeValues]
    refine (h.decode j).bind ?_
    cases (S.decode j).result with
    | error e =>
      rw [h.name]
      exact .refl _
    | ok v => exact ih.bind (.refl _)

theorem insertAll_sameButForOrder (A B : Arrangement V) (values : List (Prefix × V))
    (h : (values.map Prod.fst).Nodup) :
    (insertAll 0 .empty (A.arrange (underTexts values))).SameButForOrder
      (insertAll 0 .empty (B.arrange (underTexts values))) := by
  obtain ⟨stored, hperm, hi⟩ := insertAll_arranged A values h
  obtain ⟨stored', hperm', hi'⟩ := insertAll_arranged B values h
  rw [hi, hi']
  refine ⟨rfl, ?_, rfl⟩
  have hlogs := SameLogs.inserted stored stored' (hperm.trans hperm'.symm)
    ((hperm.map Prod.fst).nodup_iff.mpr h) .nil
  rwa [List.append_nil, List.append_nil] at hlogs

/-- **An order of insertion shows in the records of the insertions only.** -/
theorem ofEntriesIn_sameButForOrder (A B : Arrangement V) {S S' : Schema V}
    (h : S.SameButForOrder S') (entries : List (RawKey × Json)) :
    (ofEntriesIn A S entries).SameButForOrder (ofEntriesIn B S' entries) := by
  refine Reported.SameButForOrder.bind (.refl _) ?_
  cases hc : (collect 0 [] entries).result with
  | error e => exact .refl _
  | ok fields =>
    refine (decodeValues_sameButForOrder h fields).bind ?_
    cases hv : (decodeValues S fields).result with
    | error e => exact .refl _
    | ok decoded =>
      obtain ⟨values, rfl, hnodup⟩ := exists_values S entries fields decoded hc hv
      exact (insertAll_sameButForOrder A B values hnodup).bind (.refl _)

theorem result_ofEntriesIn (A : Arrangement V) (S : Schema V) (entries : List (RawKey × Json)) :
    (ofEntriesIn A S entries).result = (ofEntries S entries).result :=
  (ofEntriesIn_sameButForOrder A S.order (.refl S) entries).result

theorem metrics_ofEntriesIn (A : Arrangement V) (S : Schema V) (entries : List (RawKey × Json)) :
    (ofEntriesIn A S entries).metrics = (ofEntries S entries).metrics :=
  (ofEntriesIn_sameButForOrder A S.order (.refl S) entries).metrics

theorem ofEntries_sameButForOrder {S S' : Schema V} (h : S.SameButForOrder S')
    (entries : List (RawKey × Json)) : (ofEntries S entries).SameButForOrder (ofEntries S' entries) :=
  ofEntriesIn_sameButForOrder S.order S'.order h entries

end Table

/-! ### Documents -/

namespace Outcome

theorem ofBare_sameButForOrder {S S' : Schema V} (h : S.SameButForOrder S') (raw : Json) :
    (ofBare S raw).SameButForOrder (ofBare S' raw) := by
  refine (h.peek raw).bind ?_
  cases (S.peek raw).result with
  | error e =>
    rw [h.name]
    exact .refl _
  | ok found => exact (Table.ofEntries_sameButForOrder h _).map ofExcept

/-- **Decoding a document again changes nothing but the records of insertions.** -/
theorem ofJson_sameButForOrder {S S' : Schema V} (h : S.SameButForOrder S') (raw : Json) :
    (ofJson S raw).SameButForOrder (ofJson S' raw) := by
  refine Reported.SameButForOrder.bind ?_ (.refl _)
  cases raw with
  | null => exact .refl _
  | object fields => exact (Table.ofEntries_sameButForOrder h _).map ofExcept
  | _ => exact ofBare_sameButForOrder h _

end Outcome

/-! ### Data -/

namespace Table

theorem finish_sameButForOrder {S S' : Schema V} (h : S.SameButForOrder S') (o : Outcome V) :
    (finish S o : Reported (Except (DatumError ε) (Table V))).SameButForOrder (finish S' o) := by
  have hexcept : o.toExcept S = o.toExcept S' := by
    cases o with
    | declined raw => rw [Outcome.toExcept, Outcome.toExcept, h.name]
    | _ => rfl
  refine Reported.SameButForOrder.bind (.refl _) ?_
  show (pure ((o.toExcept S).mapError DatumError.decode) : Reported _).SameButForOrder _
  rw [hexcept]
  exact .refl _

/-- **Decoding data again changes nothing but the records of insertions.** -/
theorem ofDatum_sameButForOrder {S S' : Schema V} (h : S.SameButForOrder S') (d : Datum ε) :
    (ofDatum S d).SameButForOrder (ofDatum S' d) := by
  have hbare : ∀ raw, (ofBare S raw : Reported (Except (DatumError ε) (Table V))).SameButForOrder
      (ofBare S' raw) := fun raw =>
    (Outcome.ofBare_sameButForOrder h raw).bind (finish_sameButForOrder h _)
  have hexpected : expected S = expected S' := by
    unfold expected
    rw [h.name]
  fun_induction ofDatum S d with
  | case1 entries e he =>
    rw [ofDatum, he]
    exact .refl _
  | case2 entries read hread =>
    rw [ofDatum, hread]
    exact (ofEntries_sameButForOrder h read).bind (finish_sameButForOrder h _)
  | case3 | case4 =>
    rw [ofDatum]
    exact finish_sameButForOrder h _
  | case5 inner ih =>
    rw [ofDatum]
    exact ih
  | case6 | case7 | case8 | case9 | case10 | case11 =>
    rw [ofDatum]
    exact hbare _
  | case12 items e he =>
    rw [ofDatum, he]
    exact .refl _
  | case13 items read hread =>
    rw [ofDatum, hread]
    exact hbare _
  | case14 d =>
    rw [ofDatum, hexpected]
    · exact .refl _
    all_goals assumption

theorem readJson_sameButForOrder {S S' : Schema V} (h : S.SameButForOrder S') (raw : Json) :
    (readJson S raw).SameButForOrder (readJson S' raw) :=
  (ofDatum_sameButForOrder h _).bind (.refl _)

end Table

/-- Tables that are values are themselves the same but for the order of insertion. -/
theorem Schema.SameButForOrder.table {S S' : Schema V} (h : S.SameButForOrder S') (name : String)
    (A B : Arrangement (Table V)) :
    (Schema.table name S A).SameButForOrder (Schema.table name S' B) := by
  have hdecode : ∀ j, ((Schema.table name S A).decode j).SameButForOrder
      ((Schema.table name S' B).decode j) := fun j =>
    (Table.readJson_sameButForOrder h j).bind (.refl _)
  exact ⟨rfl, hdecode, hdecode⟩

end CidrTable
