import CidrTable.Proofs.Located
import CidrTable.Proofs.Table.InsertionOrder
import CidrTable.Proofs.Table.Outcome
import CidrTable.Schema.Scalar

/-! Documents presented piece by piece.

Whether a document is decoded at once or from the pieces it is presented as, the same is
decoded, logged and counted: `ofDatum_ofJson` equates the two, effects and all. So a reader
of documents agrees with the decoding of the document it reads (`readJson_agrees`), with two
exceptions. Each decode inserts its values in an order of its own, which the trie's records show;
and what is reported of a failure is the failure's message, but a message that ends at a place is
taken apart, and a place in line zero is lost (`readJson_loses_place_and_order`). -/
namespace CidrTable

variable {V ε : Type}

/-! ### Fields as pieces -/

/-- The pieces of an object are read as the entries of its canonical fields. -/
theorem Datum.toEntries_canonicalFields (fields : List (String × Json))
    (h : Json.fieldsFinite fields = true) :
    toEntries (ofFields fields : List (Datum ε × Datum ε)) =
      .ok (entriesOf (Json.canonicalFields fields)) := by
  induction fields with
  | nil => rfl
  | cons f fields ih =>
    obtain ⟨hf, hfields⟩ := Bool.and_eq_true_iff.mp h
    rw [ofFields, toEntries, toJson_ofJson f.2 hf, ih hfields]
    rfl

/-! ### Reported outcomes -/

namespace Outcome

/-- The table of an outcome, or what is reported of why there is none; a decline is an error. -/
def reportedBy (S : Schema V) (report : DecodeError → ε) (o : Outcome V) : Except ε (Table V) :=
  (o.toExcept S).mapError report

@[simp] theorem reportedBy_declined (S : Schema V) (report : DecodeError → ε) (raw : Json) :
    (declined raw).reportedBy S report = .error (report (.notApplicable S.name)) := rfl

@[simp] theorem reportedBy_failed (S : Schema V) (report : DecodeError → ε) (e : DecodeError) :
    (failed e).reportedBy S report = .error (report e) := rfl

theorem reportedBy_ok_iff (S : Schema V) (report : DecodeError → ε) (o : Outcome V) (t : Table V) :
    o.reportedBy S report = .ok t ↔ o = .handled t := by
  rw [reportedBy, mapError_eq_ok_iff, Table.toExcept_ok_iff]

theorem mapError_reportedBy {ε' : Type} (S : Schema V) (report : DecodeError → ε) (f : ε → ε')
    (o : Outcome V) : (o.reportedBy S report).mapError f = o.reportedBy S fun e => f (report e) := by
  rw [reportedBy, reportedBy]
  cases o.toExcept S with
  | ok t => rfl
  | error e => rfl

end Outcome

namespace Table

/-- An outcome is finished by counting it and reporting it. -/
theorem bind_finish (S : Schema V) (r : Reported (Outcome V)) :
    (r >>= finish S : Reported (Except (DatumError ε) (Table V))) =
      Outcome.reportedBy S .decode <$> (r >>= Outcome.counted) := by
  rw [map_bind]
  rfl

theorem ofBare_of_isBare (S : Schema V) (raw : Json) (h : raw.isBare = true) :
    (ofBare S raw : Reported (Except (DatumError ε) (Table V))) =
      Outcome.reportedBy S .decode <$> Outcome.ofJson S raw := by
  rw [Outcome.ofJson_of_isBare S raw h, ← bind_finish]
  rfl

/-- **Decoding the pieces of a document is decoding the document**, its own fields in the
order they were written: the same result, the same records, the same metrics. -/
theorem ofDatum_ofJson (S : Schema V) (j : Json) (h : j.isFinite = true) :
    ofDatum S (Datum.ofJson j : Datum ε) =
      Outcome.reportedBy S .decode <$> Outcome.ofJson S j.outermost := by
  cases j with
  | null => rfl
  | bool b => exact ofBare_of_isBare S _ rfl
  | whole n =>
    rw [Datum.ofJson]
    split
    case isTrue hn =>
      have hnat : ((n.toNat : Nat) : Int) = n := Int.toNat_of_nonneg hn
      rw [ofDatum, hnat]
      exact ofBare_of_isBare S _ rfl
    case isFalse => exact ofBare_of_isBare S _ rfl
  | real x =>
    have hx : Json.ofBinary64 x = .real x := if_pos h
    rw [Datum.ofJson, ofDatum, hx]
    exact ofBare_of_isBare S _ rfl
  | text s => exact ofBare_of_isBare S _ rfl
  | array items =>
    rw [Datum.ofJson, ofDatum, Datum.toItems_canonicalItems items h]
    exact ofBare_of_isBare S _ rfl
  | object fields =>
    rw [Datum.ofJson, ofDatum, Datum.toEntries_canonicalFields fields h]
    have hfinish := bind_finish (ε := ε) S
      (Outcome.uncounted S (.object (Json.canonicalFields fields)))
    rw [Outcome.uncounted, bind_map_left] at hfinish
    exact hfinish

/-! ### Readers of documents -/

/-- A reader of documents decodes the document and reports failures by their messages. -/
theorem readJson_eq (S : Schema V) (raw : Json) (h : raw.Stored) :
    readJson S raw =
      Outcome.reportedBy S (fun e => Located.ofString e.message) <$> Outcome.ofJson S raw := by
  rw [readJson, ofDatum_ofJson S raw h.finite, h.outermost_eq, bind_pure_comp, Functor.map_map]
  apply congrArg (· <$> Outcome.ofJson S raw)
  funext o
  exact Outcome.mapError_reportedBy S DatumError.decode _ o

/-- A decline is reported in words that end at no place. -/
theorem not_endsAt_notApplicable (name : String) (m : Located) :
    ¬ Located.EndsAt (DecodeError.notApplicable name).message m := by
  have hmessage : (DecodeError.notApplicable name).message =
      "input is neither a map nor a " ++ Text.quoted name := rfl
  have hquote : (Text.quoted name).toList.getLast? = some '"' := by
    rw [Text.quoted, String.toList_ofList]
    exact List.getLast?_concat
  have hlast : (DecodeError.notApplicable name).message.toList.getLast? = some '"' := by
    rw [hmessage, String.toList_append, List.getLast?_append, hquote]
    rfl
  exact Located.not_endsAt_of_getLast? _ '"' hlast (by decide) m

/-- A reader of documents agrees with decoding the document, each with an order of insertion of
its own. -/
structure ReadsAlike (S S' : Schema V) (raw : Json) : Prop where
  handled : ∀ t, (readJson S raw).result = .ok t ↔ (Outcome.ofJson S' raw).result = .handled t
  /-- A failure is reported by its message, unless that ends at a place which is written
  otherwise; any place that it ends at is taken for the error's. -/
  failed : ∀ e, (Outcome.ofJson S' raw).result = .failed e →
    ∃ m, (readJson S raw).result = .error m ∧
      ((∀ p, Located.EndsAt e.message p → p.write = e.message) → m.write = e.message) ∧
      ∀ p, Located.EndsAt e.message p → m = p
  declined : ∀ r, (Outcome.ofJson S' raw).result = .declined r →
    ∃ m, (readJson S raw).result = .error m ∧
      m.write = (DecodeError.notApplicable S'.name).message
  /-- The decoder's records are the same, in the same order. -/
  decoder : decoderRecords (readJson S raw).logs = decoderRecords (Outcome.ofJson S' raw).logs
  /-- The trie's stand in the same places among them, and are those of inserting the same
  prefixes. -/
  logs : SameLogs (readJson S raw).logs (Outcome.ofJson S' raw).logs
  metrics : (readJson S raw).metrics = (Outcome.ofJson S' raw).metrics

/-- **A reader of documents agrees with decoding the document**, for every document that is
held and every schema, whatever the orders of insertion. -/
theorem readJson_agrees (S S' : Schema V) (hS : S.SameButForOrder S') (raw : Json)
    (h : raw.Stored) : ReadsAlike S S' raw := by
  have heq := readJson_eq S raw h
  have hsame := Outcome.ofJson_sameButForOrder hS raw
  have hresult : (readJson S raw).result =
      (Outcome.ofJson S' raw).result.reportedBy S fun e => Located.ofString e.message := by
    rw [heq, Reported.result_map, hsame.result]
  have hlogs : SameLogs (readJson S raw).logs (Outcome.ofJson S' raw).logs := by
    rw [heq, Reported.logs_map]
    exact hsame.logs
  constructor
  case handled =>
    intro t
    rw [hresult, Outcome.reportedBy_ok_iff]
  case failed =>
    intro e he
    refine ⟨Located.ofString e.message, ?_, Located.write_ofString _,
      Located.ofString_of_endsAt _⟩
    rw [hresult, he, Outcome.reportedBy_failed]
  case declined =>
    intro r hr
    have hplain := not_endsAt_notApplicable S'.name
    refine ⟨Located.ofString (DecodeError.notApplicable S'.name).message, ?_,
      Located.write_ofString _ fun p hp => absurd hp (hplain p)⟩
    rw [hresult, hr, Outcome.reportedBy_declined, hS.name]
  case decoder => exact hlogs.decoderRecords_eq
  case logs => exact hlogs
  case metrics => rw [heq, Reported.metrics_map, hsame.metrics]

/-- Tables in a table, decoded twice in opposite orders of insertion. -/
theorem nested_tables_read_alike :
    (Schema.table "table" (Schema.text "text")).SameButForOrder
        (Schema.table "table"
          { Schema.text "text" with order := ⟨List.reverse, List.reverse_perm⟩ }
          ⟨List.reverse, List.reverse_perm⟩) ∧
      (Json.object [("10.0.0.0/8", .object [("::/0", .text "a"), ("fe80::/10", .text "b")]),
        ("::/0", .text "any")]).Stored ∧
      ReadsAlike (Schema.table "table" (Schema.text "text"))
        (Schema.table "table"
          { Schema.text "text" with order := ⟨List.reverse, List.reverse_perm⟩ }
          ⟨List.reverse, List.reverse_perm⟩)
        (.object [("10.0.0.0/8", .object [("::/0", .text "a"), ("fe80::/10", .text "b")]),
          ("::/0", .text "any")]) ∧
      ∃ t, (readJson (Schema.table "table" (Schema.text "text"))
        (.object [("10.0.0.0/8", .object [("::/0", .text "a"), ("fe80::/10", .text "b")]),
          ("::/0", .text "any")])).result = .ok t ∧ t.size = 2 :=
  have hsame := (Schema.SameButForOrder.order (Schema.text "text")
    ⟨List.reverse, List.reverse_perm⟩).table "table" .byKey ⟨List.reverse, List.reverse_perm⟩
  ⟨hsame, ⟨rfl, rfl⟩, readJson_agrees _ _ hsame _ ⟨rfl, rfl⟩, _, rfl, rfl⟩

/-- Two things are lost: a place in line zero at the end of a message, so that the reader's words
are not those of the failure, and the order of two insertions, so that the logs differ. -/
theorem readJson_loses_place_and_order :
    ((Json.object [("10.0.0.0/x at line 0 column 9", .text "a")]).Stored ∧ ∃ e m,
      (Outcome.ofJson (Schema.text "text")
        (.object [("10.0.0.0/x at line 0 column 9", .text "a")])).result = .failed e ∧
      (readJson (Schema.text "text")
        (.object [("10.0.0.0/x at line 0 column 9", .text "a")])).result = .error m ∧
      m.write ≠ e.message) ∧
    (Json.object [("10.0.0.0/8", .text "a"), ("::/0", .text "b")]).Stored ∧
      (Schema.text "text").SameButForOrder
        { Schema.text "text" with order := ⟨List.reverse, List.reverse_perm⟩ } ∧
      (readJson (Schema.text "text")
          (.object [("10.0.0.0/8", .text "a"), ("::/0", .text "b")])).logs ≠
        (Outcome.ofJson { Schema.text "text" with order := ⟨List.reverse, List.reverse_perm⟩ }
          (.object [("10.0.0.0/8", .text "a"), ("::/0", .text "b")])).logs := by
  refine ⟨⟨⟨rfl, rfl⟩, ?_⟩, ⟨rfl, rfl⟩, .order _ _, by decide⟩
  have hcause : Located.EndsAt "invalid netmask x at line 0 column 9" ⟨"invalid netmask x", 0, 9⟩ :=
    Located.endsAt_place "invalid netmask x" 0 9 (by decide) (by decide)
  have hplace := hcause.append ("key " ++ toString 0 ++ " (" ++
    Text.quoted "10.0.0.0/x at line 0 column 9" ++ ") is not a valid subnet: ")
  exact ⟨.subnet 0 "10.0.0.0/x at line 0 column 9" (.netmask "x at line 0 column 9"), _, rfl, rfl,
    hplace.write_ofString_ne rfl⟩

end Table

end CidrTable
