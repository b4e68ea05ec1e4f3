import CidrTable.Proofs.Json.Stored
import CidrTable.Proofs.Table.Decoded
import CidrTable.Proofs.Table.Verdict

/-! What becomes of a document.

Null is the empty table. An object is the table of its entries or fails as they do. Any other
document is bare: lent, it is found to be a value or handed back as it was, and a value is then
decoded for good, as the entry of the whole address space. What was found to be a value may still
fail there (`Bare`), unless documents decode alike in both ways. Where they do, a bare document
never fails, and the three kinds of document cover all there are and share no outcome they
should not (`ofJson_divides`). -/
namespace CidrTable

variable {V : Type}

/-- The entries of an object's fields, in their order. -/
def entriesOf (fields : List (String × Json)) : List (RawKey × Json) :=
  fields.map fun e => (.text e.1, e.2)

def Json.isBare : Json → Bool
  | .null => false
  | .object _ => false
  | _ => true

theorem Json.kinds (j : Json) : j = .null ∨ (∃ fields, j = .object fields) ∨ j.isBare = true := by
  cases j with
  | null => exact .inl rfl
  | object fields => exact .inr (.inl ⟨fields, rfl⟩)
  | _ => exact .inr (.inr rfl)

/-! ### One value for the whole space -/

namespace Table

/-- The table with one value for the whole address space. -/
def whole (x : V) : Table V := ofTrie (.ofList [(.any, x)])

theorem size_whole (x : V) : (whole x).size = 1 := rfl

theorem any_contains (q : Prefix) : Prefix.any.contains q = true := by
  simp [Prefix.contains, Prefix.any, Prefix.cut, Word.keep, Word.mask]

theorem lookupMatch_whole (x : V) (a : Address) : (whole x).lookupMatch a = some (.any, x) := by
  have hrep := represents_ofTrie (Trie.represents_ofList [(Prefix.any, x)])
  refine (hrep.lookupMatch_eq_some_iff a .any x).mpr ⟨rfl, any_contains _, fun q hq _ => ?_⟩
  obtain ⟨y, hy⟩ := Option.ne_none_iff_exists'.mp hq
  obtain ⟨rfl, -⟩ := Prod.mk.inj (List.mem_singleton.mp (mem_of_lastWrite hy))
  exact Nat.le_refl _

theorem ofEntries_whole_of_ok (S : Schema V) (raw : Json) (x : V) (h : (S.decode raw).result = .ok x) :
    (ofEntries S [(.text Outcome.wholeSpace, raw)]).result = .ok (whole x) :=
  ofEntries_of_decodes S _ [(.any, raw)] [(.any, x)] rfl (.cons ⟨rfl, h⟩ .nil)

theorem ofEntries_whole_of_error (S : Schema V) (raw : Json) (e : ValueError)
    (h : (S.decode raw).result = .error e) :
    (ofEntries S [(.text Outcome.wholeSpace, raw)]).result = .error (.value S.name e.report) :=
  ofEntries_of_decode_error S _ [(Outcome.wholeSpace, raw)] _ rfl
    (decodeValues_of_error S Outcome.wholeSpace raw [] e h)

end Table

/-! ### Bare values -/

namespace Outcome

theorem result_ofBare_of_refused (S : Schema V) (raw : Json) (e : ValueError)
    (h : (S.peek raw).result = .error e) : (ofBare S raw).result = .declined raw := by
  simp only [ofBare, Reported.result_bind, h, Reported.result_pure]

/-- What is found to be a value is the entry of the whole space. -/
theorem ofBare_of_accepted (S : Schema V) (raw : Json) (x : V) (h : (S.peek raw).result = .ok x) :
    ofBare S raw =
      S.peek raw >>= fun _ => ofExcept <$> Table.ofEntries S [(.text wholeSpace, raw)] := by
  rw [ofBare]
  refine Reported.bind_congr _ _ _ ?_
  rw [h]

theorem result_ofBare_of_accepted (S : Schema V) (raw : Json) (x : V)
    (h : (S.peek raw).result = .ok x) : (ofBare S raw).result =
      ofExcept (Table.ofEntries S [(.text wholeSpace, raw)]).result := by
  rw [ofBare_of_accepted S raw x h]
  rfl

/-- What becomes of a bare document. -/
inductive Bare (S : Schema V) (raw : Json) : Outcome V → Prop where
  | declined (e : ValueError) : (S.peek raw).result = .error e → Bare S raw (.declined raw)
  | handled (found x : V) : (S.peek raw).result = .ok found → (S.decode raw).result = .ok x →
      Bare S raw (.handled (Table.whole x))
  /-- It is found to be a value, and yet does not decode as one. -/
  | failed (found : V) (e : ValueError) : (S.peek raw).result = .ok found →
      (S.decode raw).result = .error e → Bare S raw (.failed (.value S.name e.report))

/-- **A bare document comes to one of three ends.** -/
theorem bare_ofBare (S : Schema V) (raw : Json) : Bare S raw (ofBare S raw).result := by
  cases hpeek : (S.peek raw).result with
  | error e =>
    rw [result_ofBare_of_refused S raw e hpeek]
    exact .declined e hpeek
  | ok found =>
    rw [result_ofBare_of_accepted S raw found hpeek]
    cases hdecode : (S.decode raw).result with
    | ok x =>
      rw [Table.ofEntries_whole_of_ok S raw x hdecode]
      exact .handled found x hpeek hdecode
    | error e =>
      rw [Table.ofEntries_whole_of_error S raw e hdecode]
      exact .failed found e hpeek hdecode

theorem uncounted_of_isBare (S : Schema V) (raw : Json) (h : raw.isBare = true) :
    uncounted S raw = ofBare S raw := by
  unfold uncounted
  split
  case h_1 => cases h
  case h_2 => cases h
  case h_3 => rfl

theorem ofJson_of_isBare (S : Schema V) (raw : Json) (h : raw.isBare = true) :
    ofJson S raw = ofBare S raw >>= counted := by
  rw [ofJson, uncounted_of_isBare S raw h]

theorem result_ofJson_of_isBare (S : Schema V) (raw : Json) (h : raw.isBare = true) :
    (ofJson S raw).result = (ofBare S raw).result := by
  rw [ofJson_of_isBare S raw h]
  rfl

/-! ### Documents -/

theorem ofExcept_ne_declined (r : Except DecodeError (Table V)) (raw : Json) :
    ofExcept r ≠ .declined raw := by
  cases r <;> exact nofun

/-- The entries that a document is decoded as, if it comes to that. -/
inductive Entries : Json → List (RawKey × Json) → Prop where
  | object (fields : List (String × Json)) : Entries (.object fields) (entriesOf fields)
  | bare (raw : Json) : raw.isBare = true → Entries raw [(.text wholeSpace, raw)]

/-- A document fails as the entries that it is decoded as do. -/
theorem exists_entries_of_failed (S : Schema V) (raw : Json) (e : DecodeError)
    (h : (ofJson S raw).result = .failed e) :
    ∃ entries, Entries raw entries ∧ (Table.ofEntries S entries).result = .error e := by
  have hentries : ∀ entries, ofExcept (Table.ofEntries S entries).result = .failed e →
      (Table.ofEntries S entries).result = .error e := by
    intro entries hfailed
    cases hr : (Table.ofEntries S entries).result with
    | ok t =>
      rw [hr] at hfailed
      cases hfailed
    | error f =>
      rw [hr] at hfailed
      exact congrArg _ (Outcome.failed.inj hfailed)
  rcases raw.kinds with rfl | ⟨fields, rfl⟩ | hb
  · cases h
  · exact ⟨_, .object fields, hentries _ h⟩
  · rw [result_ofJson_of_isBare S raw hb] at h
    cases hpeek : (S.peek raw).result with
    | error f =>
      rw [result_ofBare_of_refused S raw f hpeek] at h
      cases h
    | ok found =>
      rw [result_ofBare_of_accepted S raw found hpeek] at h
      exact ⟨_, .bare raw hb, hentries _ h⟩

/-- No failure of a document says that the document is no table. -/
theorem ne_notApplicable_of_failed (S : Schema V) (raw : Json) (e : DecodeError)
    (h : (ofJson S raw).result = .failed e) (name : String) : e ≠ .notApplicable name := by
  obtain ⟨entries, -, hentries⟩ := exists_entries_of_failed S raw e h
  exact ((Table.result_iff_verdict S _ _).mp hentries).kinds.2 name

/-- Where documents decode alike, a bare document is decoded for good as it was found. -/
theorem result_ofBare_of_ok {S : Schema V} (hS : S.DecodesAlike) (raw : Json) (x : V)
    (h : (S.decode raw).result = .ok x) : (ofBare S raw).result = .handled (Table.whole x) := by
  rw [result_ofBare_of_accepted S raw x ((hS raw x).mpr h), Table.ofEntries_whole_of_ok S raw x h]
  rfl

theorem result_ofBare_of_error {S : Schema V} (hS : S.DecodesAlike) (raw : Json) (e : ValueError)
    (h : (S.decode raw).result = .error e) : (ofBare S raw).result = .declined raw := by
  cases hpeek : (S.peek raw).result with
  | error f => exact result_ofBare_of_refused S raw f hpeek
  | ok found => cases h.symm.trans ((hS raw found).mp hpeek)

theorem result_ofBare_ne_failed {S : Schema V} (hS : S.DecodesAlike) (raw : Json) (e : DecodeError) :
    (ofBare S raw).result ≠ .failed e := by
  intro hfailed
  have hbare := bare_ofBare S raw
  rw [hfailed] at hbare
  cases hbare with
  | failed found e hpeek hdecode => cases hdecode.symm.trans ((hS raw found).mp hpeek)

/-- What becomes of a document, kind by kind, and what is made of it where a table is asked for. -/
structure Divides (S : Schema V) (raw : Json) : Prop where
  null : raw = .null → (ofJson S raw).result = .handled .empty
  /-- The entries of an object come in key order, and an object is never handed back. -/
  object : ∀ fields, raw = .object fields → Fields.Sorted fields ∧
    (ofJson S raw).result = ofExcept (Table.ofEntries S (entriesOf fields)).result ∧
    ∀ r, (ofJson S raw).result ≠ .declined r
  /-- A bare value is the value of every address. -/
  value : raw.isBare = true → ∀ x, (S.decode raw).result = .ok x →
    ∃ t, (ofJson S raw).result = .handled t ∧ t.size = 1 ∧ ∀ a, t.lookupMatch a = some (.any, x)
  /-- A bare document that is no value is handed back as it was. -/
  declined : raw.isBare = true → ∀ e, (S.decode raw).result = .error e →
    (ofJson S raw).result = .declined raw
  /-- A bare document is never a failure. -/
  bare : raw.isBare = true → ∀ e, (ofJson S raw).result ≠ .failed e
  /-- Asked for a table, a document gives the one it is handled as. -/
  table : ∀ t, (Table.ofJson S raw).result = .ok t ↔ (ofJson S raw).result = .handled t
  /-- It is said to be no table exactly if it is handed back. -/
  notApplicable : ∀ name, (Table.ofJson S raw).result = .error (.notApplicable name) ↔
    name = S.name ∧ ∃ r, (ofJson S raw).result = .declined r
  failed : ∀ e, (ofJson S raw).result = .failed e → (Table.ofJson S raw).result = .error e

/-- **Every document has its one way** where documents decode alike: null is the empty table, an
object is what its entries are, and anything else is the value of every address or is handed
back. -/
theorem ofJson_divides (S : Schema V) (hS : S.DecodesAlike) (raw : Json) (h : raw.Stored) :
    Divides S raw := by
  constructor
  case null =>
    rintro rfl
    rfl
  case object =>
    rintro fields rfl
    exact ⟨h.sorted, rfl, ofExcept_ne_declined _⟩
  case value =>
    intro hb x hx
    rw [result_ofJson_of_isBare S raw hb, result_ofBare_of_ok hS raw x hx]
    exact ⟨_, rfl, Table.size_whole x, Table.lookupMatch_whole x⟩
  case declined =>
    intro hb e he
    rw [result_ofJson_of_isBare S raw hb]
    exact result_ofBare_of_error hS raw e he
  case bare =>
    intro hb e
    rw [result_ofJson_of_isBare S raw hb]
    exact result_ofBare_ne_failed hS raw e
  case table => exact fun t => Table.toExcept_ok_iff S _ t
  case notApplicable =>
    intro name
    show (ofJson S raw).result.toExcept S = _ ↔ _
    cases hr : (ofJson S raw).result with
    | handled t => simp [toExcept]
    | declined r => simp [toExcept, eq_comm]
    | failed e => simp [toExcept, ne_notApplicable_of_failed S raw e hr name]
  case failed =>
    intro e he
    show (ofJson S raw).result.toExcept S = _
    rw [he]
    rfl

theorem decodesAlike_table (name : String) (S : Schema V) (A : Arrangement (Table V)) :
    (Schema.table name S A).DecodesAlike := fun _ _ => .rfl

/-- A bare text where the values are tables: the table of every address is itself a table of
every address. -/
theorem nested_text_divides :
    (Schema.table "table" (Schema.text "text")).DecodesAlike ∧ (Json.text "customer").Stored ∧
      Divides (Schema.table "table" (Schema.text "text")) (.text "customer") ∧
      (ofJson (Schema.table "table" (Schema.text "text")) (.text "customer")).result =
        .handled (Table.whole (Table.whole "customer")) :=
  ⟨decodesAlike_table _ _ _, ⟨rfl, rfl⟩,
    ofJson_divides _ (decodesAlike_table _ _ _) _ ⟨rfl, rfl⟩, rfl⟩

/-- A text that is found to be a value but refused when it is given away. -/
example : (ofJson { Schema.text "text" with decode := fun _ => pure (.error (.table ⟨"no", 0, 0⟩)) }
    (.text "a")).result = .failed (.value "text" ⟨"no", 0, 0⟩) := rfl

end Outcome

end CidrTable
