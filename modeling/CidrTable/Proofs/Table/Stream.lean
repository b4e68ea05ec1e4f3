import CidrTable.Proofs.Table.Presented
import CidrTable.Schema.Collection

/-! Streams that present no map.

A bare value, an absent one or a list, from any reader, is decoded as the document that it
reads as (`ofDatum_of_unmapped`). The one exception is a number that is not finite: it reads
as null, which is the empty table, but it is taken for a bare value, so that where null is a
value the table has it for every address (`follows_iff_finite`). -/
namespace CidrTable

variable {V ε : Type}

namespace Datum

/-- A stream that presents no map: a value, an absent one, or a list whose items read as
documents. -/
inductive Unmapped : Datum ε → Prop where
  | bool (b : Bool) : Unmapped (.bool b)
  | int (n : Int) : Unmapped (.int n)
  | uint (n : Nat) : Unmapped (.uint n)
  | float (x : Binary64) : Unmapped (.float x)
  | char (c : Char) : Unmapped (.char c)
  | text (s : String) : Unmapped (.text s)
  | unit : Unmapped .unit
  | none : Unmapped .none
  | some {inner : Datum ε} : Unmapped inner → Unmapped (.some inner)
  | seq (items : List (Datum ε)) (js : List Json) : toItems items = .ok js → Unmapped (.seq items)

/-- False of a number that is not finite, given as it is or as an optional value. Numbers inside
a list do not count. -/
def isFinite : Datum ε → Bool
  | float x => x.isFinite
  | some inner => inner.isFinite
  | _ => true

end Datum

theorem Json.ne_object_of_isBare {raw : Json} (h : raw.isBare = true)
    (fields : List (String × Json)) : raw ≠ .object fields := by
  rintro rfl
  cases h

namespace Table

theorem whole_ne_empty (x : V) : whole x ≠ empty := by
  intro h
  have hsize := congrArg size h
  cases hsize

/-- A bare value is reported as what becomes of the bare document. -/
theorem result_ofBare (S : Schema V) (raw : Json) :
    (ofBare S raw : Reported (Except (DatumError ε) (Table V))).result =
      (Outcome.ofBare S raw).result.reportedBy S .decode := rfl

theorem result_ofBare_ne_empty (S : Schema V) (raw : Json) :
    (ofBare S raw : Reported (Except (DatumError ε) (Table V))).result ≠ .ok empty := by
  rw [result_ofBare, Ne, Outcome.reportedBy_ok_iff]
  intro hempty
  have hbare := Outcome.bare_ofBare S raw
  rw [hempty] at hbare
  generalize hwhole : (empty : Table V) = t at hbare
  cases hbare with
  | handled found x => exact whole_ne_empty x hwhole.symm

/-- **What a stream without a map is decoded as**: the document that it reads as, or a bare null
if it is a number that is not finite. -/
theorem ofDatum_of_unmapped (S : Schema V) (d : Datum ε) (h : d.Unmapped) :
    ∃ raw, d.toJson = .ok raw ∧ (∀ fields, raw ≠ .object fields) ∧
      (d.isFinite = true → ofDatum S d = Outcome.reportedBy S .decode <$> Outcome.ofJson S raw) ∧
      (d.isFinite = false → raw = .null ∧ ofDatum S d = ofBare S .null) := by
  induction h with
  | bool | int | uint | char | text =>
    refine ⟨_, rfl, Json.ne_object_of_isBare rfl, fun _ => ?_, Bool.noConfusion⟩
    exact ofBare_of_isBare S _ rfl
  | unit | none => exact ⟨_, rfl, fun _ => Json.noConfusion, fun _ => rfl, Bool.noConfusion⟩
  | some _ ih => exact ih
  | seq items js hitems =>
    refine ⟨.array js, ?_, Json.ne_object_of_isBare rfl, fun _ => ?_, Bool.noConfusion⟩
    · rw [Datum.toJson, hitems]
      rfl
    · rw [ofDatum, hitems]
      exact ofBare_of_isBare S _ rfl
  | float x =>
    refine ⟨_, rfl, ?_, fun hx => ?_, fun hx => ?_⟩
    · intro fields
      unfold Json.ofBinary64
      split <;> exact Json.noConfusion
    · have hreal : Json.ofBinary64 x = .real x := if_pos hx
      rw [ofDatum, hreal]
      exact ofBare_of_isBare S _ rfl
    · have hnull : Json.ofBinary64 x = .null := if_neg (Bool.not_eq_true _ ▸ hx)
      exact ⟨hnull, by rw [ofDatum, hnull]⟩

/-- A stream is decoded as the document that it reads as is decoded by the hook. -/
structure FollowsHook (S : Schema V) (d : Datum ε) (raw : Json) : Prop where
  handled : ∀ t, (ofDatum S d).result = .ok t ↔ (Outcome.ofJson S raw).result = .handled t
  declined : ∀ r, (Outcome.ofJson S raw).result = .declined r →
    (ofDatum S d).result = .error (.decode (.notApplicable S.name))
  failed : ∀ e, (Outcome.ofJson S raw).result = .failed e → (ofDatum S d).result = .error (.decode e)
  /-- Where documents decode alike, the hook does not fail. -/
  alike : S.DecodesAlike → ∀ e, (Outcome.ofJson S raw).result ≠ .failed e
  null : raw = .null → (ofDatum S d).result = .ok .empty
  logs : (ofDatum S d).logs = (Outcome.ofJson S raw).logs
  metrics : (ofDatum S d).metrics = (Outcome.ofJson S raw).metrics

theorem followsHook_of_eq (S : Schema V) (d : Datum ε) (raw : Json)
    (hobject : ∀ fields, raw ≠ .object fields)
    (h : ofDatum S d = Outcome.reportedBy S .decode <$> Outcome.ofJson S raw) :
    FollowsHook S d raw := by
  have hresult : (ofDatum S d).result = (Outcome.ofJson S raw).result.reportedBy S .decode := by
    rw [h, Reported.result_map]
  constructor
  case handled =>
    intro t
    rw [hresult, Outcome.reportedBy_ok_iff]
  case declined =>
    intro r hr
    rw [hresult, hr, Outcome.reportedBy_declined]
  case failed =>
    intro e he
    rw [hresult, he, Outcome.reportedBy_failed]
  case alike =>
    intro hS e
    rcases raw.kinds with rfl | ⟨fields, hraw⟩ | hb
    · exact nofun
    · exact absurd hraw (hobject fields)
    · rw [Outcome.result_ofJson_of_isBare S raw hb]
      exact Outcome.result_ofBare_ne_failed hS raw e
  case null =>
    intro hraw
    rw [hresult, hraw]
    rfl
  case logs => rw [h, Reported.logs_map]
  case metrics => rw [h, Reported.metrics_map]

/-- **A stream without a map follows the hook exactly if it is no number that is not finite.**
Such a number reads as null, and is a bare null: a null that is a value is the value of every
address. -/
theorem follows_iff_finite (S : Schema V) (d : Datum ε) (h : d.Unmapped) :
    ∃ raw, d.toJson = .ok raw ∧ (FollowsHook S d raw ↔ d.isFinite = true) ∧
      (d.isFinite = false → raw = .null ∧ ∃ o, Outcome.Bare S .null o ∧
        (ofDatum S d).result = o.reportedBy S .decode) := by
  obtain ⟨raw, hread, hobject, hfinite, hlost⟩ := ofDatum_of_unmapped S d h
  refine ⟨raw, hread, ⟨fun hfollows => ?_, fun hd => ?_⟩, fun hd => ?_⟩
  · -- A number that is not finite would have to be the empty table, and a bare value never is.
    by_contra hd
    obtain ⟨rfl, hbare⟩ := hlost (Bool.eq_false_of_not_eq_true hd)
    have hempty := hfollows.null rfl
    rw [hbare] at hempty
    exact result_ofBare_ne_empty S .null hempty
  · exact followsHook_of_eq S d raw hobject (hfinite hd)
  · obtain ⟨rfl, hbare⟩ := hlost hd
    rw [hbare]
    exact ⟨rfl, _, Outcome.bare_ofBare S .null, result_ofBare S .null⟩

/-- An optional integer, given as one. -/
theorem optional_integer_follows :
    (Datum.some (.uint 7) : Datum Empty).Unmapped ∧
      FollowsHook (Schema.optionUInt32 "count") (Datum.some (.uint 7) : Datum Empty) (.whole 7) := by
  have hd : (Datum.some (.uint 7) : Datum Empty).Unmapped := .some (.uint 7)
  obtain ⟨raw, hread, hfollows, -⟩ := follows_iff_finite (Schema.optionUInt32 "count") _ hd
  obtain rfl : .whole 7 = raw := Except.ok.inj hread
  exact ⟨hd, hfollows.mpr rfl⟩

/-- What is not a number reads as null, but is no empty table where null is a value. -/
theorem not_a_number_strays :
    (Datum.float .nan : Datum Empty).Unmapped ∧
      (Datum.float .nan : Datum Empty).toJson = .ok .null ∧
      (Outcome.ofJson (Schema.optionUInt32 "count") .null).result = .handled .empty ∧
      (ofDatum (Schema.optionUInt32 "count") (Datum.float .nan : Datum Empty)).result =
        .ok (whole none) ∧
      whole (none : Option UInt32) ≠ empty :=
  ⟨.float .nan, rfl, rfl, rfl, whole_ne_empty none⟩

end Table

end CidrTable
