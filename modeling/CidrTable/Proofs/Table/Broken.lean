import CidrTable.Proofs.Datum.BreaksOff
import CidrTable.Proofs.Table.Presented
import CidrTable.Schema.Scalar

/-! Streams that break off.

A map or a list is read to its end before anything of it is decoded. So either reading it fails
(`Datum.Fails`), and the failure is all that comes out, whatever was read in front of it, with no
record and no metric; or it ends (`Datum.Ends`), and what comes out is what decoding the contents
gives, whoever read them (`leavesNoTrace`). The failure is the reader's own exactly if reading gets
to where the reader fails (`fails_reader_iff`). -/
namespace CidrTable

variable {V ε : Type}

namespace Datum

/-- Reading a stream gets to a key of which `K` holds or to a value or an item of which `J` holds,
all in front of it being read. -/
inductive StopsAt (K J : Datum ε → Prop) : Datum ε → Prop where
  | key {before : List (Datum ε × Datum ε)} {raws : List (RawKey × Json)} {key : Datum ε}
      (d : Datum ε) (after : List (Datum ε × Datum ε)) :
      toEntries before = .ok raws → K key → StopsAt K J (.map (before ++ (key, d) :: after))
  | value {before : List (Datum ε × Datum ε)} {raws : List (RawKey × Json)} {key d : Datum ε}
      {k : RawKey} (after : List (Datum ε × Datum ε)) :
      toEntries before = .ok raws → key.toKey = .ok k → J d →
      StopsAt K J (.map (before ++ (key, d) :: after))
  | item {before : List (Datum ε)} {js : List Json} {d : Datum ε} (after : List (Datum ε)) :
      toItems before = .ok js → J d → StopsAt K J (.seq (before ++ d :: after))
  | some {d : Datum ε} : StopsAt K J d → StopsAt K J (.some d)

/-- A key, a value or an item fails to be read. -/
def Fails (e : ReadError ε) : Datum ε → Prop :=
  StopsAt (fun key => key.toKey = .error e) (fun d => d.toJson = .error e)

inductive Contents where
  | entries (raws : List (RawKey × Json))
  | items (js : List Json)

/-- The stream is read to its end and holds these contents. -/
inductive Ends : Datum ε → Contents → Prop where
  | map {entries : List (Datum ε × Datum ε)} {raws : List (RawKey × Json)} :
      toEntries entries = .ok raws → Ends (.map entries) (.entries raws)
  | seq {items : List (Datum ε)} {js : List Json} :
      toItems items = .ok js → Ends (.seq items) (.items js)
  | some {d : Datum ε} {c : Contents} : Ends d c → Ends (.some d) c

end Datum

namespace Table

/-! ### What comes out -/

/-- What decoding the contents of a stream comes to, counted. -/
def outcomeOf (S : Schema V) : Datum.Contents → Reported (Outcome V)
  | .entries raws => Outcome.ofExcept <$> ofEntries S raws >>= Outcome.counted
  | .items js => Outcome.ofJson S (.array js)

/-- The first failure is all that comes out of a stream that fails. -/
theorem ofDatum_of_fails (S : Schema V) {d : Datum ε} {e : ReadError ε} (h : d.Fails e) :
    ofDatum S d = ⟨.error (.read e), [], []⟩ := by
  induction h with
  | @key before raws key d after hbefore hkey =>
    have hentry := (Datum.toEntry_eq_error_iff key d e).mpr (.inl hkey)
    have hread := (Datum.toEntries_eq_error_iff _ e).mpr
      ⟨before, (key, d), after, raws, rfl, hbefore, hentry⟩
    rw [ofDatum, hread]
    rfl
  | @value before raws key d k after hbefore hkey hd =>
    have hentry := (Datum.toEntry_eq_error_iff key d e).mpr (.inr ⟨k, hkey, hd⟩)
    have hread := (Datum.toEntries_eq_error_iff _ e).mpr
      ⟨before, (key, d), after, raws, rfl, hbefore, hentry⟩
    rw [ofDatum, hread]
    rfl
  | @item before js d after hbefore hd =>
    have hread := (Datum.toItems_eq_error_iff _ e).mpr ⟨before, d, after, js, rfl, hbefore, hd⟩
    rw [ofDatum, hread]
    rfl
  | some _ ih => exact ih

/-- Of a stream that ends, the contents are decoded. -/
theorem ofDatum_of_ends (S : Schema V) {d : Datum ε} {c : Datum.Contents} (h : d.Ends c) :
    ofDatum S d = Outcome.reportedBy S .decode <$> outcomeOf S c := by
  induction h with
  | @map entries raws hread =>
    rw [ofDatum, hread, outcomeOf, ← bind_finish, bind_map_left]
  | seq hread =>
    rw [ofDatum, hread]
    exact ofBare_of_isBare S _ rfl
  | some _ ih => exact ih

/-- Decoding the contents of a stream is never an error of the reading. -/
theorem reportedBy_ne_read (S : Schema V) (o : Outcome V) (e : ReadError ε) :
    o.reportedBy S DatumError.decode ≠ .error (.read e) := by
  rw [Outcome.reportedBy]
  cases o.toExcept S <;> intro h <;> cases h

end Table

end CidrTable
