import CidrTable.Proofs.Table.InsertionOrder
import CidrTable.Proofs.Table.Represents

/-! Where tables come from.

A table is decoded from entries, from a document, from a piece of data or from a text
(`Decoded`). On every one of these ways it is the empty table or the table of a list of
entries, so it represents a map (`Decoded.exists_represents`). -/
namespace CidrTable.Table

variable {V : Type}

/-! ### Results of outcomes -/

theorem toExcept_ok_iff (S : Schema V) (o : Outcome V) (t : Table V) :
    o.toExcept S = .ok t ↔ o = .handled t := by
  cases o with
  | handled s =>
    refine ⟨fun h => ?_, fun h => ?_⟩
    · rw [Except.ok.inj h]
    · rw [Outcome.handled.inj h]
      rfl
  | declined raw => exact ⟨nofun, nofun⟩
  | failed e => exact ⟨nofun, nofun⟩

theorem finish_ok_iff {ε : Type} (S : Schema V) (o : Outcome V) (t : Table V) :
    (finish S o : Reported (Except (DatumError ε) (Table V))).result = .ok t ↔ o = .handled t := by
  show (o.toExcept S).mapError DatumError.decode = .ok t ↔ _
  rw [mapError_eq_ok_iff, toExcept_ok_iff]

/-! ### Ways to a table -/

theorem exists_represents_of_ofExcept (S : Schema V) (entries : List (RawKey × Json)) (t : Table V)
    (h : Outcome.ofExcept (ofEntries S entries).result = .handled t) : ∃ M, t.Represents M := by
  cases hentries : (ofEntries S entries).result with
  | error e =>
    rw [hentries] at h
    cases h
  | ok s =>
    rw [hentries] at h
    obtain rfl : s = t := Outcome.handled.inj h
    exact ⟨_, represents_ofEntries S entries s hentries⟩

theorem exists_represents_of_ofBare (S : Schema V) (raw : Json) (t : Table V)
    (h : (Outcome.ofBare S raw).result = .handled t) : ∃ M, t.Represents M := by
  simp only [Outcome.ofBare, Reported.result_bind] at h
  split at h
  case h_1 => cases h
  case h_2 => exact exists_represents_of_ofExcept S _ t h

theorem exists_represents_of_hook (S : Schema V) (raw : Json) (t : Table V)
    (h : (Outcome.ofJson S raw).result = .handled t) : ∃ M, t.Represents M := by
  have huncounted : (Outcome.uncounted S raw).result = .handled t := h
  unfold Outcome.uncounted at huncounted
  split at huncounted
  case h_1 =>
    obtain rfl : Table.empty = t := Outcome.handled.inj huncounted
    exact ⟨_, represents_empty⟩
  case h_2 => exact exists_represents_of_ofExcept S _ t huncounted
  case h_3 => exact exists_represents_of_ofBare S raw t huncounted

theorem exists_represents_of_finish {ε : Type} (S : Schema V) (raw : Json) (t : Table V)
    (h : (ofBare S raw : Reported (Except (DatumError ε) (Table V))).result = .ok t) :
    ∃ M, t.Represents M :=
  exists_represents_of_ofBare S raw t ((finish_ok_iff S _ t).mp h)

theorem exists_represents_of_ofDatum {ε : Type} (S : Schema V) (d : Datum ε) (t : Table V)
    (h : (ofDatum S d).result = .ok t) : ∃ M, t.Represents M := by
  fun_induction ofDatum S d with
  | case1 | case12 => cases h
  | case2 => exact exists_represents_of_ofExcept S _ t ((finish_ok_iff S _ t).mp h)
  | case3 | case4 =>
    obtain rfl : empty = t := Outcome.handled.inj ((finish_ok_iff S _ t).mp h)
    exact ⟨_, represents_empty⟩
  | case5 inner ih => exact ih h
  | case6 | case7 | case8 | case9 | case10 | case11 | case13 =>
    exact exists_represents_of_finish S _ t h
  | case14 d =>
    obtain ⟨e, he⟩ : ∃ e, (d.refuse (expected S) : Except (ReadError ε) (Table V)) = .error e := by
      cases d <;> exact ⟨_, rfl⟩
    rw [he] at h
    cases h

/-- A table that decoding gave: entries, a document, a piece of data or a text. -/
inductive Decoded (S : Schema V) (t : Table V) : Prop where
  | entries (entries : List (RawKey × Json)) (h : (ofEntries S entries).result = .ok t)
  | hook (raw : Json) (h : (Outcome.ofJson S raw).result = .handled t)
  | document (raw : Json) (h : (ofJson S raw).result = .ok t)
  | datum (ε : Type) (d : Datum ε) (h : (ofDatum S d).result = .ok t)
  | reader (raw : Json) (h : (readJson S raw).result = .ok t)
  | text (s : String) (h : (ofText S s).result = .ok t)

/-- **A decoded table represents a map.** -/
theorem Decoded.exists_represents {S : Schema V} {t : Table V} (h : Decoded S t) :
    ∃ M, t.Represents M := by
  cases h with
  | entries entries h => exact ⟨_, represents_ofEntries S entries t h⟩
  | hook raw h => exact exists_represents_of_hook S raw t h
  | document raw h => exact exists_represents_of_hook S raw t ((toExcept_ok_iff S _ t).mp h)
  | datum ε d h => exact exists_represents_of_ofDatum S d t h
  | reader raw h => exact exists_represents_of_ofDatum S _ t ((mapError_eq_ok_iff _ _ t).mp h)
  | text s h =>
    unfold ofText at h
    split at h
    case h_1 => cases h
    case h_2 j rest hread =>
      simp only [Reported.result_bind, Reported.result_pure] at h
      cases hd : (ofDatum S (Datum.ofJson j : Datum Json.SyntaxError)).result with
      | error e =>
        rw [hd] at h
        cases h
      | ok s =>
        rw [hd] at h
        have hs : (if (Json.skipBlanks rest).isEmpty then .ok s else .error (.malformed .malformed)) =
            (Except.ok t : Except Json.Failure (Table V)) := h
        split at hs
        · exact exists_represents_of_ofDatum S _ t (hd.trans (congrArg _ (Except.ok.inj hs)))
        · cases hs

end CidrTable.Table
