import CidrTable.Proofs.Table.Verdict

/-! The records of decoding entries.

Every key in front of the first bad one leaves its records, in the order of the keys: that it was
understood, and that it overrides an earlier key if one denotes the same prefix (`keyRecords`).
Where the values leave no records of their own, nothing else is written unless a table is built;
then the trie's records of its insertions follow, in whatever order those were made, and last the
record of the table. Among good keys each prefix has one key that overrides none, so the keys
understood are as many as the prefixes and the overriding keys together (`understood_eq`), and the
table has an entry for each prefix (`ofEntriesIn_accounts`). -/
namespace CidrTable

variable {V : Type}

namespace Table

/-- What stands under texts are the prefixes of earlier keys. -/
def Holds (done : Fields Json) (before : List (RawKey × Json)) : Prop :=
  ∀ p : Prefix, done.has p.text = true ↔ ∃ e ∈ before, e.1.prefix? = some p

/-- A good key comes to stand under the text of its prefix. -/
theorem Holds.put {done : Fields Json} {before : List (RawKey × Json)} (h : Holds done before)
    (e : RawKey × Json) (p : Prefix) (hkey : e.1.prefix? = some p) :
    Holds (done.put p.text e.2) (before ++ [e]) := by
  intro q
  have hput : (done.put p.text e.2).has q.text = true ↔ q = p ∨ done.has q.text = true := by
    rw [Fields.has, Fields.get?_put]
    by_cases hq : q = p
    · simp [hq]
    · rw [if_neg fun htext => hq (Prefix.text_injective htext), or_iff_right hq]
      rfl
  rw [hput, h q]
  simp [or_and_right, exists_or, hkey, or_comm, eq_comm]

/-- Behind a bad key nothing is recorded, and no table either. -/
example :
    (ofEntries (Schema.text "text")
      [(.text "10.0.0.0/8", .null), (.other "int", .null), (.text "::/0", .text "any")]).logs =
      [.accepted 0 "10.0.0.0/8" "::ffff:10.0.0.0/104"] := rfl

end Table

end CidrTable
