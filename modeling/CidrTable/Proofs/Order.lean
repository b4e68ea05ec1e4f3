import CidrTable.Proofs.Nesting
import Mathlib.Data.Nat.Bitwise

/-! The order of prefixes.

Prefixes are ordered by their bits as a number, then by length (`compare_eq_lt_iff`). An outer
prefix comes in front of those inside it (`compare_of_inside`), and what lies on the lower side
of a prefix in front of what lies on its other side (`compare_of_sides`): of two words the first
bit in which they differ says which is less (`Word.toNat_lt_of_getMsbD`). -/
namespace CidrTable

/-! ### Words -/

namespace Word

variable {w : Nat}

theorem testBit_toNat_eq (x : BitVec w) (i : Nat) (h : i < w) :
    x.toNat.testBit i = x.getMsbD (w - 1 - i) := by
  have hlt : w - 1 - i < w := by omega
  rw [BitVec.testBit_toNat, BitVec.getMsbD_eq_getLsbD, decide_eq_true hlt, Bool.true_and]
  congr 1
  omega

/-- Of two words that agree in front of a bit, the one in which it is clear is less than the one
in which it is set. -/
theorem toNat_lt_of_getMsbD {x y : BitVec w} (n : Nat) (h : ∀ i, i < n → x.getMsbD i = y.getMsbD i)
    (hx : x.getMsbD n = false) (hy : y.getMsbD n = true) : x.toNat < y.toNat := by
  rcases Nat.lt_or_ge n w with hn | hn
  · have hself : w - 1 - (w - 1 - n) = n := by omega
    refine Nat.lt_of_testBit (w - 1 - n) ?_ ?_ fun i hi => ?_
    · rw [testBit_toNat_eq x _ (by omega), hself, hx]
    · rw [testBit_toNat_eq y _ (by omega), hself, hy]
    · rcases Nat.lt_or_ge i w with hiw | hiw
      · rw [testBit_toNat_eq x i hiw, testBit_toNat_eq y i hiw]
        exact h _ (by omega)
      · rw [BitVec.testBit_toNat, BitVec.testBit_toNat, BitVec.getLsbD_of_ge x i hiw,
          BitVec.getLsbD_of_ge y i hiw]
  · rw [BitVec.getMsbD_of_ge y n hn] at hy
    cases hy

end Word

/-! ### Prefixes -/

namespace Prefix

theorem compare_eq_lt_iff (p q : Prefix) :
    p.compare q = .lt ↔
      p.bits.toNat < q.bits.toNat ∨ p.bits.toNat = q.bits.toNat ∧ p.len < q.len := by
  rw [compare, Ordering.then_eq_lt, Nat.compare_eq_lt, Nat.compare_eq_lt, Nat.compare_eq_eq]

/-- The bits of a prefix are no more than those of any prefix inside it. -/
theorem toNat_bits_le_of_contains {p q : Prefix} (h : p.contains q = true) :
    p.bits.toNat ≤ q.bits.toNat := by
  obtain ⟨-, hbits⟩ := (contains_iff_keep p q).mp h
  rw [← hbits, Word.keep, BitVec.toNat_and]
  exact Nat.and_le_left

theorem compare_of_inside {p q : Prefix} {b : Bool} (h : q.Inside p b) : p.compare q = .lt := by
  rw [compare_eq_lt_iff]
  rcases Nat.lt_or_eq_of_le (toNat_bits_le_of_contains h.contains) with hlt | heq
  · exact .inl hlt
  · exact .inr ⟨heq, h.longer⟩

/-- What lies on the lower side of a prefix comes in front of what lies on its other side. -/
theorem compare_of_sides {p q r : Prefix} (hq : q.Inside p false) (hr : r.Inside p true) :
    q.compare r = .lt := by
  refine (compare_eq_lt_iff q r).mpr (.inl ?_)
  refine Word.toNat_lt_of_getMsbD p.len (fun i hi => ?_) hq.side hr.side
  exact (bit_of_contains hq.contains i hi).symm.trans (bit_of_contains hr.contains i hi)

theorem not_contains_of_compare {p q : Prefix} (h : p.compare q = .lt) : q.contains p = false := by
  cases hc : q.contains p
  · rfl
  · have hle := toNat_bits_le_of_contains hc
    have hlen := len_le_of_contains hc
    rw [compare_eq_lt_iff] at h
    omega

end Prefix

end CidrTable
