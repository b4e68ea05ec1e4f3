/-! Words read from their first bit.

A prefix of a word is its leading bits: `mask` marks them, `keep` clears all the
others, `commonLength` counts how many two words share, and `onesLength?` reads the
length of a mask back. `getMsbD_mask` and `getMsbD_keep` say what the first two do
bit by bit, bit 0 being the highest; every other fact about them follows. -/
namespace CidrTable.Word

variable {w : Nat}

/-- `n` ones and then zeros; a length past the width gives all ones. -/
def mask (n : Nat) : BitVec w := ~~~(BitVec.allOnes w >>> n)

/-- The word with every bit after its first `n` cleared. -/
def keep (x : BitVec w) (n : Nat) : BitVec w := x &&& mask n

/-- Leading bits that two words share, counted no further than `limit`. -/
def commonLength (x y : BitVec w) (limit : Nat) : Nat :=
  let differing := keep (x ^^^ y) limit
  if differing = 0 then limit else min differing.clz.toNat limit

/-- The length of a word made of ones and then zeros. -/
def onesLength? (x : BitVec w) : Option Nat :=
  let n := (~~~x).clz.toNat
  if x = mask n then some n else none

/-! ### Bit by bit -/

theorem getMsbD_mask (n i : Nat) :
    (mask n : BitVec w).getMsbD i = (decide (i < w) && decide (i < n)) := by
  by_cases hw : i < w <;> by_cases hn : i < n
  · simp [mask, hw, hn]
  · have : i - n < w := by omega
    simp [mask, hw, hn, this]
  all_goals simp [mask, hw, hn]

theorem getMsbD_keep (x : BitVec w) (n i : Nat) :
    (keep x n).getMsbD i = (x.getMsbD i && decide (i < n)) := by
  by_cases hw : i < w
  · simp [keep, getMsbD_mask, hw]
  · simp [BitVec.getMsbD, hw]

/-- Two cuts are one cut at the nearer end. -/
theorem keep_keep (x : BitVec w) (m n : Nat) : keep (keep x m) n = keep x (min m n) := by
  refine BitVec.eq_of_getMsbD_eq fun i _ => ?_
  simp only [getMsbD_keep, Bool.and_assoc, ← Bool.decide_and]
  congr 2
  exact propext (by omega)

end CidrTable.Word
