import CidrTable.Proofs.Netmask
import Mathlib.Order.Bounds.Defs

/-! What reading words from the front comes to.

`commonLength` is the greatest length within the limit to which two words are cut alike
(`isGreatest_commonLength`), and `onesLength?` refuses exactly the words with a one behind a
zero (`onesLength?_eq_none_iff`). `reads_leading_bits` puts these beside what `mask`, `keep`
and the first bit that differs are. -/
namespace CidrTable.Word

variable {w : Nat}

/-! ### The longest common cut -/

/-- Two words are cut alike to every length up to the one they share. -/
theorem keep_eq_keep_of_le (x y : BitVec w) (limit n : Nat) (h : n ≤ commonLength x y limit) :
    keep x n = keep y n := by
  apply (keep_eq_keep_iff x y n).mpr
  intro i hi
  exact getMsbD_eq_of_lt_commonLength x y limit i (Nat.lt_of_lt_of_le hi h)

/-- Words that are cut alike share that length, if the limit allows it. -/
theorem le_commonLength (x y : BitVec w) (limit n : Nat) (hn : n ≤ limit)
    (h : keep x n = keep y n) : n ≤ commonLength x y limit := by
  apply Nat.le_of_not_lt
  intro hlt
  have hdiffer := getMsbD_commonLength_ne x y limit (by omega)
  exact hdiffer ((keep_eq_keep_iff x y n).mp h _ hlt)

/-- **The shared length is the greatest to which two words are cut alike.** -/
theorem isGreatest_commonLength (x y : BitVec w) (limit : Nat) :
    IsGreatest {n | n ≤ limit ∧ keep x n = keep y n} (commonLength x y limit) := by
  constructor
  · exact ⟨commonLength_le x y limit, keep_eq_keep_of_le x y limit _ (Nat.le_refl _)⟩
  · intro n hn
    exact le_commonLength x y limit n hn.1 hn.2

/-! ### Ones and then zeros -/

theorem onesLength?_mask (n : Nat) (h : n ≤ w) : onesLength? (mask n : BitVec w) = some n :=
  (onesLength?_eq_some_iff _ n).mpr (leadingOnes_mask n h)

/-- A one stands behind a zero. -/
def OneBehindZero (x : BitVec w) : Prop :=
  ∃ i j, i < j ∧ j < w ∧ x.getMsbD i = false ∧ x.getMsbD j = true

theorem LeadingOnes.not_oneBehindZero {x : BitVec w} {n : Nat} (h : LeadingOnes x n) :
    ¬ OneBehindZero x := by
  rintro ⟨i, j, hij, hj, hzero, hone⟩
  rw [h.bits i (by omega), decide_eq_false_iff_not] at hzero
  rw [h.bits j hj, decide_eq_true_eq] at hone
  omega

/-- A word without a one behind a zero is as many ones as its complement has zeros in front. -/
theorem leadingOnes_of_not_oneBehindZero (x : BitVec w) (h : ¬ OneBehindZero x) :
    LeadingOnes x (~~~x).clz.toNat := by
  refine ⟨clz_toNat_le (~~~x), fun i hi => ?_⟩
  have hbit : (~~~x).getMsbD i = !x.getMsbD i := by
    rw [BitVec.getMsbD_not, decide_eq_true hi, Bool.true_and]
  rcases Nat.lt_or_ge i (~~~x).clz.toNat with hlt | hge
  · have hone := getMsbD_of_lt_clz (~~~x) i hlt
    rw [hbit, Bool.not_eq_false'] at hone
    rw [hone, decide_eq_true hlt]
  · -- The first zero is at the end of the ones, and no one comes after it.
    have hne := ne_zero_of_clz_lt (~~~x) (by omega)
    have hzero := getMsbD_clz (~~~x) hne
    rw [BitVec.getMsbD_not, Bool.and_eq_true, Bool.not_eq_true'] at hzero
    rw [decide_eq_false (Nat.not_lt.mpr hge), ← Bool.not_eq_true]
    intro hone
    rcases Nat.eq_or_lt_of_le hge with heq | hlt
    · rw [heq, hone] at hzero
      cases hzero.2
    · exact h ⟨_, i, hlt, hi, hzero.2, hone⟩

/-- **A word is no netmask exactly if a one stands behind a zero.** -/
theorem onesLength?_eq_none_iff (x : BitVec w) : onesLength? x = none ↔ OneBehindZero x := by
  constructor
  · intro hnone
    apply Classical.byContradiction
    intro h
    have hsome := (onesLength?_eq_some_iff x _).mpr (leadingOnes_of_not_oneBehindZero x h)
    rw [hnone] at hsome
    cases hsome
  · intro h
    apply Option.eq_none_iff_forall_ne_some.mpr
    intro n hsome
    exact ((onesLength?_eq_some_iff x n).mp hsome).not_oneBehindZero h

/-! ### All of it -/

/-- **What leading bits are, at every width**: two words share the longest stretch to which they are
cut alike and differ behind it, a cut keeps the bits in front of it and no other, and the length
of a word is read exactly if it is ones and then zeros, which a mask is and a word with a one
behind a zero is not. -/
theorem reads_leading_bits (x y : BitVec w) (limit : Nat) :
    IsGreatest {n | n ≤ limit ∧ keep x n = keep y n} (commonLength x y limit) ∧
      (commonLength x y limit < limit →
        x.getMsbD (commonLength x y limit) ≠ y.getMsbD (commonLength x y limit)) ∧
      (∀ n i, (keep x n).getMsbD i = if i < n then x.getMsbD i else false) ∧
      (∀ n, onesLength? x = some n ↔ n ≤ w ∧ ∀ i, i < w → x.getMsbD i = decide (i < n)) ∧
      (∀ n, n ≤ w → onesLength? (mask n : BitVec w) = some n) ∧
      (onesLength? x = none ↔ OneBehindZero x) := by
  refine ⟨isGreatest_commonLength x y limit, getMsbD_commonLength_ne x y limit, fun n i => ?_,
    fun n => ?_, onesLength?_mask, onesLength?_eq_none_iff x⟩
  · rw [getMsbD_keep]
    by_cases hi : i < n <;> simp [hi]
  · rw [onesLength?_eq_some_iff]
    exact ⟨fun h => ⟨h.le, h.bits⟩, fun h => ⟨h.1, h.2⟩⟩

/-- Two words that part on bit 15, and the length of a mask of 16 ones. -/
theorem parted_words_read :
    commonLength (0xffff0000000000000000000000000000 : BitVec 128) 0xfffe0000000000000000000000000000 128 < 128 ∧
      (0xffff0000000000000000000000000000 : BitVec 128).getMsbD 15 ≠
        (0xfffe0000000000000000000000000000 : BitVec 128).getMsbD 15 ∧
      16 ≤ 128 ∧ onesLength? (mask 16 : BitVec 128) = some 16 :=
  have hshared : commonLength (0xffff0000000000000000000000000000 : BitVec 128)
      0xfffe0000000000000000000000000000 128 = 15 := by decide
  have h := reads_leading_bits (0xffff0000000000000000000000000000 : BitVec 128)
    0xfffe0000000000000000000000000000 128
  ⟨by rw [hshared]; decide, hshared ▸ h.2.1 (by rw [hshared]; decide), by decide,
    h.2.2.2.2.1 16 (by decide)⟩

end CidrTable.Word
