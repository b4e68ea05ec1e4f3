import CidrTable.Word

/-! How many leading bits two words share.

`keep` forgets exactly the bits past a length (`keep_eq_keep_iff`), and `commonLength` is
the longest stretch two words have in common within a limit: they agree in front of it
(`getMsbD_eq_of_lt_commonLength`), and where it ends short of the limit they differ on the
next bit (`getMsbD_commonLength_ne`). -/
namespace CidrTable.Word

variable {w : Nat}

theorem keep_eq_keep_iff (x y : BitVec w) (n : Nat) :
    keep x n = keep y n ↔ ∀ i, i < n → x.getMsbD i = y.getMsbD i := by
  constructor
  · intro h i hi
    have hbit := congrArg (fun z => BitVec.getMsbD z i) h
    simpa [getMsbD_keep, hi] using hbit
  · intro h
    apply BitVec.eq_of_getMsbD_eq
    intro i _
    rw [getMsbD_keep, getMsbD_keep]
    by_cases hi : i < n
    · rw [h i hi]
    · simp [hi]

/-! ### The leading one -/

theorem clz_toNat_le (x : BitVec w) : x.clz.toNat ≤ w := by
  have h := BitVec.le_def.mp (BitVec.clz_le (x := x))
  simpa [Nat.mod_eq_of_lt (Nat.lt_two_pow_self (n := w))] using h

theorem ne_zero_of_clz_lt (x : BitVec w) (h : x.clz.toNat < w) : x ≠ 0 := by
  intro hzero
  have hclz := congrArg BitVec.toNat ((BitVec.clz_eq_iff_eq_zero (x := x)).mpr hzero)
  have hwidth : x.clz.toNat = w := by
    simpa [Nat.mod_eq_of_lt (Nat.lt_two_pow_self (n := w))] using hclz
  omega

theorem getMsbD_of_lt_clz (x : BitVec w) (i : Nat) (h : i < x.clz.toNat) : x.getMsbD i = false := by
  have hle := clz_toNat_le x
  have hbound : 2 ^ (w - x.clz.toNat) ≤ 2 ^ (w - 1 - i) :=
    Nat.pow_le_pow_right (by decide) (by omega)
  have hlt : x.toNat < 2 ^ (w - 1 - i) :=
    Nat.lt_of_lt_of_le BitVec.toNat_lt_two_pow_sub_clz hbound
  rw [BitVec.getMsbD_eq_getLsbD, BitVec.getLsbD, Nat.testBit_lt_two_pow hlt, Bool.and_false]

theorem getMsbD_clz (x : BitVec w) (h : x ≠ 0) : x.getMsbD x.clz.toNat = true := by
  have hw : 0 < w := by
    rcases Nat.eq_zero_or_pos w with rfl | hw
    · exact absurd (BitVec.eq_of_zero_length rfl) h
    · exact hw
  have hlt : x.clz.toNat < w := by
    have hclz := BitVec.lt_def.mp (BitVec.clz_lt_iff_ne_zero.mpr h)
    simpa [Nat.mod_eq_of_lt (Nat.lt_two_pow_self (n := w))] using hclz
  rw [BitVec.getMsbD_eq_getLsbD, decide_eq_true hlt, Bool.true_and]
  exact BitVec.getLsbD_true_clz_of_ne_zero hw h

/-! ### The shared stretch -/

theorem commonLength_le (x y : BitVec w) (limit : Nat) : commonLength x y limit ≤ limit := by
  simp only [commonLength]
  split
  · exact Nat.le_refl limit
  · exact Nat.min_le_right ..

theorem getMsbD_eq_of_lt_commonLength (x y : BitVec w) (limit i : Nat)
    (h : i < commonLength x y limit) : x.getMsbD i = y.getMsbD i := by
  have hi : i < limit := Nat.lt_of_lt_of_le h (commonLength_le x y limit)
  have hbit : (keep (x ^^^ y) limit).getMsbD i = false := by
    simp only [commonLength] at h
    split at h
    · rename_i hzero
      rw [hzero]
      exact BitVec.getMsbD_zero
    · exact getMsbD_of_lt_clz _ i (Nat.lt_of_lt_of_le h (Nat.min_le_left ..))
  simpa [getMsbD_keep, hi] using hbit

theorem getMsbD_commonLength_ne (x y : BitVec w) (limit : Nat) (h : commonLength x y limit < limit) :
    x.getMsbD (commonLength x y limit) ≠ y.getMsbD (commonLength x y limit) := by
  simp only [commonLength] at h ⊢
  split at h
  · exact absurd h (Nat.lt_irrefl limit)
  · rename_i hne
    rw [if_neg hne]
    have hclz : (keep (x ^^^ y) limit).clz.toNat < limit := by omega
    have hbit := getMsbD_clz _ hne
    rw [Nat.min_eq_left (Nat.le_of_lt hclz)]
    simpa [getMsbD_keep, hclz] using hbit

end CidrTable.Word
