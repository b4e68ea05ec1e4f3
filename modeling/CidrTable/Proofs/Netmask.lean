import CidrTable.Proofs.SharedBits

/-! Netmasks are ones and then zeros.

`LeadingOnes` says so bit by bit, and `onesLength?` gives a length for exactly the words of
that form (`onesLength?_eq_some_iff`). Zeros behind a word change neither
(`leadingOnes_append_zero`), so a netmask may be read at the front of a wider word. -/
namespace CidrTable.Word

variable {w : Nat}

/-- The word is `n` ones and then zeros. -/
structure LeadingOnes (x : BitVec w) (n : Nat) : Prop where
  le : n ≤ w
  bits : ∀ i, i < w → x.getMsbD i = decide (i < n)

theorem leadingOnes_mask (n : Nat) (h : n ≤ w) : LeadingOnes (mask n : BitVec w) n := by
  refine ⟨h, fun i hi => ?_⟩
  rw [getMsbD_mask, decide_eq_true hi, Bool.true_and]

theorem LeadingOnes.eq_mask {x : BitVec w} {n : Nat} (h : LeadingOnes x n) : x = mask n := by
  apply BitVec.eq_of_getMsbD_eq
  intro i hi
  rw [h.bits i hi, getMsbD_mask, decide_eq_true hi, Bool.true_and]

theorem LeadingOnes.clz_not {x : BitVec w} {n : Nat} (h : LeadingOnes x n) :
    (~~~x).clz.toNat = n := by
  have hle := clz_toNat_le (~~~x)
  have hn := h.le
  rcases Nat.lt_trichotomy (~~~x).clz.toNat n with hlt | heq | hgt
  · have hne := ne_zero_of_clz_lt (~~~x) (by omega)
    have hbit := getMsbD_clz (~~~x) hne
    rw [BitVec.getMsbD_not, h.bits _ (by omega), decide_eq_true hlt] at hbit
    simp at hbit
  · exact heq
  · have hbit := getMsbD_of_lt_clz (~~~x) n hgt
    rw [BitVec.getMsbD_not, h.bits n (by omega), decide_eq_true (show n < w by omega)] at hbit
    simp at hbit

/-- **The length of a netmask is read exactly if it is one.** -/
theorem onesLength?_eq_some_iff (x : BitVec w) (n : Nat) :
    onesLength? x = some n ↔ LeadingOnes x n := by
  unfold onesLength?
  constructor
  · intro h
    dsimp only at h
    split at h
    case isTrue hmask =>
      obtain rfl := Option.some.inj h
      have hones : LeadingOnes (mask (~~~x).clz.toNat) (~~~x).clz.toNat :=
        leadingOnes_mask _ (clz_toNat_le _)
      rwa [← hmask] at hones
    case isFalse => cases h
  · intro h
    dsimp only
    rw [h.clz_not]
    exact if_pos h.eq_mask

/-- Zeros behind a word leave its leading ones as they are. -/
theorem leadingOnes_append_zero (x : BitVec w) (k n : Nat) :
    LeadingOnes (x ++ (0 : BitVec k)) n ↔ LeadingOnes x n := by
  have hbit : ∀ i, (x ++ (0 : BitVec k)).getMsbD i = (decide (i < w) && x.getMsbD i) := by
    intro i
    rw [BitVec.getMsbD_append]
    by_cases hi : w ≤ i
    · simp [hi, Nat.not_lt.mpr hi]
    · simp [hi, Nat.not_le.mp hi]
  constructor
  · intro h
    have hle : n ≤ w := by
      refine Nat.le_of_not_lt fun hgt => ?_
      have hend := h.bits w (Nat.lt_of_lt_of_le hgt h.le)
      rw [hbit, decide_eq_true hgt] at hend
      simp at hend
    refine ⟨hle, fun i hi => ?_⟩
    have := h.bits i (by omega)
    rwa [hbit, decide_eq_true hi, Bool.true_and] at this
  · intro h
    have hle := h.le
    refine ⟨by omega, fun i _ => ?_⟩
    rw [hbit]
    by_cases hi : i < w
    · rw [decide_eq_true hi, Bool.true_and, h.bits i hi]
    · rw [decide_eq_false hi, Bool.false_and, decide_eq_false (by omega)]

end CidrTable.Word
