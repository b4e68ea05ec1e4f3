import CidrTable.Address.Text
import Mathlib.Data.List.TakeWhile

/-! The groups of an IPv6 address.

`ofGroups_groups` puts a word together again from its groups, and `groups_of_mapped` names
the groups of a mapped IPv4 address. `longestGap_cut` says that the run which is left out in
writing is a run of zero groups. -/
namespace CidrTable.Address

/-! ### Words and groups -/

theorem ofGroups_snoc (gs : List (BitVec 16)) (g : BitVec 16) :
    ofGroups (gs ++ [g]) = ofGroups gs <<< 16 ||| g.setWidth 128 := by
  rw [ofGroups, List.foldl_append]
  rfl

/-- The groups from the front make up the word's leading bits. -/
theorem ofGroups_front (x : BitVec 128) (k : Nat) (hk : k ≤ 8) :
    ofGroups ((List.range k).map fun i => x.extractLsb' (112 - 16 * i) 16) = x >>> (128 - 16 * k) := by
  induction k with
  | zero =>
    apply BitVec.eq_of_getLsbD_eq
    intro i _
    simp [ofGroups]
  | succ k ih =>
    rw [List.range_succ, List.map_append, List.map_singleton, ofGroups_snoc, ih (by omega)]
    apply BitVec.eq_of_getLsbD_eq
    intro i hi
    simp only [BitVec.getLsbD_or, BitVec.getLsbD_shiftLeft, BitVec.getLsbD_ushiftRight,
      BitVec.getLsbD_setWidth, BitVec.getLsbD_extractLsb', hi, decide_true, Bool.true_and]
    by_cases h : i < 16
    · simp only [h, decide_true, Bool.not_true, Bool.false_and, Bool.false_or, Bool.true_and]
      congr 1
      omega
    · simp only [h, decide_false, Bool.not_false, Bool.true_and, Bool.false_and, Bool.or_false]
      congr 1
      omega

/-- **The groups of a word make it up.** -/
theorem ofGroups_groups (x : BitVec 128) : ofGroups (groups x) = x := by
  rw [groups, ofGroups_front x 8 (by omega)]
  exact BitVec.ushiftRight_zero x

theorem length_groups (x : BitVec 128) : (groups x).length = 8 := by
  rw [groups, List.length_map, List.length_range]

/-- The groups of a mapped IPv4 address: five zeros, `ffff` and its own two. -/
theorem groups_of_mapped (x : BitVec 128) (h : x.extractLsb' 32 96 = mappedFront) :
    groups x = List.replicate 5 0 ++ [0xffff] ++ quadGroups (x.extractLsb' 0 32) := by
  have hfront : ∀ i, i < 6 →
      x.extractLsb' (112 - 16 * i) 16 = mappedFront.extractLsb' (80 - 16 * i) 16 := by
    intro i hi
    rw [← h]
    apply BitVec.eq_of_getLsbD_eq
    intro j hj
    simp only [BitVec.getLsbD_extractLsb', hj, decide_true, Bool.true_and,
      show 80 - 16 * i + j < 96 by omega]
    congr 1
    omega
  have hback : ∀ s, s ≤ 16 → x.extractLsb' s 16 = (x.extractLsb' 0 32).extractLsb' s 16 :=
    fun s hs => (BitVec.extractLsb'_extractLsb'_of_le (by omega)).symm
  have hall : groups x = [x.extractLsb' (112 - 16 * 0) 16, x.extractLsb' (112 - 16 * 1) 16,
      x.extractLsb' (112 - 16 * 2) 16, x.extractLsb' (112 - 16 * 3) 16,
      x.extractLsb' (112 - 16 * 4) 16, x.extractLsb' (112 - 16 * 5) 16,
      x.extractLsb' 16 16, x.extractLsb' 0 16] := rfl
  rw [hall, hfront 0 (by omega), hfront 1 (by omega), hfront 2 (by omega), hfront 3 (by omega),
    hfront 4 (by omega), hfront 5 (by omega), hback 16 (by omega), hback 0 (by omega)]
  rfl

/-! ### The run left out -/

/-- The zero groups that a list starts with. -/
theorem leading_zeros (gs : List (BitVec 16)) :
    List.replicate (gs.takeWhile (· == 0)).length 0 ++ gs.drop (gs.takeWhile (· == 0)).length = gs := by
  have hrun : gs.takeWhile (· == 0) = List.replicate (gs.takeWhile (· == 0)).length 0 :=
    List.eq_replicate_iff.mpr
      ⟨rfl, fun z hz => eq_of_beq (List.mem_takeWhile_imp (p := fun z => z == 0) hz)⟩
  have hrest : gs.drop (gs.takeWhile (· == 0)).length = gs.dropWhile (· == 0) := by
    have h : (gs.takeWhile (· == 0) ++ gs.dropWhile (· == 0)).drop (gs.takeWhile (· == 0)).length =
        gs.dropWhile (· == 0) := List.drop_left
    rwa [List.takeWhile_append_dropWhile] at h
  rw [← hrun, hrest]
  exact List.takeWhile_append_dropWhile

/-- **The longest gap is a run of zero groups.** -/
theorem longestGap_cut (gs : List (BitVec 16)) :
    gs.take (longestGap gs).1 ++ List.replicate (longestGap gs).2 0 ++
      gs.drop ((longestGap gs).1 + (longestGap gs).2) = gs := by
  induction gs with
  | nil => rfl
  | cons g gs ih =>
    have hgap : longestGap (g :: gs) =
        if (longestGap gs).2 ≤ ((g :: gs).takeWhile (· == 0)).length then
          (0, ((g :: gs).takeWhile (· == 0)).length)
        else ((longestGap gs).1 + 1, (longestGap gs).2) := rfl
    rw [hgap]
    split
    · rw [List.take_zero, List.nil_append, Nat.zero_add]
      exact leading_zeros (g :: gs)
    · rw [List.take_succ_cons, Nat.add_right_comm, List.drop_succ_cons, List.cons_append,
        List.cons_append, ih]

end CidrTable.Address
