import CidrTable.Proofs.SharedBits
import CidrTable.Trie

/-! How prefixes nest.

A prefix contains another exactly if it is no longer and its bits lead the other's
(`contains_iff`). Containment is a partial order, and of two prefixes around one address
one contains the other (`contains_of_contains`). `Inside` says on which side of an outer
prefix an inner one lies; every placement the trie computes is one of those relations
(`placement_means`). -/
namespace CidrTable.Prefix

/-! ### Bits -/

theorem bit_cut (x : BitVec 128) (n : Nat) (h : n ≤ 128) (i : Nat) :
    (cut x n h).bit i = (x.getMsbD i && decide (i < n)) := Word.getMsbD_keep x n i

/-- Past its length a prefix has no bits set. -/
theorem bit_of_le (p : Prefix) (i : Nat) (h : p.len ≤ i) : p.bit i = false := by
  rw [bit, ← p.host_bits, Word.getMsbD_keep, decide_eq_false (Nat.not_lt.mpr h), Bool.and_false]

theorem eq_of_bits_of_len {p q : Prefix} (hbits : p.bits = q.bits) (hlen : p.len = q.len) : p = q := by
  cases p
  cases q
  cases hlen
  cases hbits
  rfl

theorem bits_host (x : BitVec 128) : (host x).bits = x := by
  refine BitVec.eq_of_getMsbD_eq fun i hi => ?_
  show (Word.keep x 128).getMsbD i = x.getMsbD i
  rw [Word.getMsbD_keep, decide_eq_true hi, Bool.and_true]

theorem ext_bit (p q : Prefix) (hlen : p.len = q.len) (h : ∀ i, i < p.len → p.bit i = q.bit i) :
    p = q := by
  refine eq_of_bits_of_len ?_ hlen
  rw [← p.host_bits, ← q.host_bits, ← hlen]
  exact (Word.keep_eq_keep_iff _ _ _).mpr h

/-! ### Containment -/

theorem contains_iff_keep (p q : Prefix) :
    p.contains q = true ↔ p.len ≤ q.len ∧ Word.keep q.bits p.len = p.bits := by
  rw [contains, Bool.and_eq_true, decide_eq_true_eq, beq_iff_eq]

theorem contains_iff (p q : Prefix) :
    p.contains q = true ↔ p.len ≤ q.len ∧ ∀ i, i < p.len → p.bit i = q.bit i := by
  have hbits : Word.keep q.bits p.len = p.bits ↔ ∀ i, i < p.len → p.bit i = q.bit i := by
    rw [eq_comm]
    conv => lhs; lhs; rw [← p.host_bits]
    exact Word.keep_eq_keep_iff _ _ _
  rw [contains_iff_keep, hbits]

theorem len_le_of_contains {p q : Prefix} (h : p.contains q = true) : p.len ≤ q.len :=
  ((contains_iff p q).mp h).1

theorem bit_of_contains {p q : Prefix} (h : p.contains q = true) (i : Nat) (hi : i < p.len) :
    p.bit i = q.bit i :=
  ((contains_iff p q).mp h).2 i hi

theorem contains_refl (p : Prefix) : p.contains p = true :=
  (contains_iff p p).mpr ⟨Nat.le_refl _, fun _ _ => rfl⟩

theorem contains_trans {p q r : Prefix} (hpq : p.contains q = true) (hqr : q.contains r = true) :
    p.contains r = true := by
  have hpq' := len_le_of_contains hpq
  have hqr' := len_le_of_contains hqr
  refine (contains_iff p r).mpr ⟨by omega, fun i hi => ?_⟩
  rw [bit_of_contains hpq i hi]
  exact bit_of_contains hqr i (by omega)

/-- A prefix contains no other one of its length, or shorter. -/
theorem eq_of_contains {p q : Prefix} (h : p.contains q = true) (hlen : q.len ≤ p.len) : p = q :=
  ext_bit p q (Nat.le_antisymm (len_le_of_contains h) hlen) (bit_of_contains h)

/-- Of two prefixes around the same one, the shorter contains the longer. -/
theorem contains_of_contains {p q r : Prefix} (hp : p.contains r = true) (hq : q.contains r = true)
    (hlen : p.len ≤ q.len) : p.contains q = true := by
  refine (contains_iff p q).mpr ⟨hlen, fun i hi => ?_⟩
  rw [bit_of_contains hp i hi, bit_of_contains hq i (by omega)]

/-- Two prefixes of one length around the same prefix are one. -/
theorem eq_of_contains_of_len {p q r : Prefix} (hp : p.contains r = true) (hq : q.contains r = true)
    (hlen : p.len = q.len) : p = q :=
  eq_of_contains (contains_of_contains hp hq (Nat.le_of_eq hlen)) (Nat.le_of_eq hlen.symm)

/-! ### Sides -/

/-- `q` lies strictly inside `p`, on the side of the bit `b`. -/
structure Inside (q p : Prefix) (b : Bool) : Prop where
  contains : p.contains q = true
  longer : p.len < q.len
  side : q.bit p.len = b

/-- What lies inside an inner prefix lies on that prefix's side. -/
theorem Inside.of_contains {p q r : Prefix} {b : Bool} (h : q.Inside p b) (hr : q.contains r = true) :
    r.Inside p b := by
  refine ⟨contains_trans h.contains hr, Nat.lt_of_lt_of_le h.longer (len_le_of_contains hr), ?_⟩
  rw [← bit_of_contains hr p.len h.longer]
  exact h.side

theorem Inside.not_contains {p q : Prefix} {b : Bool} (h : q.Inside p b) : q.contains p = false := by
  cases hc : q.contains p
  · rfl
  · have := len_le_of_contains hc
    have := h.longer
    omega

theorem Inside.ne {p q : Prefix} {b : Bool} (h : q.Inside p b) : q ≠ p := by
  rintro rfl
  exact Nat.lt_irrefl _ h.longer

/-- A prefix lies on one side only. -/
theorem Inside.side_unique {p q : Prefix} {b c : Bool} (hb : q.Inside p b) (hc : q.Inside p c) :
    b = c := hb.side.symm.trans hc.side

/-- Nothing inside the other side of a prefix is around what lies on this one. -/
theorem Inside.not_contains_other {p q r : Prefix} {b c : Bool} (hq : q.Inside p b)
    (hr : r.Inside p c) (hbc : b ≠ c) : q.contains r = false := by
  cases hc : q.contains r
  · rfl
  · exact absurd ((hq.of_contains hc).side_unique hr) hbc

/-- Where two prefixes on one side of `q` part, they are still on that side. -/
theorem Inside.of_parting {p q r s : Prefix} {b c : Bool} (hp : p.Inside q b) (hs : s.Inside q b)
    (hpr : p.Inside r (!c)) (hsr : s.Inside r c) : r.Inside q b := by
  have hlen : q.len < r.len := by
    rcases Nat.lt_trichotomy r.len q.len with h | h | h
    · have hbit := (bit_of_contains hp.contains r.len h).symm.trans (bit_of_contains hs.contains r.len h)
      rw [hpr.side, hsr.side] at hbit
      cases c <;> cases hbit
    · have hbit := hp.side.trans hs.side.symm
      rw [← h, hpr.side, hsr.side] at hbit
      cases c <;> cases hbit
    · exact h
  refine ⟨contains_of_contains hp.contains hpr.contains (Nat.le_of_lt hlen), hlen, ?_⟩
  rw [bit_of_contains hpr.contains q.len hlen]
  exact hp.side

/-- A longer prefix inside `p` is on the side of its next bit. -/
theorem inside_of_contains {p q : Prefix} (h : p.contains q = true) (hlen : p.len < q.len) :
    q.Inside p (q.bit p.len) := ⟨h, hlen, rfl⟩

end Prefix

/-! ### Placements -/

/-- What a placement of `p` relative to `q` says about the two. -/
def Placement.Means (p q : Prefix) : Placement → Prop
  | same => p = q
  | below b => p.Inside q b
  | above b => q.Inside p b
  | apart r b => p.Inside r (!b) ∧ q.Inside r b

namespace Prefix

/-- The bits up to the shared length are those of both prefixes. -/
theorem bit_shared (p q : Prefix) (i : Nat)
    (h : i < Word.commonLength p.bits q.bits (min p.len q.len)) : p.bit i = q.bit i :=
  Word.getMsbD_eq_of_lt_commonLength _ _ _ i h

theorem truncate_contains (p : Prefix) (n : Nat) : (p.truncate n).contains p = true := by
  refine (contains_iff _ _).mpr ⟨Nat.min_le_right .., fun i hi => ?_⟩
  have hi' : i < min n p.len := hi
  simp only [truncate, bit_cut, hi', decide_true, Bool.and_true]
  rfl

/-- **The placement a node computes for a prefix is where the prefix lies.** -/
theorem placement_means (p q : Prefix) : (p.placement q).Means p q := by
  have hle := Word.commonLength_le p.bits q.bits (min p.len q.len)
  have hshared := bit_shared p q
  have hnext := Word.getMsbD_commonLength_ne p.bits q.bits (min p.len q.len)
  simp only [placement]
  generalize Word.commonLength p.bits q.bits (min p.len q.len) = n at hle hshared hnext ⊢
  by_cases hnq : n = q.len
  · have hqp : q.contains p = true :=
      (contains_iff q p).mpr ⟨by omega, fun i hi => (hshared i (by omega)).symm⟩
    rw [if_pos hnq]
    by_cases hlen : p.len = q.len
    · rw [if_pos hlen]
      exact (eq_of_contains hqp (by omega)).symm
    · rw [if_neg hlen]
      exact inside_of_contains hqp (by omega)
  · rw [if_neg hnq]
    by_cases hnp : n = p.len
    · have hpq : p.contains q = true :=
        (contains_iff p q).mpr ⟨by omega, fun i hi => hshared i (by omega)⟩
      rw [if_pos hnp, hnp]
      exact inside_of_contains hpq (by omega)
    · -- Both go on past the shared bits, and part on the next one.
      have hlen : (p.truncate n).len = n := Nat.min_eq_left (by omega)
      have hp : (p.truncate n).contains p = true := truncate_contains p n
      have hq : (p.truncate n).contains q = true := by
        refine (contains_iff _ _).mpr ⟨by omega, fun i hi => ?_⟩
        rw [bit_of_contains hp i hi]
        exact hshared i (by omega)
      have hpart : p.bit n ≠ q.bit n := hnext (by omega)
      rw [if_neg hnp]
      refine ⟨⟨hp, by omega, ?_⟩, hq, by omega, by rw [hlen]⟩
      rw [hlen]
      exact Bool.eq_not.mpr hpart

end Prefix

end CidrTable
