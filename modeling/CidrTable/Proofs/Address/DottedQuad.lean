import CidrTable.Address.Text
import CidrTable.Proofs.Text.Digits

/-! The dotted quad of an IPv4 address reads back.

`readV4?_writeV4` is the round trip. A text that reads as a dotted quad has digits and dots
in it and nothing else (`mem_of_readV4?`), so none with a colon does. -/
namespace CidrTable.Address

/-! ### Joined texts -/

/-- What stands in a joined text stands in the joint or in a part. -/
theorem mem_intercalate (c : Char) (joint : List Char) (parts : List (List Char))
    (h : c ∈ joint.intercalate parts) : c ∈ joint ∨ ∃ part ∈ parts, c ∈ part := by
  induction parts with
  | nil => cases h
  | cons part parts ih =>
    cases parts with
    | nil =>
      rw [List.intercalate_singleton] at h
      exact .inr ⟨part, List.mem_singleton_self _, h⟩
    | cons next parts =>
      rw [List.intercalate_cons_cons, List.mem_append, List.mem_append] at h
      rcases h with (h | h) | h
      · exact .inr ⟨part, List.mem_cons_self, h⟩
      · exact .inl h
      · rcases ih h with hj | ⟨p, hp, hc⟩
        · exact .inl hj
        · exact .inr ⟨p, List.mem_cons_of_mem _ hp, hc⟩

/-! ### Octets -/

theorem guard_bind {α : Type} {p : Prop} [Decidable p] (h : p) (f : Unit → Option α) :
    (guard p >>= f) = f () := by
  rw [show (guard p : Option Unit) = some () from if_pos h]
  rfl

theorem octet?_decimal (o : BitVec 8) : octet? (Text.decimal o.toNat) = some o := by
  have hread : Text.ofDigits? 10 (Text.decimal o.toNat) = some o.toNat :=
    Text.ofDigits?_digits (by decide) (by decide) _
  have hlen : (Text.decimal o.toNat).length ≤ 3 :=
    (Nat.length_toDigits_le_iff (by decide) (by decide)).mpr (by have := o.isLt; omega)
  have hzero : (Text.decimal o.toNat).head? = some '0' → (Text.decimal o.toNat).length = 1 := by
    intro h
    rw [(Text.head?_digits (by decide) _).mp h]
    rfl
  have hguard : (decide ((Text.decimal o.toNat).length ≤ 3) && decide (o.toNat < 256) &&
      ((Text.decimal o.toNat).head? != some '0' || (Text.decimal o.toNat).length == 1)) = true := by
    rw [decide_eq_true hlen, decide_eq_true o.isLt]
    by_cases h : (Text.decimal o.toNat).head? = some '0'
    · simp [hzero h]
    · simp [h]
  rw [octet?, hread, Option.bind_eq_bind, Option.bind_some, guard_bind hguard, BitVec.ofNat_toNat,
    BitVec.setWidth_eq]

theorem digit?_of_octet? (cs : List Char) (o : BitVec 8) (h : octet? cs = some o) (c : Char)
    (hc : c ∈ cs) : Text.digit? 10 c ≠ none := by
  cases hn : Text.ofDigits? 10 cs with
  | none =>
    rw [octet?, hn] at h
    cases h
  | some n => exact Text.digit?_of_ofDigits? cs n hn c hc

/-! ### Quads -/

/-- **The dotted quad of an address denotes it.** -/
theorem readV4?_writeV4 (a : BitVec 32) : readV4? (writeV4 a) = some a := by
  have hdot : ∀ part ∈ (octets a).map fun o => Text.decimal o.toNat, '.' ∉ part := by
    intro part hpart
    obtain ⟨o, -, rfl⟩ := List.mem_map.mp hpart
    exact (Text.not_mem_digits (by decide) _).1
  have hsplit : (writeV4 a).splitOn '.' = (octets a).map fun o => Text.decimal o.toNat :=
    List.splitOn_intercalate '.' hdot (by simp [octets])
  have hjoin :
      a.extractLsb' 24 8 ++ a.extractLsb' 16 8 ++ a.extractLsb' 8 8 ++ a.extractLsb' 0 8 = a := by
    rw [BitVec.extractLsb'_append_extractLsb'_eq_extractLsb' (show 24 = 16 + 8 from rfl),
      BitVec.extractLsb'_append_extractLsb'_eq_extractLsb' (show 16 = 8 + 8 from rfl),
      BitVec.extractLsb'_append_extractLsb'_eq_extractLsb' (show 8 = 0 + 8 from rfl)]
    exact BitVec.extractLsb'_eq_self
  simp only [readV4?, hsplit, octets, List.map_cons, List.map_nil, octet?_decimal,
    Option.bind_eq_bind, Option.bind_some, hjoin]

theorem mem_of_readV4? (cs : List Char) (a : BitVec 32) (h : readV4? cs = some a) (c : Char)
    (hc : c ∈ cs) : c = '.' ∨ Text.digit? 10 c ≠ none := by
  have hjoin : ['.'].intercalate (cs.splitOn '.') = cs := List.intercalate_splitOn '.'
  rw [← hjoin] at hc
  unfold readV4? at h
  split at h
  case h_1 p q r s hparts =>
    simp only [Option.bind_eq_bind, Option.bind_eq_some_iff] at h
    obtain ⟨op, hp, oq, hq, or, hr, os, hs, -⟩ := h
    rw [hparts] at hc
    rcases mem_intercalate c _ _ hc with hdot | ⟨part, hpart, hmem⟩
    · exact .inl (List.mem_singleton.mp hdot)
    · right
      simp only [List.mem_cons, List.not_mem_nil, or_false] at hpart
      rcases hpart with rfl | rfl | rfl | rfl
      · exact digit?_of_octet? _ op hp c hmem
      · exact digit?_of_octet? _ oq hq c hmem
      · exact digit?_of_octet? _ or hr c hmem
      · exact digit?_of_octet? _ os hs c hmem
  case h_2 => cases h

theorem readV4?_of_colon (cs : List Char) (h : ':' ∈ cs) : readV4? cs = none := by
  cases ha : readV4? cs with
  | none => rfl
  | some a =>
    rcases mem_of_readV4? cs a ha ':' h with hdot | hdigit
    · exact absurd hdot (by decide)
    · exact absurd (Text.digit?_mark 10).2.1 hdigit

theorem readV4?_of_no_dot (cs : List Char) (h : '.' ∉ cs) : readV4? cs = none := by
  simp only [readV4?, List.splitOn_eq_singleton h]

theorem not_mem_writeV4 (a : BitVec 32) : ':' ∉ writeV4 a ∧ '/' ∉ writeV4 a := by
  have hmark : ∀ c, c ≠ '.' → (∀ n, c ∉ Text.digits 10 n) → c ∉ writeV4 a := by
    intro c hdot hdigits hc
    rcases mem_intercalate c _ _ hc with h | ⟨part, hpart, h⟩
    · exact hdot (List.mem_singleton.mp h)
    · obtain ⟨o, -, rfl⟩ := List.mem_map.mp hpart
      exact hdigits _ h
  exact ⟨hmark ':' (by decide) fun n => (Text.not_mem_digits (by decide) n).2.1,
    hmark '/' (by decide) fun n => (Text.not_mem_digits (by decide) n).2.2⟩

end CidrTable.Address
