import CidrTable.Proofs.Address.Family
import CidrTable.Proofs.Nesting
import CidrTable.Proofs.Subnet.Key

/-! IPv4 subnets in the 128-bit space.

A cut that leaves the front of a word whole cuts what stands behind it alone
(`Word.keep_append`). So an IPv4 address may be cut and then mapped or mapped and then cut, and
the network of a subnet has nothing past the length of its prefix (`bits_toPrefix`): the cut in
`toPrefix` clears no bit. `MapsV4` is what a prefix owes to the IPv4 subnet it stands for, and
`mapsV4` says that `toPrefix` pays it. -/
namespace CidrTable

namespace Word

variable {v w : Nat}

/-- The words have their first `n` bits in common. -/
def Agree (x y : BitVec w) (n : Nat) : Prop := ∀ i, i < n → x.getMsbD i = y.getMsbD i

theorem keep_idem (x : BitVec w) (n : Nat) : keep (keep x n) n = keep x n := by
  rw [keep_keep, Nat.min_self]

theorem keep_append (x : BitVec v) (y : BitVec w) (n : Nat) :
    keep (x ++ y) (n + v) = x ++ keep y n := by
  refine BitVec.eq_of_getMsbD_eq fun i _ => ?_
  rw [getMsbD_keep, BitVec.getMsbD_append, BitVec.getMsbD_append]
  by_cases hi : v ≤ i
  · have hlt : i < n + v ↔ i - v < n := by omega
    rw [if_pos hi, if_pos hi, getMsbD_keep, decide_eq_decide.mpr hlt]
  · rw [if_neg hi, if_neg hi, decide_eq_true (show i < n + v by omega), Bool.and_true]

end Word

namespace Address

/-! ### Mapped words -/

theorem keep_mapped (b : BitVec 32) (n : Nat) :
    Word.keep (mapped b) (n + 96) = mapped (Word.keep b n) := Word.keep_append mappedFront b n

/-- A word begins like a mapped address if its front is the mapped one and the rest begins like
the address. -/
theorem keep_eq_mapped_iff (x : BitVec 128) (a : BitVec 32) (n : Nat) :
    Word.keep x (n + 96) = mapped (Word.keep a n) ↔
      x.extractLsb' 32 96 = mappedFront ∧ Word.Agree a (x.extractLsb' 0 32) n := by
  have hsplit : x.extractLsb' 32 96 ++ x.extractLsb' 0 32 = x :=
    BitVec.extractLsb'_append_extractLsb'
  have hkeep : Word.keep x (n + 96) =
      x.extractLsb' 32 96 ++ Word.keep (x.extractLsb' 0 32) n :=
    (congrArg (Word.keep · (n + 96)) hsplit.symm).trans (Word.keep_append _ _ n)
  rw [hkeep, mapped, Word.Agree, ← Word.keep_eq_keep_iff]
  constructor
  · intro h
    have hfront := congrArg (BitVec.extractLsb' 32 96) h
    have hback := congrArg (BitVec.extractLsb' 0 32) h
    rw [BitVec.extractLsb'_append_eq_left, BitVec.extractLsb'_append_eq_left] at hfront
    rw [BitVec.extractLsb'_append_eq_right, BitVec.extractLsb'_append_eq_right] at hback
    exact ⟨hfront, hback.symm⟩
  · rintro ⟨hfront, hback⟩
    rw [hfront, hback]

/-- Two mapped addresses begin alike exactly if the addresses do. -/
theorem keep_mapped_eq_mapped_iff (a b : BitVec 32) (n : Nat) :
    Word.keep (mapped b) (n + 96) = mapped (Word.keep a n) ↔ Word.Agree a b n := by
  have hfront : (mapped b).extractLsb' 32 96 = mappedFront := BitVec.extractLsb'_append_eq_left
  have hback : (mapped b).extractLsb' 0 32 = b := BitVec.extractLsb'_append_eq_right
  rw [keep_eq_mapped_iff, hfront, hback]
  exact and_iff_right rfl

theorem mappedLength_of_le {n : Nat} (h : n ≤ 32) : mappedLength n = n + 96 :=
  Nat.min_eq_left (by omega)

end Address

namespace Subnet

/-! ### The place of a subnet -/

/-- The network of a subnet has no bits past the length of its prefix. -/
theorem bits_toPrefix (s : Subnet) : s.toPrefix.bits = s.network.word := by
  obtain ⟨a | a, n, h⟩ := s
  · show Word.keep (Address.mapped (Word.keep a n)) (Address.mappedLength n) = _
    rw [Address.mappedLength_of_le h, Address.keep_mapped, Word.keep_idem]
    rfl
  · exact Word.keep_idem a n

/-- Clearing the bits that do not count leaves a subnet where it is. -/
theorem toPrefix_truncate (s : Subnet) : s.truncate.toPrefix = s.toPrefix := by
  refine Prefix.eq_of_bits_of_len ?_ ?_
  · rw [bits_toPrefix, bits_toPrefix]
    obtain ⟨a | a, n, h⟩ := s
    · exact congrArg Address.mapped (Word.keep_idem a n)
    · exact Word.keep_idem a n
  · obtain ⟨a | a, n, h⟩ := s <;> rfl

/-! ### IPv4 subnets -/

def ofV4 (a : BitVec 32) (n : Nat) (h : n ≤ 32) : Subnet := ⟨.v4 a, n, h⟩

/-- What a prefix owes to the IPv4 subnet `a/m`. -/
structure MapsV4 (a : BitVec 32) (m : Nat) (p : Prefix) : Prop where
  len : p.len = m + 96
  /-- The network mapped, with nothing left to clear. -/
  bits : p.bits = Address.mapped (Word.keep a m)
  host_bits : ∀ i, m + 96 ≤ i → p.bits.getMsbD i = false
  /-- The address as it is, mapped, with that length is a prefix, and this one. -/
  made : Prefix.ofBits? (Address.mapped a) (m + 96) = some p
  containsAddress_v4 : ∀ b, p.containsAddress (.v4 b) = true ↔ Word.Agree a b m
  /-- An IPv6 address inside is one of `::ffff:0:0/96`, for an IPv4 address inside. -/
  containsAddress_v6 : ∀ x : BitVec 128, p.containsAddress (.v6 x) = true ↔
    x.extractLsb' 32 96 = 0xffff ∧ Word.Agree a (x.extractLsb' 0 32) m
  contains : ∀ b n (hn : n ≤ 32),
    p.contains (ofV4 b n hn).toPrefix = true ↔ m ≤ n ∧ Word.Agree a b m
  eq : ∀ b n (hn : n ≤ 32), p = (ofV4 b n hn).toPrefix ↔ m = n ∧ Word.Agree a b m
  /-- The subnet is a key in its own notation and in that of the whole space. -/
  key : Prefix.ofString (.ofList (Address.writeV4 a ++ '/' :: Text.decimal m)) = .ok p
  mapped_key : Prefix.ofString
    (.ofList ("::ffff:".toList ++ Address.writeV4 a ++ '/' :: Text.decimal (m + 96))) = .ok p

section

variable {a b : BitVec 32} {m n : Nat} (hm : m ≤ 32) (hn : n ≤ 32)

theorem len_toPrefix_ofV4 : (ofV4 a m hm).toPrefix.len = m + 96 := Address.mappedLength_of_le hm

theorem bits_toPrefix_ofV4 : (ofV4 a m hm).toPrefix.bits = Address.mapped (Word.keep a m) :=
  bits_toPrefix (ofV4 a m hm)

theorem ofBits?_mapped :
    Prefix.ofBits? (Address.mapped a) (m + 96) = some (ofV4 a m hm).toPrefix := by
  rw [Prefix.ofBits?, dif_pos (show m + 96 ≤ 128 by omega)]
  refine congrArg some (Prefix.eq_of_bits_of_len ?_ (len_toPrefix_ofV4 hm).symm)
  rw [bits_toPrefix_ofV4]
  exact Address.keep_mapped a m

theorem containsAddress_ofV4_iff (c : Address) :
    (ofV4 a m hm).toPrefix.containsAddress c = true ↔
      Word.keep c.word (m + 96) = Address.mapped (Word.keep a m) := by
  rw [Prefix.containsAddress, Prefix.contains_iff_keep, len_toPrefix_ofV4, bits_toPrefix_ofV4,
    Address.toPrefix, Prefix.bits_host]
  exact and_iff_right (show m + 96 ≤ 128 by omega)

/-- An IPv4 subnet contains another exactly if its length is no greater and the addresses agree
so far. -/
theorem contains_ofV4_iff :
    (ofV4 a m hm).toPrefix.contains (ofV4 b n hn).toPrefix = true ↔ m ≤ n ∧ Word.Agree a b m := by
  rw [Prefix.contains_iff_keep, len_toPrefix_ofV4, len_toPrefix_ofV4, bits_toPrefix_ofV4,
    bits_toPrefix_ofV4, Address.keep_mapped_eq_mapped_iff, Nat.add_le_add_iff_right]
  refine and_congr_right fun hle => ?_
  rw [Word.Agree, ← Word.keep_eq_keep_iff, Word.keep_keep, Nat.min_eq_right hle]
  exact Word.keep_eq_keep_iff a b m

theorem eq_ofV4_iff :
    (ofV4 a m hm).toPrefix = (ofV4 b n hn).toPrefix ↔ m = n ∧ Word.Agree a b m := by
  constructor
  · intro h
    have hlen := congrArg Prefix.len h
    rw [len_toPrefix_ofV4, len_toPrefix_ofV4] at hlen
    have hcontains : (ofV4 a m hm).toPrefix.contains (ofV4 b n hn).toPrefix = true :=
      h ▸ Prefix.contains_refl _
    exact ⟨Nat.add_right_cancel hlen, ((contains_ofV4_iff hm hn).mp hcontains).2⟩
  · rintro ⟨rfl, hagree⟩
    refine Prefix.eq_of_contains ((contains_ofV4_iff hm hn).mpr ⟨Nat.le_refl m, hagree⟩) ?_
    rw [len_toPrefix_ofV4, len_toPrefix_ofV4]

/-- The notation of the whole space, host bits and all, is a key for the subnet's prefix. -/
theorem ofString_mapped_key :
    Prefix.ofString
        (.ofList ("::ffff:".toList ++ Address.writeV4 a ++ '/' :: Text.decimal (m + 96))) =
      .ok (ofV4 a m hm).toPrefix := by
  have hread := Address.read?_mapped a
  have hlen : m + 96 ≤ (Address.v6 (Address.mapped a)).width := show m + 96 ≤ 128 by omega
  have hslash := ((Address.read?_eq_some_iff _ _).mp hread).not_mem_slash
  have hprefix : (Subnet.truncate ⟨.v6 (Address.mapped a), m + 96, hlen⟩).toPrefix =
      (ofV4 a m hm).toPrefix := by
    rw [toPrefix_truncate]
    refine Prefix.eq_of_bits_of_len ?_ (len_toPrefix_ofV4 hm).symm
    rw [bits_toPrefix, bits_toPrefix_ofV4]
    exact Address.keep_mapped a m
  rw [Prefix.ofString_of_read _ _ _ hlen hslash hread, hprefix]

theorem ofString_v4_key :
    Prefix.ofString (.ofList (Address.writeV4 a ++ '/' :: Text.decimal m)) =
      .ok (ofV4 a m hm).toPrefix := by
  have hread : Address.read? (Address.writeV4 a) = some (.v4 a) :=
    (Address.read?_eq_some_iff _ _).mpr (Address.readV4?_writeV4 a)
  rw [Prefix.ofString_of_read _ (.v4 a) m hm (Address.not_mem_writeV4 a).2 hread]
  exact congrArg Except.ok (toPrefix_truncate _)

/-- **The prefix of an IPv4 subnet stands for it and for nothing else.** -/
theorem mapsV4 (a : BitVec 32) (m : Nat) (hm : m ≤ 32) : MapsV4 a m (ofV4 a m hm).toPrefix where
  len := len_toPrefix_ofV4 hm
  bits := bits_toPrefix_ofV4 hm
  host_bits i hi := Prefix.bit_of_le _ i (len_toPrefix_ofV4 hm ▸ hi)
  made := ofBits?_mapped hm
  containsAddress_v4 b :=
    (containsAddress_ofV4_iff hm (.v4 b)).trans (Address.keep_mapped_eq_mapped_iff a b m)
  containsAddress_v6 x :=
    (containsAddress_ofV4_iff hm (.v6 x)).trans (Address.keep_eq_mapped_iff x a m)
  contains _ _ hn := contains_ofV4_iff hm hn
  eq _ _ hn := eq_ofV4_iff hm hn
  key := ofString_v4_key hm
  mapped_key := ofString_mapped_key hm

/-- An address with host bits behind its 24 that count. -/
theorem documentation_subnet_mapped :
    24 ≤ 32 ∧ MapsV4 0xCB007107 24 (ofV4 0xCB007107 24 (by decide)).toPrefix :=
  ⟨by decide, mapsV4 0xCB007107 24 (by decide)⟩

end

end Subnet

end CidrTable
