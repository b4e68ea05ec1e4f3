import CidrTable.Word

/-! Prefixes of the 128-bit address space.

A prefix is a length and that many leading bits; the bits after it are zero, which
the type records, so equal prefixes are equal values. `contains` is nesting, and
`compare` orders prefixes by their bits and then by length, an outer prefix before
the ones inside it. -/
namespace CidrTable

/-- Leading bits of a 128-bit address, the rest of the word zero. -/
structure Prefix where
  bits : BitVec 128
  len : Nat
  len_le : len ≤ 128
  host_bits : Word.keep bits len = bits
  deriving DecidableEq

namespace Prefix

/-! ### Making prefixes -/

/-- The first `len` bits of a word. -/
def cut (bits : BitVec 128) (len : Nat) (h : len ≤ 128) : Prefix where
  bits := Word.keep bits len
  len := len
  len_le := h
  host_bits := by rw [Word.keep_keep, Nat.min_self]

/-- The first `len` bits of a word, if it has that many. -/
def ofBits? (bits : BitVec 128) (len : Nat) : Option Prefix :=
  if h : len ≤ 128 then some (cut bits len h) else none

/-- The prefix that holds one address only. -/
def host (address : BitVec 128) : Prefix := cut address 128 (Nat.le_refl _)

/-- The whole address space. -/
def any : Prefix := cut 0 0 (Nat.zero_le _)

/-- The prefix cut to at most `n` bits. -/
def truncate (p : Prefix) (n : Nat) : Prefix :=
  cut p.bits (min n p.len) (Nat.le_trans (Nat.min_le_right ..) p.len_le)

/-! ### Reading prefixes -/

/-- Bit `i`, counted from the highest. -/
def bit (p : Prefix) (i : Nat) : Bool := p.bits.getMsbD i

/-- The first address covered. -/
def network (p : Prefix) : BitVec 128 := p.bits

/-- The last address covered. -/
def last (p : Prefix) : BitVec 128 := p.bits ||| ~~~Word.mask p.len

/-- Whether `q` is `p` or lies inside it. -/
def contains (p q : Prefix) : Bool :=
  decide (p.len ≤ q.len) && Word.keep q.bits p.len == p.bits

/-- Order by bits, then by length. -/
def compare (p q : Prefix) : Ordering :=
  (Ord.compare p.bits.toNat q.bits.toNat).then (Ord.compare p.len q.len)

end Prefix

end CidrTable
