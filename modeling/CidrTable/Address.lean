import CidrTable.Prefix

/-! Internet addresses of both families.

The 128-bit space holds the IPv4 addresses behind `::ffff:0:0/96`: `Address.word` is
an address's place there, and `Address.toPrefix` the prefix that covers it alone. -/
namespace CidrTable

/-- An IPv4 or an IPv6 address. -/
inductive Address where
  | v4 (bits : BitVec 32)
  | v6 (bits : BitVec 128)
  deriving DecidableEq

namespace Address

/-- The 96 bits in front of every mapped IPv4 address. -/
def mappedFront : BitVec 96 := 0xffff

/-- An IPv4 address in the 128-bit space. -/
def mapped (bits : BitVec 32) : BitVec 128 := mappedFront ++ bits

/-- The length, in the 128-bit space, of an IPv4 prefix of `n` bits; a length is kept in a byte. -/
def mappedLength (n : Nat) : Nat := min (n + 96) 255

def width : Address → Nat
  | .v4 _ => 32
  | .v6 _ => 128

/-- The address in the 128-bit space. -/
def word : Address → BitVec 128
  | .v4 bits => mapped bits
  | .v6 bits => bits

/-- The prefix that covers the address and no other. -/
def toPrefix (a : Address) : Prefix := .host a.word

/-- The address with every bit after its first `n` cleared. -/
def keep (n : Nat) : Address → Address
  | .v4 bits => .v4 (Word.keep bits n)
  | .v6 bits => .v6 (Word.keep bits n)

end Address

def Prefix.containsAddress (p : Prefix) (a : Address) : Bool := p.contains a.toPrefix

end CidrTable
