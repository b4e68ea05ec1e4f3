import CidrTable.Address.Text

/-! Subnets in their own family.

A subnet is an address and the number of its leading bits that count. `truncate`
clears the others, and `toPrefix` gives the subnet's place in the 128-bit space, where
an IPv4 length grows by 96. -/
namespace CidrTable

/-- An address with a prefix length that its family allows. -/
structure Subnet where
  address : Address
  len : Nat
  len_le : len ≤ address.width
  deriving DecidableEq

namespace Subnet

/-- The subnet of an address and a length, if the family allows the length. -/
def ofLength? (a : Address) (len : Nat) : Option Subnet :=
  if h : len ≤ a.width then some ⟨a, len, h⟩ else none

def network (s : Subnet) : Address := s.address.keep s.len

theorem width_network (s : Subnet) : s.network.width = s.address.width := by
  unfold network
  cases s.address <;> rfl

/-- The subnet without the bits that do not count. -/
def truncate (s : Subnet) : Subnet := ⟨s.network, s.len, s.width_network ▸ s.len_le⟩

/-- The length of a subnet's prefix in the 128-bit space. -/
def prefixLength (s : Subnet) : Nat :=
  match s.address with
  | .v4 _ => Address.mappedLength s.len
  | .v6 _ => s.len

theorem prefixLength_le (s : Subnet) : s.prefixLength ≤ 128 := by
  obtain ⟨_ | _, len, h⟩ := s <;> simp only [Address.width] at h <;>
    simp only [prefixLength, Address.mappedLength] <;> omega

/-- The subnet's place in the 128-bit space. -/
def toPrefix (s : Subnet) : Prefix := .cut s.network.word s.prefixLength s.prefixLength_le

/-- The subnet in its own notation: address, slash, length. -/
def write (s : Subnet) : List Char := s.address.write ++ '/' :: Text.decimal s.len

instance : ToString Subnet := ⟨fun s => String.ofList s.write⟩

end Subnet

/-- The canonical text of a prefix: its network as an IPv6 address, slash, length. -/
def Prefix.write (p : Prefix) : List Char := Address.writeV6 p.network ++ '/' :: Text.decimal p.len

def Prefix.text (p : Prefix) : String := String.ofList p.write

instance : ToString Prefix := ⟨Prefix.text⟩

end CidrTable
