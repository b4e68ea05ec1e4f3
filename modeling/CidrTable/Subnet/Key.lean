import CidrTable.Subnet

/-! Subnet keys: an address, a slash and a mask.

The mask is a length in decimal digits, or a netmask written as an address of the same
family, whose ones must come first. `Subnet.Key.read` gives the subnet with its host bits
cleared and the width of its mask, or says why a text is no key; the address is judged
before the mask. -/
namespace CidrTable

/-- Why a text is not a subnet key. -/
inductive KeyError where
  | missingSeparator
  | address
  | lengthOutOfRange (written : String) (limit : Nat)
  | netmask (written : String)
  | familyMismatch (written : String)
  deriving DecidableEq

namespace KeyError

def message : KeyError → String
  | missingSeparator => "missing '/' separator"
  | address => "invalid address: " ++ Address.malformedMessage
  | lengthOutOfRange written limit =>
    "invalid prefix length " ++ written ++ " (maximum is " ++ toString limit ++ ")"
  | netmask written => "invalid netmask " ++ written
  | familyMismatch written => "netmask " ++ written ++ " does not match the address family"

/-- The messages of the causes behind the error, the nearest first. -/
def causes : KeyError → List String
  | address => [Address.malformedMessage]
  | _ => []

end KeyError

namespace Subnet

/-- The prefix length that a mask gives an address. A length is read into sixteen bits and
kept in eight; a netmask of 32 bits is read at the front of a word of 128. -/
def maskLength (a : Address) (mask : List Char) : Except KeyError Nat :=
  if !mask.isEmpty && mask.all Char.isDigit then
    match Text.word? 16 mask with
    | some n =>
      if n.toNat ≤ a.width then .ok (n.setWidth 8).toNat
      else .error (.lengthOutOfRange (.ofList mask) a.width)
    | none => .error (.lengthOutOfRange (.ofList mask) a.width)
  else
    match Address.readV4? mask, Address.readV6? mask, a with
    | some _, _, .v6 _ => .error (.familyMismatch (.ofList mask))
    | some m, _, .v4 _ =>
      (Word.onesLength? (m ++ (0 : BitVec 96))).elim (.error (.netmask (.ofList mask))) .ok
    | none, some _, .v4 _ => .error (.familyMismatch (.ofList mask))
    | none, some m, .v6 _ => (Word.onesLength? m).elim (.error (.netmask (.ofList mask))) .ok
    | none, none, _ => .error (.netmask (.ofList mask))

/-- A key as it was written, before it has a place in the 128-bit space. -/
structure Key where
  subnet : Subnet
  /-- The width of the mask. -/
  maskBits : Nat
  deriving DecidableEq

namespace Key

/-- The key of an address and a mask, host bits cleared. -/
def ofMask (a : Address) (mask : List Char) : Except KeyError Key := do
  let len ← maskLength a mask
  match ofLength? a len with
  | some s => .ok ⟨s.truncate, a.width⟩
  | none => .error (.lengthOutOfRange (.ofList mask) a.width)

def read (key : List Char) : Except KeyError Key :=
  match key.dropWhile (· != '/') with
  | [] => .error .missingSeparator
  | _ :: mask =>
    match Address.read? (key.takeWhile (· != '/')) with
    | none => .error .address
    | some a => ofMask a mask

/-- The key that a string is. -/
def ofString (key : String) : Except KeyError Key := read key.toList

/-- The key's place in the 128-bit space. -/
def toPrefix (k : Key) : Prefix := k.subnet.toPrefix

end Key

/-- The subnet that a string denotes. -/
def ofString (key : String) : Except KeyError Subnet := (Key.ofString key).map Key.subnet

end Subnet

/-- The prefix that a key denotes. -/
def Prefix.ofString (key : String) : Except KeyError Prefix :=
  (Subnet.Key.ofString key).map Subnet.Key.toPrefix

end CidrTable
