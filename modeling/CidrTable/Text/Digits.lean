/-! Natural numbers in text.

`digits` writes a number with lower-case digits and no leading zero; `ofDigits?` reads
any nonempty run of digits, in either case and with any number of leading zeros, and
`word?` reads decimal digits into a word that may be too narrow for them. -/
namespace CidrTable.Text

/-- What a digit stands for in a base of at most sixteen. -/
def digit? (base : Nat) (c : Char) : Option Nat :=
  let v :=
    if '0' ≤ c ∧ c ≤ '9' then c.toNat - '0'.toNat
    else if 'a' ≤ c ∧ c ≤ 'f' then c.toNat - 'a'.toNat + 10
    else if 'A' ≤ c ∧ c ≤ 'F' then c.toNat - 'A'.toNat + 10
    else base
  if v < base then some v else none

/-- The number that a nonempty run of digits denotes. -/
def ofDigits? (base : Nat) (cs : List Char) : Option Nat :=
  if cs.isEmpty then none
  else cs.foldlM (fun n c => (digit? base c).map (base * n + ·)) 0

/-- The word of `w` bits that holds the number which decimal digits denote, if one does. -/
def word? (w : Nat) (cs : List Char) : Option (BitVec w) := do
  let n ← ofDigits? 10 cs
  guard ((BitVec.ofNat w n).toNat = n)
  some (BitVec.ofNat w n)

def digits (base n : Nat) : List Char := Nat.toDigits base n

/-- The number in base ten. -/
def decimal (n : Nat) : List Char := digits 10 n

/-- The number in base sixteen, filled with zeros to at least `width` digits. -/
def hexadecimal (width n : Nat) : List Char := (digits 16 n).leftpad width '0'

end CidrTable.Text
