import CidrTable.Binary64
import CidrTable.Text.Digits

/-! Numbers as callers write them in text.

Whole numbers take a sign and decimal digits and have to fit their width. Binary numbers
take a sign, digits with an optional point and an optional exponent, or one of the names
`inf`, `infinity` and `nan` in any letter case. -/
namespace CidrTable.Numeral

/-- A sign in front of a text: whether it is a minus, and what follows. -/
def sign : List Char → Bool × List Char
  | '-' :: rest => (true, rest)
  | '+' :: rest => (false, rest)
  | cs => (false, cs)

/-- A natural number below `2 ^ width`, a plus sign allowed. -/
def unsigned? (width : Nat) (s : String) : Option Nat := do
  let cs := match s.toList with
    | '+' :: rest => rest
    | cs => cs
  let n ← Text.ofDigits? 10 cs
  guard (n < 1 <<< width)
  some n

/-- An integer of a width in two's complement. -/
def signed? (width : Nat) (s : String) : Option Int := do
  let (negative, cs) := sign s.toList
  let n ← Text.ofDigits? 10 cs
  let v : Int := if negative then -n else n
  let limit : Int := (1 <<< (width - 1) : Nat)
  guard (-limit ≤ v && v < limit)
  some v

/-- A hexadecimal word of at most 128 bits, a plus sign allowed. -/
def word? (s : String) : Option (BitVec 128) := do
  let cs := match s.toList with
    | '+' :: rest => rest
    | cs => cs
  let n ← Text.ofDigits? 16 cs
  guard (n < 1 <<< 128)
  some (BitVec.ofNat 128 n)

/-- Bytes written as pairs of hexadecimal digits. -/
def bytes? : List Char → Option (List UInt8)
  | [] => some []
  | [_] => none
  | a :: b :: rest => do
    let n ← Text.ofDigits? 16 [a, b]
    let ns ← bytes? rest
    some (UInt8.ofNat n :: ns)

def exponent? (cs : List Char) : Option Int := do
  let (negative, cs) := sign cs
  let n ← Text.ofDigits? 10 cs
  some (if negative then -n else n)

/-- A decimal without its sign: digits with an optional point, and an optional exponent. -/
def decimal? (cs : List Char) : Option (Nat × Int) := do
  let whole := cs.takeWhile Char.isDigit
  let rest := cs.dropWhile Char.isDigit
  let (fraction, rest) := match rest with
    | '.' :: r => (r.takeWhile Char.isDigit, r.dropWhile Char.isDigit)
    | r => ([], r)
  let digits ← Text.ofDigits? 10 (whole ++ fraction)
  let shift ← match rest with
    | [] => some 0
    | c :: r => if c = 'e' ∨ c = 'E' then exponent? r else none
  some (digits, shift - fraction.length)

/-- A binary number in text, rounded to a precision. -/
def binary? (p : Binary64.Precision) (s : String) : Option Binary64 :=
  let (negative, cs) := sign s.toList
  match String.ofList (cs.map Char.toLower) with
  | "nan" => some .nan
  | "inf" => some (.infinite negative)
  | "infinity" => some (.infinite negative)
  | _ => (decimal? cs).map fun (digits, exponent) => p.ofDecimal negative digits exponent

end CidrTable.Numeral
