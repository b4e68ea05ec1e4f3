import CidrTable.Address
import CidrTable.Text.Digits

/-! Addresses in text.

An IPv4 address is four decimal octets. An IPv6 address is eight groups of hexadecimal
digits, in which one run of zero groups may be left out at `::` and the last two groups
may be written as a dotted quad. Writing follows RFC 5952: lower case, no leading zeros,
the first of the longest runs of two or more zero groups left out, and a dotted quad for
the mapped IPv4 addresses and for no others. -/
namespace CidrTable.Address

/-! ### IPv4 -/

/-- An octet of a dotted quad: up to three digits, without a leading zero. -/
def octet? (cs : List Char) : Option (BitVec 8) := do
  let n ← Text.ofDigits? 10 cs
  guard (cs.length ≤ 3 && n < 256 && (cs.head? != some '0' || cs.length == 1))
  some (BitVec.ofNat 8 n)

/-- The address that a dotted quad denotes. -/
def readV4? (cs : List Char) : Option (BitVec 32) :=
  match cs.splitOn '.' with
  | [a, b, c, d] => do
    let a ← octet? a
    let b ← octet? b
    let c ← octet? c
    let d ← octet? d
    some (a ++ b ++ c ++ d)
  | _ => none

def octets (a : BitVec 32) : List (BitVec 8) :=
  [a.extractLsb' 24 8, a.extractLsb' 16 8, a.extractLsb' 8 8, a.extractLsb' 0 8]

def writeV4 (a : BitVec 32) : List Char :=
  ['.'].intercalate ((octets a).map fun o => Text.decimal o.toNat)

/-! ### IPv6, read -/

/-- A group: one to four hexadecimal digits. -/
def group? (cs : List Char) : Option (BitVec 16) := do
  let n ← Text.ofDigits? 16 cs
  guard (cs.length ≤ 4)
  some (BitVec.ofNat 16 n)

/-- The two groups of a dotted quad. -/
def quadGroups (a : BitVec 32) : List (BitVec 16) :=
  [a.extractLsb' 16 16, a.extractLsb' 0 16]

/-- Groups between colons, the last of which may be a dotted quad where `quad` allows it. -/
def groupList? (quad : Bool) : List (List Char) → Option (List (BitVec 16))
  | [] => some []
  | [p] => if quad then (readV4? p).map quadGroups <|> (group? p).map ([·]) else (group? p).map ([·])
  | p :: ps => do
    let g ← group? p
    let gs ← groupList? quad ps
    some (g :: gs)

/-- The groups on one side of `::`, possibly none. -/
def side? (quad : Bool) (cs : List Char) : Option (List (BitVec 16)) :=
  if cs.isEmpty then some [] else groupList? quad (cs.splitOn ':')

/-- The text before and after the first `::`. -/
def cutAtGap? : List Char → Option (List Char × List Char)
  | ':' :: ':' :: rest => some ([], rest)
  | c :: rest => (cutAtGap? rest).map fun (before, after) => (c :: before, after)
  | [] => none

/-- The word whose groups these are, the first being the highest. -/
def ofGroups (gs : List (BitVec 16)) : BitVec 128 :=
  gs.foldl (fun x g => x <<< 16 ||| g.setWidth 128) 0

/-- The address that an IPv6 text denotes; `::` stands for at least one group. -/
def readV6? (cs : List Char) : Option (BitVec 128) :=
  match cutAtGap? cs with
  | none => do
    let gs ← side? true cs
    guard (gs.length == 8)
    some (ofGroups gs)
  | some (before, after) => do
    let front ← side? false before
    let back ← side? true after
    let given := front.length + back.length
    guard (given ≤ 7)
    some (ofGroups (front ++ List.replicate (8 - given) 0 ++ back))

/-! ### IPv6, written -/

/-- The eight groups of a word, the highest first. -/
def groups (x : BitVec 128) : List (BitVec 16) :=
  (List.range 8).map fun i => x.extractLsb' (112 - 16 * i) 16

/-- Start and length of the first of the longest runs of zero groups. -/
def longestGap : List (BitVec 16) → Nat × Nat
  | [] => (0, 0)
  | g :: gs =>
    let here := ((g :: gs).takeWhile (· == 0)).length
    let (start, len) := longestGap gs
    if len ≤ here then (0, here) else (start + 1, len)

/-- Groups in hexadecimal, colons between them. -/
def writeGroups (gs : List (BitVec 16)) : List Char :=
  [':'].intercalate (gs.map fun g => Text.digits 16 g.toNat)

/-- The text of an IPv6 address. -/
def writeV6 (x : BitVec 128) : List Char :=
  if x.extractLsb' 32 96 = mappedFront then
    "::ffff:".toList ++ writeV4 (x.extractLsb' 0 32)
  else
    let gs := groups x
    let (start, len) := longestGap gs
    if 2 ≤ len then
      writeGroups (gs.take start) ++ [':', ':'] ++ writeGroups (gs.drop (start + len))
    else writeGroups gs

/-! ### Both families -/

/-- The address that a text denotes. -/
def read? (cs : List Char) : Option Address :=
  (readV4? cs).map .v4 <|> (readV6? cs).map .v6

def write : Address → List Char
  | .v4 bits => writeV4 bits
  | .v6 bits => writeV6 bits

def ofString? (s : String) : Option Address := read? s.toList

instance : ToString Address := ⟨fun a => String.ofList a.write⟩

/-- What is said of a text that is no address. -/
def malformedMessage : String := "invalid IP address syntax"

end CidrTable.Address
