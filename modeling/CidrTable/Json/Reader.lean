import CidrTable.Json
import CidrTable.Text.Digits

/-! Reading JSON text.

A reader takes a document off the front of a text and leaves the rest. Containers nest at
most 127 deep. A numeral without fraction or exponent is whole if 64 bits hold it, and
any other is a binary number got from at most 64 bits of its digits, scaled by powers of
ten one rounding at a time; a numeral past the largest binary number is refused. -/
namespace CidrTable.Json

inductive SyntaxError where
  | malformed
  | tooDeep
  | numberOutOfRange
  deriving DecidableEq

/-- Takes a value off the front of a text. -/
abbrev Reader (α : Type) := List Char → Except SyntaxError (α × List Char)

def isBlank (c : Char) : Bool := c == ' ' || c == '\t' || c == '\n' || c == '\r'

def skipBlanks (cs : List Char) : List Char := cs.dropWhile isBlank

/-! ### Strings -/

/-- What a letter after a backslash stands for. -/
def escape? : Char → Option Char
  | '"' => some '"'
  | '\\' => some '\\'
  | '/' => some '/'
  | 'b' => some '\x08'
  | 'f' => some '\x0c'
  | 'n' => some '\n'
  | 'r' => some '\r'
  | 't' => some '\t'
  | _ => none

/-- A 16-bit unit of four hexadecimal digits. -/
def unit? (a b c d : Char) : Option Nat := Text.ofDigits? 16 [a, b, c, d]

/-- The character of a surrogate pair. -/
def ofSurrogates? (high low : Nat) : Option Char :=
  if 0xD800 ≤ high ∧ high < 0xDC00 ∧ 0xDC00 ≤ low ∧ low < 0xE000 then
    some (Char.ofNat (0x10000 + (high - 0xD800) * 0x400 + (low - 0xDC00)))
  else none

/-- The rest of a string behind its opening quote; `read` holds what came before, reversed. -/
def stringRest (read : List Char) : Reader String
  | [] => .error .malformed
  | '"' :: rest => .ok (String.ofList read.reverse, rest)
  | '\\' :: 'u' :: a :: b :: c :: d :: rest =>
    match unit? a b c d with
    | none => .error .malformed
    | some unit =>
      if unit < 0xD800 ∨ 0xE000 ≤ unit then stringRest (Char.ofNat unit :: read) rest
      else
        match rest with
        | '\\' :: 'u' :: e :: f :: g :: h :: rest =>
          match (unit? e f g h).bind (ofSurrogates? unit) with
          | some x => stringRest (x :: read) rest
          | none => .error .malformed
        | _ => .error .malformed
  | '\\' :: c :: rest =>
    match escape? c with
    | some x => stringRest (x :: read) rest
    | none => .error .malformed
  | c :: rest =>
    if c < ' ' ∨ c = '\\' then .error .malformed else stringRest (c :: read) rest

/-! ### Numbers -/

def significandLimit : Nat := 0xFFFFFFFFFFFFFFFF

/-- Appends digits to a significand while 64 bits hold it, and gives those left over. -/
def absorb (significand : Nat) : List Char → Nat × List Char
  | [] => (significand, [])
  | c :: rest =>
    let next := significand * 10 + (c.toNat - '0'.toNat)
    if next ≤ significandLimit then absorb next rest else (significand, c :: rest)

/-- A magnitude divided by `10 ^ k`, at most 308 powers at a time. -/
def scaleDown (units k : Nat) : Nat :=
  if k ≤ 308 then Binary64.div units (Binary64.tenTo k)
  else if units = 0 then 0
  else scaleDown (Binary64.div units (Binary64.tenTo 308)) (k - 308)
termination_by k

/-- The magnitude of `significand * 10 ^ exponent`. -/
def scale (significand : Nat) (exponent : Int) : Except SyntaxError Nat :=
  let units := Binary64.double.round (significand * Binary64.one) 1
  if exponent < 0 then .ok (scaleDown units exponent.natAbs)
  else if exponent ≤ 308 then
    let scaled := Binary64.mul units (Binary64.tenTo exponent.natAbs)
    if Binary64.overflows scaled then .error .numberOutOfRange else .ok scaled
  else if units = 0 then .ok 0
  else .error .numberOutOfRange

/-- A whole number, or the binary number it becomes when 64 bits do not hold it; minus
zero is binary. -/
def ofSignificand (negative : Bool) (significand : Nat) : Json :=
  if !negative then .whole significand
  else if 0 < significand ∧ significand ≤ 0x8000000000000000 then .whole (-significand)
  else .real (.finite true (Binary64.double.round (significand * Binary64.one) 1))

/-- The exponent behind its mark, and the rest. -/
def exponentRest : Reader Int := fun cs =>
  let (negative, cs) := match cs with
    | '-' :: rest => (true, rest)
    | '+' :: rest => (false, rest)
    | cs => (false, cs)
  match Text.ofDigits? 10 (cs.takeWhile Char.isDigit) with
  | some n => .ok (if negative then -n else n, cs.dropWhile Char.isDigit)
  | none => .error .malformed

/-- The fraction's digits behind the point, if a point comes first, and the rest. -/
def fractionRest : Reader (Option (List Char))
  | '.' :: rest =>
    let fraction := rest.takeWhile Char.isDigit
    if fraction.isEmpty then .error .malformed
    else .ok (some fraction, rest.dropWhile Char.isDigit)
  | cs => .ok (none, cs)

/-- A number behind its sign. -/
def numberRest (negative : Bool) : Reader Json := fun cs => do
  let whole := cs.takeWhile Char.isDigit
  if whole.isEmpty ∨ (whole.head? = some '0' ∧ whole.length ≠ 1) then .error .malformed
  let (significand, beyond) := absorb 0 whole
  let (fraction, rest) ← fractionRest (cs.dropWhile Char.isDigit)
  let (significand, unread) := absorb significand (fraction.getD [])
  let read := (fraction.getD []).length - unread.length
  let (exponent, rest) ← match rest with
    | 'e' :: r => (exponentRest r).map fun (e, r) => (some e, r)
    | 'E' :: r => (exponentRest r).map fun (e, r) => (some e, r)
    | r => .ok (none, r)
  if fraction.isNone ∧ exponent.isNone ∧ beyond.isEmpty then
    .ok (ofSignificand negative significand, rest)
  else
    let units ← scale significand (beyond.length - read + exponent.getD 0)
    .ok (.real (.finite negative units), rest)

/-! ### Documents -/

/-- Items between commas up to a closing character; `fuel` bounds their number. -/
def itemsRest {α : Type} (item : Reader α) (close : Char) : Nat → Reader (List α)
  | 0, _ => .error .malformed
  | fuel + 1, cs => do
    let (x, rest) ← item cs
    match skipBlanks rest with
    | ',' :: rest =>
      let (xs, rest) ← itemsRest item close fuel rest
      .ok (x :: xs, rest)
    | c :: rest => if c = close then .ok ([x], rest) else .error .malformed
    | [] => .error .malformed

/-- A container's items behind its opening character. -/
def items {α : Type} (item : Reader α) (close : Char) : Reader (List α) := fun cs =>
  match skipBlanks cs with
  | [] => .error .malformed
  | c :: rest => if c = close then .ok ([], rest) else itemsRest item close cs.length cs

/-- A field: a key, a colon and a value. -/
def field (value : Reader Json) : Reader (String × Json) := fun cs =>
  match skipBlanks cs with
  | '"' :: rest => do
    let (key, rest) ← stringRest [] rest
    match skipBlanks rest with
    | ':' :: rest =>
      let (j, rest) ← value rest
      .ok ((key, j), rest)
    | _ => .error .malformed
  | _ => .error .malformed

/-- A word that stands for a value. -/
def word (j : Json) (letters : String) : Reader Json := fun cs =>
  if letters.toList.isPrefixOf cs then .ok (j, cs.drop letters.length) else .error .malformed

/-- A document whose containers hold what `inner` reads, if they may stand here at all. -/
def valueWith (inner : Option (Reader Json)) : Reader Json := fun cs =>
  let cs := skipBlanks cs
  match cs with
  | [] => .error .malformed
  | '"' :: rest => (stringRest [] rest).map fun (s, rest) => (.text s, rest)
  | '[' :: rest =>
    match inner with
    | none => .error .tooDeep
    | some value => (items value ']' rest).map fun (xs, rest) => (.array xs, rest)
  | '\x7b' :: rest =>
    match inner with
    | none => .error .tooDeep
    | some value => (items (field value) '\x7d' rest).map fun (xs, rest) => (.object xs, rest)
  | '-' :: rest => numberRest true rest
  | 'n' :: _ => word .null "null" cs
  | 't' :: _ => word (.bool true) "true" cs
  | 'f' :: _ => word (.bool false) "false" cs
  | _ => numberRest false cs

/-- A document that may nest containers `room` deep. -/
def value : Nat → Reader Json
  | 0 => valueWith none
  | room + 1 => valueWith (some (value room))

def depthLimit : Nat := 127

/-- The document at the front of a text, and what follows it. -/
def readFront : Reader Json := value depthLimit

/-- What was taken off the front of a text of which this rest is left. -/
def frontOf (text rest : List Char) : List Char := text.take (text.length - rest.length)

/-- The document that a whole text holds, fields as written. -/
def ofString (s : String) : Except SyntaxError Json := do
  let (j, rest) ← readFront s.toList
  if (skipBlanks rest).isEmpty then .ok j else .error .malformed

end CidrTable.Json
