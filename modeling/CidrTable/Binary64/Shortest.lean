import CidrTable.Binary64
import CidrTable.Text.Digits

/-! The shortest decimal of a binary64 number.

The reals that round to a number form an interval around it. `shortest` looks for the
coarsest power of ten that has a multiple in the interval, and takes the multiple
nearest to the number. `Layout` then says how such a decimal is written. -/
namespace CidrTable.Binary64

/-- `digits * 10 ^ exponent`. -/
structure Decimal where
  digits : Nat
  exponent : Int
  deriving DecidableEq

/-- Which of two equally near decimals is taken. -/
inductive Tie where
  | even
  | up
  deriving DecidableEq

/-! ### Choosing the digits -/

/-- Four times the ends of the interval that rounds to a magnitude, and whether it is closed. -/
def interval (units : Nat) : Nat × Nat × Bool :=
  let shift := units.log2 + 1 - double.bits
  let gap := 1 <<< shift
  let significand := units / gap
  let below := if significand = 1 <<< (double.bits - 1) ∧ 0 < shift then gap else 2 * gap
  (4 * units - below, 4 * units + 2 * gap, significand % 2 == 0)

/-- The exponent of the leading decimal digit of a positive magnitude. -/
def leadingExponent (units : Nat) : Int :=
  (Nat.toDigits 10 (units * Nat.pow 10 400 / one)).length - 401

/-- The multiple of `10 ^ exponent` beside a magnitude that reads back to it, if there is one. -/
def onGrid (tie : Tie) (units : Nat) (exponent : Int) : Option Decimal :=
  let scale := Nat.pow 10 exponent.toNat * one
  let share := Nat.pow 10 (-exponent).toNat
  let (low, high, closed) := interval units
  let readsBack (d : Nat) : Bool :=
    let x := 4 * d * scale
    (low * share < x || (closed && low * share == x)) &&
      (x < high * share || (closed && x == high * share))
  let d := units * share / scale
  let nearer :=
    match compare (2 * units * share) ((2 * d + 1) * scale), tie with
    | .lt, _ => d
    | .gt, _ => d + 1
    | .eq, .even => d + d % 2
    | .eq, .up => d + 1
  match readsBack d, readsBack (d + 1) with
  | true, true => some ⟨nearer, exponent⟩
  | true, false => some ⟨d, exponent⟩
  | false, true => some ⟨d + 1, exponent⟩
  | false, false => none

/-- Moves trailing zeros from the digits to the exponent. -/
def Decimal.strip (d : Decimal) : Decimal :=
  if h : d.digits ≠ 0 ∧ d.digits % 10 = 0 then strip ⟨d.digits / 10, d.exponent + 1⟩ else d
termination_by d.digits
decreasing_by omega

/-- The shortest decimal that reads back to a positive magnitude. Seventeen digits always
do; the exact value closes the search. -/
def shortest (tie : Tie) (units : Nat) : Decimal :=
  let lead := leadingExponent units
  ((List.range 17).findSome? fun n => onGrid tie units (lead - (n : Nat))).getD
    ⟨units * Nat.pow 5 unitExponent, -unitExponent⟩ |>.strip

/-! ### Writing them -/

/-- How decimals are written: positionally where the leading digit's exponent lies from
`least` to below `bound`, else with an exponent, whose plus sign is written or not. -/
structure Layout where
  least : Int
  bound : Int
  plus : Bool
  tie : Tie

/-- A positive magnitude in a layout. -/
def Layout.magnitude (l : Layout) (units : Nat) : List Char :=
  let d := shortest l.tie units
  let ds := Text.decimal d.digits
  let lead := d.exponent + ds.length - 1
  if l.least ≤ lead ∧ lead < l.bound then
    if lead < 0 then '0' :: '.' :: List.replicate (-lead - 1).toNat '0' ++ ds
    else
      let places := lead.toNat + 1
      let shown := ds ++ List.replicate (places - ds.length) '0'
      let fraction := shown.drop places
      shown.take places ++ '.' :: (if fraction.isEmpty then ['0'] else fraction)
  else
    let fraction := ds.drop 1
    ds.take 1 ++ (if fraction.isEmpty then [] else '.' :: fraction) ++ 'e' ::
      ((if lead < 0 then ['-'] else if l.plus then ['+'] else []) ++ Text.decimal lead.natAbs)

def Layout.write (l : Layout) : Binary64 → List Char
  | .finite negative units =>
    (if negative then ['-'] else []) ++ if units = 0 then ['0', '.', '0'] else l.magnitude units
  | .infinite negative => (if negative then ['-'] else []) ++ ['i', 'n', 'f']
  | .nan => ['N', 'a', 'N']

end CidrTable.Binary64
