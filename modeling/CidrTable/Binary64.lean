/-! Binary64 numbers as exact magnitudes.

Every finite binary64 number is a whole multiple of the least positive one, so a
magnitude is a natural number of units of 2^-1074. `Precision.round` takes a ratio to
the nearest magnitude a format can hold, ties to even; arithmetic is exact arithmetic
followed by that one rounding. -/
namespace CidrTable

/-- A binary64 number: a signed count of units of 2^-1074, an infinity, or not a number. -/
inductive Binary64 where
  | finite (negative : Bool) (units : Nat)
  | infinite (negative : Bool)
  | nan
  deriving DecidableEq

namespace Binary64

/-- The exponent of the unit. -/
def unitExponent : Nat := 1074

/-- The units in one. -/
def one : Nat := 1 <<< unitExponent

/-- What a binary format can hold: significant bits, and the binary logarithms, in units,
of its least step and of the first magnitude past its end. -/
structure Precision where
  bits : Nat
  step : Nat
  top : Nat

/-- Sixty-four bits: 53 of them significant. -/
def double : Precision := ⟨53, 0, 2098⟩

/-- Thirty-two bits: 24 of them significant. -/
def single : Precision := ⟨24, 925, 1202⟩

/-! ### Rounding -/

/-- The whole number nearest to a ratio, a tie going to the even one. -/
def roundRatio (num den : Nat) : Nat :=
  let q := num / den
  match compare (2 * (num % den)) den with
  | .lt => q
  | .gt => q + 1
  | .eq => q + q % 2

/-- The magnitude a format holds for a ratio of units. -/
def Precision.round (p : Precision) (num den : Nat) : Nat :=
  let steps := num / (den <<< p.step)
  let shift := p.step + (steps.log2 + 1 - p.bits)
  roundRatio num (den <<< shift) <<< shift

/-- The number a format holds for a ratio of units; past its end that is an infinity. -/
def Precision.ofRatio (p : Precision) (negative : Bool) (num den : Nat) : Binary64 :=
  let units := p.round num den
  if units < 1 <<< p.top then .finite negative units else .infinite negative

/-- The number nearest to an integer. -/
def ofInt (n : Int) : Binary64 := double.ofRatio (n < 0) (n.natAbs * one) 1

/-- The number nearest to `digits * 10 ^ exponent`. Magnitudes past 10^400 on either side
are beyond every format here, which spares their powers. -/
def Precision.ofDecimal (p : Precision) (negative : Bool) (digits : Nat) (exponent : Int) :
    Binary64 :=
  let lead := exponent + (Nat.toDigits 10 digits).length
  if digits = 0 ∨ lead < -400 then .finite negative 0
  else if 400 < lead then .infinite negative
  else p.ofRatio negative (digits * Nat.pow 10 exponent.toNat * one)
    (Nat.pow 10 (-exponent).toNat)

/-! ### Arithmetic on magnitudes -/

def mul (a b : Nat) : Nat := double.round (a * b) one

def div (a b : Nat) : Nat := double.round (a * one) b

/-- The magnitude of a power of ten. -/
def tenTo (k : Nat) : Nat := double.round (Nat.pow 10 k * one) 1

/-- Whether a magnitude is past the end of the format. -/
def overflows (units : Nat) : Bool := decide (1 <<< double.top ≤ units)

def isFinite : Binary64 → Bool
  | finite .. => true
  | _ => false

/-- The largest word of 64 bits. -/
def wordLimit : Nat := 0xFFFFFFFFFFFFFFFF

/-- The whole part held between zero and the largest word; not a number counts as zero. -/
def toWord64 : Binary64 → Nat
  | finite false units => min (units / one) wordLimit
  | infinite false => wordLimit
  | _ => 0

end Binary64

end CidrTable
