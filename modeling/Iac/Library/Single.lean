import Iac.Library.Text

/-! IEEE single precision numbers as exact integers: a finite number is a count of
the smallest positive one, two to the minus 149. Rounding is to nearest, ties to even. -/

namespace Binary32

open CText

inductive Single
  | finite (units : Int)
  | infinite (negative : Bool)
  | notANumber (negative : Bool)
  deriving DecidableEq, Repr

/-- The number one. -/
def one : Nat := 2 ^ 149

def nearestEven (value divisor : Nat) : Nat :=
  let quotient := value / divisor
  let remainder := value % divisor
  if 2 * remainder < divisor then quotient
  else if divisor < 2 * remainder then quotient + 1
  else quotient + quotient % 2

/-- The single precision number nearest to `value / 2 ^ scale` units. -/
def round (value : Int) (scale : Nat) : Single :=
  let spare := value.natAbs.log2 - scale - 23
  let magnitude := nearestEven value.natAbs (2 ^ (scale + spare)) * 2 ^ spare
  if 2 ^ 256 * 2 ^ 21 ≤ magnitude then .infinite (value < 0)
  else .finite (if value < 0 then -(magnitude : Int) else magnitude)

/-- The number with a given four-byte pattern. -/
def ofBits (bits : UInt32) : Single :=
  let negative : Bool := 2 ^ 31 ≤ bits.toNat
  let exponent := bits.toNat / 2 ^ 23 % 256
  let fraction := bits.toNat % 2 ^ 23
  if exponent = 255 then
    if fraction = 0 then .infinite negative else .notANumber negative
  else
    let units : Nat := if exponent = 0 then fraction else (2 ^ 23 + fraction) * 2 ^ (exponent - 1)
    .finite (if negative then -(units : Int) else units)

def ofInt (value : Int) : Single := round (value * one) 0

/-- An invalid operation gives the negative quiet NaN, as on x86-64. -/
def invalid : Single := .notANumber true

def add : Single → Single → Single
  | .notANumber negative, _ => .notANumber negative
  | _, .notANumber negative => .notANumber negative
  | .infinite left, .infinite right => if left = right then .infinite left else invalid
  | .infinite negative, .finite _ => .infinite negative
  | .finite _, .infinite negative => .infinite negative
  | .finite left, .finite right => round (left + right) 0

def mul : Single → Single → Single
  | .notANumber negative, _ => .notANumber negative
  | _, .notANumber negative => .notANumber negative
  | .infinite left, .infinite right => .infinite (left != right)
  | .infinite negative, .finite units =>
      if units = 0 then invalid else .infinite (negative != decide (units < 0))
  | .finite units, .infinite negative =>
      if units = 0 then invalid else .infinite (negative != decide (units < 0))
  | .finite left, .finite right => round (left * right) 149

/-- The cast to `int`: truncation, and the least `int` when that does not fit, as on x86-64. -/
def toInt : Single → Int
  | .finite units =>
      let whole := units.tdiv one
      if -2 ^ 31 ≤ whole ∧ whole < 2 ^ 31 then whole else -2 ^ 31
  | _ => -2 ^ 31

def point : UInt8 := 46

/-- The decimal text of a number of hundredths. -/
def hundredths (value : Nat) : Bytes :=
  decimal (value / 100) ++ [point, digit (value / 10 % 10), digit (value % 10)]

/-- What `%.2f` prints. -/
def fixed2 : Single → Bytes
  | .finite units => signed (units < 0) (hundredths (nearestEven (units.natAbs * 100) one))
  | .infinite negative => signed negative (ascii "inf")
  | .notANumber negative => signed negative (ascii "nan")

end Binary32
