import Mathlib.Data.Int.Log
import Mathlib.Data.Rat.Floor

/-! Decimal arithmetic in a context: results are rounded to a number of significant digits, and
quantized to whole numbers. -/

namespace Decimal

/-- To the nearest integer, and from halfway to the even one. -/
def roundHalfEven (x : ℚ) : ℤ :=
  let fraction := x - ⌊x⌋
  if fraction < 1 / 2 then ⌊x⌋
  else if 1 / 2 < fraction then ⌊x⌋ + 1
  else if ⌊x⌋ % 2 = 0 then ⌊x⌋
  else ⌊x⌋ + 1

/-- To the nearest integer, and from halfway away from zero. -/
def roundHalfUp (x : ℚ) : ℤ := if x < 0 then -⌊-x + 1 / 2⌋ else ⌊x + 1 / 2⌋

/-- The result of an operation in a context of `precision` digits. -/
def inContext (precision : ℕ) (x : ℚ) : ℚ :=
  if x = 0 then 0
  else
    let exponent := Int.log 10 |x| + 1 - precision
    roundHalfEven (x / 10 ^ exponent) * 10 ^ exponent

end Decimal
