/- The exponential function, rounded once.
   The argument is written as `k · ln 2 + r` in fixed point with many more bits than any format
   holds, the power series of `exp r` is summed there, and the result is rounded to the format. -/

import Boosting.Binary.Rounding

set_option autoImplicit false
set_option relaxedAutoImplicit false

namespace Boosting

namespace FixedPoint

def precision : Nat := 256

def unit : Nat := twoPow precision

/-- The sum of `unit / (n · 2 ^ n)` over `terms` values of `n`, starting with `n`. -/
def lnTwoSum : Nat → Nat → Nat
  | 0, _ => 0
  | terms + 1, n => unit / (n <<< n) + lnTwoSum terms (n + 1)

def lnTwo : Nat :=
  lnTwoSum precision 1

/-- The rest of the power series of the exponential after the term `term = r ^ (n - 1) / (n -
1)!`. -/
def series (r : Int) : Nat → Nat → Int → Int
  | 0, _, term => term
  | terms + 1, n, term => term + series r terms (n + 1) (term * r / (unit * n))

/-- The exponential of a fixed-point number as `m · 2 ^ e`. -/
def exp (x : Int) : Nat × Int :=
  let k := x / lnTwo
  let r := x - k * lnTwo
  ((series r 64 1 unit).toNat, k - precision)

end FixedPoint

namespace Binary

variable {f : Format}

/-- The value nearest to the exponential. A finite argument of magnitude `2 ^ f.exponent` or more is
as good as infinite. -/
def exp (x : Binary f) : Binary f :=
  match x.reading with
  | .nan => nan
  | .infinite negative => if negative then zero false else infinity false
  | .finite negative m e =>
    if (m.log2 : Int) + e ≥ f.exponent then
      if negative then zero false else infinity false
    else
      let shift := e + FixedPoint.precision
      let magnitude := if shift ≥ 0 then m <<< shift.toNat else m >>> (-shift).toNat
      let fixed := FixedPoint.exp (if negative then -(magnitude : Int) else (magnitude : Int))
      ofDyadic false fixed.1 fixed.2

end Binary

end Boosting
