/- A fast natural logarithm on lanes.
   The argument is split into a mantissa near one and a binary exponent; a polynomial on the
   mantissa is joined with the exponent times `ln 2`. `LogOptions` says which arguments that are
   no positive normal numbers are mended afterwards. -/

import Boosting.Lanes.Exponential

set_option autoImplicit false
set_option relaxedAutoImplicit false

namespace Boosting

structure LogOptions where
  negateOutput : Bool
  nan : Bool
  negative : Bool
  /-- Give negative infinity for zeros and subnormals. -/
  zero : Bool
  positiveInfinity : Bool
deriving DecidableEq

namespace LogOptions

def checked : LogOptions := ⟨false, true, true, true, true⟩

end LogOptions

namespace Logarithm

def sqrtHalf : Single := 0.70710678

/-- The coefficients of `(ln (1 + x) - x + x² / 2) / x³`. -/
def coefficients : Octic :=
  { c0 := 3.3333331e-1
    c1 := -(2.4999994e-1 : Single)
    c2 := 2.0000715e-1
    c3 := -(1.6668058e-1 : Single)
    c4 := 1.4249323e-1
    c5 := -(1.2420141e-1 : Single)
    c6 := 1.1676999e-1
    c7 := -(1.151461e-1 : Single)
    c8 := 7.0376836e-2 }

def core (k : Lanes) (x : Single) : Single :=
  let m := x.mantissa
  let small := m.lessEq sqrtHalf
  let e := choose small x.exponent (x.exponent + 1)
  let r := choose small (m + m) m - 1
  let r2 := r * r
  let bent := k.fma e Exponential.lnTwoLow (coefficients.eval k r * (r2 * r))
  k.fma e Exponential.lnTwoHigh (bent + k.fnma r2 0.5 r)

end Logarithm

namespace Lanes

/-- The logarithm of `x` in the variant that `o` describes. With both `nan` and `positiveInfinity` a
single comparison finds the arguments that pass through: they alone are not below infinity. -/
def logWith (k : Lanes) (o : LogOptions) (x : Single) : Single :=
  let signed (y : Single) : Single := if o.negateOutput then k.neg y else y
  let infinite : Single := Binary.infinity o.negateOutput
  let plain := signed (Logarithm.core k x)
  let grounded := if o.zero then choose (x.less Binary.leastNormal) (-infinite) plain else plain
  let real := if o.negative then choose (x.less (Binary.zero false)) .nan grounded else grounded
  if o.nan && o.positiveInfinity then
    choose (x.less (Binary.infinity false)) real (signed x)
  else if o.nan then
    choose x.isNaN x real
  else if o.positiveInfinity then
    choose (x.equal (Binary.infinity false)) infinite real
  else
    real

def log (k : Lanes) (x : Single) : Single :=
  k.logWith .checked x

end Lanes

end Boosting
