/- A fast exponential on lanes.
   The argument is reduced by multiples of `ln 2`, a short polynomial is evaluated on the rest,
   and the result is scaled by a power of two. `ExpOptions` says which arguments outside the
   reliable range are mended afterwards; for the others the result is what the arithmetic gives. -/

import Boosting.Binary.Decimal
import Boosting.Lanes.Bits
import Boosting.Lanes.Polynomial

set_option autoImplicit false
set_option relaxedAutoImplicit false

namespace Boosting

structure ExpOptions where
  negate : Bool
  nan : Bool
  underflow : Bool
  overflow : Bool
deriving DecidableEq

namespace ExpOptions

def checked : ExpOptions := ⟨false, true, true, true⟩

def checkedNegated : ExpOptions := ⟨true, true, true, true⟩

end ExpOptions

namespace Exponential

def underflowPoint : Single := -(87.25 : Single)

def overflowPoint : Single := 87.25

def logTwoE : Single := 1.4426950408889634

/-- The leading part of `ln 2`, exact in few bits. -/
def lnTwoHigh : Single := 0.693359375

/-- What must be subtracted from `lnTwoHigh` to get `ln 2`, negated. -/
def lnTwoLow : Single := -(2.1219444e-4 : Single)

/-- The coefficients of `(exp x - 1 - x) / x²`: inverses of factorials. -/
def coefficients : Quintic :=
  let inverse (n : Nat) : Single := 1 / Binary.ofNat n
  ⟨inverse 2, inverse 6, inverse 24, inverse 120, inverse 720, inverse 5040⟩

def core (k : Lanes) (x : Single) : Single :=
  let turns := k.roundEven (x * logTwoE)
  let r := k.fnma turns lnTwoLow (k.fnma turns lnTwoHigh x)
  let tail := k.fma (coefficients.eval k r) (r * r) r
  (tail + 1) * turns.powerTwo

end Exponential

namespace Lanes

/-- The exponential of `x` in the variant that `o` describes. The mending steps compare the argument
as it was given, so a negated variant has its thresholds negated. -/
def expWith (k : Lanes) (o : ExpOptions) (x : Single) : Single :=
  let plain := Exponential.core k (if o.negate then k.neg x else x)
  let overflowed :=
    if o.negate then x.less (-Exponential.overflowPoint) else Exponential.overflowPoint.less x
  let underflowed :=
    if o.negate then (-Exponential.underflowPoint).less x else x.less Exponential.underflowPoint
  let capped := if o.overflow then choose overflowed (Binary.infinity false) plain else plain
  let floored := if o.underflow then choose underflowed (Binary.zero false) capped else capped
  if o.nan then choose x.isNaN x floored else floored

def exp (k : Lanes) (x : Single) : Single :=
  k.expWith .checked x

end Lanes

end Boosting
