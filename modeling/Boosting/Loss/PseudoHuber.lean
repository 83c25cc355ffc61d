/- The pseudo-Huber loss.
   A loss that is quadratic near zero and linear beyond a scale `delta`. With the residual `r`
   and `c = 1 + (r / delta)²` the gradient is `r / √c`, the hessian `1 / (c · √c)` and the metric
   `delta² · (√c - 1)`. The 32-bit constants are derived from the 64-bit `delta` once and have to
   be finite. -/

import Boosting.Binary.Decimal
import Boosting.Lanes.Basic

set_option autoImplicit false
set_option relaxedAutoImplicit false

namespace Boosting

structure PseudoHuber where
  delta : Double
  deltaInverted : Single
  deltaSquared : Single
deriving DecidableEq

inductive DeltaError where
  | invalid (delta : Double)
  | squareOverflow (delta : Double)
  | inverseOverflow (delta : Double)
deriving DecidableEq

def DeltaError.message : DeltaError → String
  | invalid delta => s!"pseudo-Huber delta must be finite and non-zero, got {delta.text}"
  | squareOverflow delta => s!"pseudo-Huber delta {delta.text} squared overflows f32"
  | inverseOverflow delta => s!"pseudo-Huber delta {delta.text} inverted overflows f32"

namespace PseudoHuber

def squareOf (delta : Double) : Single :=
  (delta * delta).convert

def inverseOf (delta : Double) : Single :=
  ((1 : Double) / delta).convert

def ofDelta (delta : Double) : Except DeltaError PseudoHuber :=
  if delta.isZero || !delta.isFinite then
    .error (.invalid delta)
  else if !(squareOf delta).isFinite then
    .error (.squareOverflow delta)
  else if !(inverseOf delta).isFinite then
    .error (.inverseOverflow delta)
  else
    .ok ⟨delta, inverseOf delta, squareOf delta⟩

/-- The residual and the root of `1 + (residual / delta)²`. -/
def scaled (h : PseudoHuber) (k : Lanes) (score target : Single) : Single × Single :=
  let residual := score - target
  let ratio := residual * h.deltaInverted
  (residual, (k.fma ratio ratio 1).sqrt)

def gradient (h : PseudoHuber) (k : Lanes) (score target : Single) : Single :=
  let (residual, root) := h.scaled k score target
  residual / root

def gradientHessian (h : PseudoHuber) (k : Lanes) (score target : Single) : Single × Single :=
  let (residual, root) := h.scaled k score target
  let square := root * root
  (residual / root, 1 / (square * root))

def metric (h : PseudoHuber) (k : Lanes) (score target : Single) : Single :=
  let (_, root) := h.scaled k score target
  h.deltaSquared * (root - 1)

end PseudoHuber

end Boosting
