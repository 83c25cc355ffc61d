/- The logistic loss.
   The log loss of a binary class on raw scores. With `p` the probability of the positive class
   the gradient is `p - target` and the hessian `p · (1 - p)`; the metric is `ln (1 + exp
   (-score))` for positive targets and `ln (1 + exp score)` for the others. -/

import Boosting.Lanes.Logarithm

set_option autoImplicit false
set_option relaxedAutoImplicit false

namespace Boosting

namespace Logistic

/-- The probability of the positive class. The exponential overflows for very negative scores, which
gives probability zero. -/
def probability (k : Lanes) (score : Single) : Single :=
  1 / (1 + k.expWith .checkedNegated score)

def gradient (k : Lanes) (score target : Single) : Single :=
  probability k score - target

def gradientHessian (k : Lanes) (score target : Single) : Single × Single :=
  let p := probability k score
  (p - target, p * (1 - p))

/-- The loss itself. Past sixteen `ln (1 + exp x)` is `x` to the precision of the format. -/
def metric (k : Lanes) (score target : Single) : Single :=
  let positive := (0.5 : Single).less target
  let x := choose positive (k.neg score) score
  let softplus := k.log (1 + k.exp x)
  choose ((16 : Single).less x) x softplus

end Logistic

end Boosting
