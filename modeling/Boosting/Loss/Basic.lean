/- Losses.
   A loss gives for each sample, from its score and its target, the derivatives that the next
   training round fits and a term of the metric. Every formula runs on both kinds of lanes. -/

import Boosting.Loss.Logistic
import Boosting.Loss.PseudoHuber

set_option autoImplicit false
set_option relaxedAutoImplicit false

namespace Boosting

inductive Loss where
  | squared
  | pseudoHuber (huber : PseudoHuber)
  | logistic
deriving DecidableEq

namespace Loss

def name : Loss → String
  | squared => "squared"
  | pseudoHuber _ => "pseudo_huber"
  | logistic => "logistic"

/-- Whether the loss has second derivatives of its own. -/
def hasHessian : Loss → Bool
  | squared => false
  | pseudoHuber _ => true
  | logistic => true

def needsScores : Loss → Bool
  | squared => false
  | pseudoHuber _ => true
  | logistic => true

def gradient : Loss → Lanes → Single → Single → Single
  | squared, _, score, target => score - target
  | pseudoHuber h, k, score, target => h.gradient k score target
  | logistic, k, score, target => Logistic.gradient k score target

/-- The first and second derivative; a loss without a hessian gives one. -/
def gradientHessian : Loss → Lanes → Single → Single → Single × Single
  | squared, _, score, target => (score - target, 1)
  | pseudoHuber h, k, score, target => h.gradientHessian k score target
  | logistic, k, score, target => Logistic.gradientHessian k score target

def metric : Loss → Lanes → Single → Single → Single
  | squared, _, score, target =>
    let residual := score - target
    residual * residual
  | pseudoHuber h, k, score, target => h.metric k score target
  | logistic, k, score, target => Logistic.metric k score target

end Loss

end Boosting
