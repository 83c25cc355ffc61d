/- Class probabilities.
   The probability of the positive class for each logit, with the exact exponential. -/

import Boosting.Binary.Arithmetic
import Boosting.Binary.Exponential
import Boosting.Journal

set_option autoImplicit false
set_option relaxedAutoImplicit false

namespace Boosting

inductive ProbabilityError where
  | lengthMismatch (logits probabilities : Nat)
  /-- Only two classes are supported; a request for others is fatal. -/
  | unsupportedClasses (classes : Nat)
deriving DecidableEq

namespace ProbabilityError

def message : ProbabilityError → String
  | lengthMismatch logits probabilities =>
    s!"logits and probabilities differ in length: {logits} vs {probabilities}"
  | unsupportedClasses classes => s!"unsupported: softmax supports 2 classes only, got {classes}"

def notice : ProbabilityError → Notice
  | lengthMismatch logits probabilities =>
    .failure s!"softmax length mismatch: {logits} logits, {probabilities} outputs"
  | e => .failure e.message

end ProbabilityError

/-- The probability of a logit `l`, which is `exp l / (1 + exp l)`, and one where the exponential
overflows. -/
def probabilityOfLogit (logit : Double) : Double :=
  let odds := logit.exp
  if odds.isInfinite then 1 else odds / (1 + odds)

/-- Writes the probability of each logit over a buffer, for two classes. -/
def softmax (classes : Nat) (logits probabilities : List Double) :
    Noted (Except ProbabilityError Unit × List Double) :=
  let reject (e : ProbabilityError) : Noted (Except ProbabilityError Unit × List Double) :=
    ⟨[e.notice], (.error e, probabilities)⟩
  if classes ≠ 2 then
    reject (.unsupportedClasses classes)
  else if logits.length ≠ probabilities.length then
    reject (.lengthMismatch logits.length probabilities.length)
  else
    .quiet (.ok (), logits.map probabilityOfLogit)

end Boosting
