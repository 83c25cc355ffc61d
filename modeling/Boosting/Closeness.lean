/- Closeness of buffers.
   Two buffers are close if they have the same length and no two entries differ by more than a
   tolerance. -/

import Boosting.Binary.Arithmetic
import Boosting.Binary.Decimal

set_option autoImplicit false
set_option relaxedAutoImplicit false

namespace Boosting

def defaultTolerance : Single := 1e-5

inductive Gap where
  | length (actual expected : Nat)
  | entry (index : Nat) (actual expected difference tolerance : Single)
deriving DecidableEq

def Gap.message (context : String) : Gap → String
  | length actual expected => s!"{context}: length mismatch - got {actual}, expected {expected}"
  | entry index actual expected difference tolerance =>
    s!"{context}[{index}]: {actual.text} ≠ {expected.text} (diff={difference.text}, tolerance={tolerance.text})"

def firstGap? (tolerance : Single) (index : Nat) : List Single → List Single → Option Gap
  | a :: actual, e :: expected =>
    let difference := (a - e).abs
    if difference.lessEq tolerance then
      firstGap? tolerance (index + 1) actual expected
    else
      some (.entry index a e difference tolerance)
  | _, _ => none

def gap? (tolerance : Single) (actual expected : List Single) : Option Gap :=
  if actual.length ≠ expected.length then
    some (.length actual.length expected.length)
  else
    firstGap? tolerance 0 actual expected

end Boosting
