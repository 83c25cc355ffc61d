/- Random cuts and feature values.
   Data for trying out the binning: strictly increasing cuts, and values around them of which
   some are missing and some lie on a cut. -/

import Boosting.Binary.Decimal
import Boosting.Sampling.Generator

set_option autoImplicit false
set_option relaxedAutoImplicit false

namespace Boosting

namespace Sampling

def cutsAbove : Nat → Double → Draw (List Double)
  | 0, _ => return []
  | n + 1, cut => do
    let next := cut + (← below 0.25 2)
    return next :: (← cutsAbove n next)

def sortedCuts (n : Nat) : Draw (List Double) :=
  cutsAbove n (-Binary.ofNat n)

def valueRange (cuts : List Double) : Double × Double :=
  match cuts.head?, cuts.getLast? with
  | some first, some last => (first - 2, last + 2)
  | _, _ => (-1, 1)

/-- A value: missing with a probability, else now and then one of the cuts, else from the range. -/
def featureValue (cuts : Array Double) (range : Double × Double) (missing : Double) :
    Draw Double := do
  if ← chance missing then
    return .nan
  else
    let onCut ← if cuts.isEmpty then pure false else chance 0.1
    if onCut then
      return cuts.getD (← index cuts.size) .nan
    else
      between range.1 range.2

def replicate {α : Type} (draw : Draw α) : Nat → Draw (List α)
  | 0 => return []
  | n + 1 => do
    let a ← draw
    return a :: (← replicate draw n)

def featureValues (n : Nat) (cuts : List Double) (missing : Double) : Draw (List Double) :=
  replicate (featureValue cuts.toArray (valueRange cuts) missing) n

end Sampling

end Boosting
