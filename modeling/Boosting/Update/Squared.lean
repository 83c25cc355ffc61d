/- Updates of stored residuals.
   Under squared error the stored gradients are residuals, so an update moves gradients and
   scores alike. The metric sums the squares of the moved gradients, each scaled by its weight. -/

import Boosting.Update.Supply

set_option autoImplicit false
set_option relaxedAutoImplicit false

namespace Boosting

structure SquaredMove where
  gradients : List Single
  scores : List Single
  sum : Double

namespace SquaredMove

def term (weight : Option Single) (gradient : Single) : Single :=
  match weight with
  | none => gradient * gradient
  | some w => gradient * gradient * w

def addTerm (metric : Bool) (weights : List Single) (gradient : Single) (sum : Double) : Double :=
  if metric then sum + (term weights.head? gradient).convert else sum

/-- Moves one gradient after another, as far as there are updates, and with each the score beside
it. Without scores or weights their lists are empty. -/
def run (metric : Bool) (supply : UpdateSupply) (gradients scores weights : List Single)
    (sum : Double) : SquaredMove :=
  match gradients with
  | [] => ⟨[], scores, sum⟩
  | gradient :: gradients =>
    match supply.next with
    | (none, _) => ⟨gradient :: gradients, scores, sum⟩
    | (some update, supply) =>
      let moved := gradient + update
      let rest := run metric supply gradients scores.tail weights.tail
        (addTerm metric weights moved sum)
      { gradients := moved :: rest.gradients
        scores := (scores.head?.map (· + update)).toList ++ rest.scores
        sum := rest.sum }

end SquaredMove

end Boosting
