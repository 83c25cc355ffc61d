/- Updates of scores.
   A general update moves the scores and computes the derivatives from them afresh. Samples are
   handled in registers of the widest lanes; those that fill no register follow one by one. All
   of them draw on one supply of updates: a register collects its updates in slots, which the
   next register fills again, and the single samples go on where the registers stopped. -/

import Boosting.Segments
import Boosting.Update.Supply

set_option autoImplicit false
set_option relaxedAutoImplicit false

namespace Boosting

structure Wanted where
  hessians : Bool
  metric : Bool
  weighted : Bool
deriving DecidableEq

/-- The per-sample buffers of a general update. Hessians and weights that are not there are
empty. -/
structure GeneralBuffers where
  scores : List Single
  targets : List Single
  gradients : List Single
  hessians : List Single
  weights : List Single

namespace GeneralBuffers

def samples (b : GeneralBuffers) : Nat :=
  b.gradients.length

def body (b : GeneralBuffers) : Nat :=
  b.samples - b.samples % Lanes.widest.width

def wanted (b : GeneralBuffers) (metric : Bool) : Wanted :=
  ⟨!b.hessians.isEmpty, metric, metric && !b.weights.isEmpty⟩

end GeneralBuffers

structure GeneralMove where
  supply : UpdateSupply
  slots : List Single
  buffers : GeneralBuffers
  metric : Double

namespace GeneralMove

/-- Moves the samples of a register from `start` on by their updates. -/
def advance (k : Lanes) (loss : Loss) (wanted : Wanted) (updates : List Single) (start : Nat)
    (m : GeneralMove) : GeneralMove :=
  let b := m.buffers
  let scores := (excerpt start k.width b.scores).zipWith (· + ·) updates
  let targets := excerpt start k.width b.targets
  let derivatives := scores.zipWith (loss.gradientHessian k) targets
  let gradients :=
    if wanted.hessians then derivatives.map Prod.fst else scores.zipWith (loss.gradient k) targets
  let terms := scores.zipWith (loss.metric k) targets
  let scaled :=
    if wanted.weighted then terms.zipWith (· * ·) (excerpt start k.width b.weights) else terms
  let term : Double := if wanted.metric then (k.sum scaled).convert else .zero false
  { m with
    buffers :=
      { b with
        scores := overwrite start scores b.scores
        gradients := overwrite start gradients b.gradients
        hessians :=
          if wanted.hessians then overwrite start (derivatives.map Prod.snd) b.hessians
          else b.hessians }
    metric := m.metric + term }

def registers (loss : Loss) (wanted : Wanted) : Nat → Nat → GeneralMove → GeneralMove
  | 0, _, m => m
  | count + 1, start, m =>
    let (slots, supply) := m.supply.fill m.slots
    registers loss wanted count (start + Lanes.widest.width)
      ({ m with supply, slots }.advance .widest loss wanted slots start)

/-- Moves `count` samples one by one from `start` on, as far as there are updates. -/
def singles (loss : Loss) (wanted : Wanted) : Nat → Nat → GeneralMove → GeneralMove
  | 0, _, m => m
  | count + 1, start, m =>
    match m.supply.next with
    | (none, supply) => { m with supply }
    | (some update, supply) =>
      singles loss wanted count (start + 1)
        ({ m with supply }.advance .scalar loss wanted [update] start)

def initial (supply : UpdateSupply) (b : GeneralBuffers) : GeneralMove :=
  ⟨supply, List.replicate Lanes.widest.width (.zero false), b, .zero false⟩

def run (loss : Loss) (metric : Bool) (supply : UpdateSupply) (b : GeneralBuffers) : GeneralMove :=
  let wanted := b.wanted metric
  singles loss wanted (b.samples - b.body) b.body
    (registers loss wanted (b.body / Lanes.widest.width) 0 (initial supply b))

end GeneralMove

end Boosting
