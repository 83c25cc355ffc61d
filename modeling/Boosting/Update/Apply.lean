/- Applying updates.
   The two paths of an update. The squared path moves stored residuals and has no hessians; the
   general path needs scores and targets. Both validate the batch first and write nothing if they
   reject it. -/

import Boosting.Journal
import Boosting.Update.General
import Boosting.Update.Squared

set_option autoImplicit false
set_option relaxedAutoImplicit false

namespace Boosting

/-- How an update ends, with the metric if it was asked for, and the buffers it leaves. -/
structure UpdateResult where
  ending : Except UpdateError (Option Double)
  buffers : Buffers

inductive UpdatePath where
  | ofLoss
  | squared
  | general
deriving DecidableEq

namespace Batch

def reported (b : Batch) (metric : Double) : Option Double :=
  if b.metric then some metric else none

def reject (b : Batch) (e : UpdateError) : UpdateResult :=
  ⟨.error e, b.buffers⟩

def moveSquared (b : Batch) : UpdateResult :=
  if b.buffers.hessians.isSome then
    b.reject (.hessianUnsupported .squared)
  else
    let move := SquaredMove.run b.metric b.supply b.buffers.gradients (b.buffers.scores.getD [])
      (b.weights.getD []) (.zero false)
    ⟨.ok (b.reported move.sum),
      { b.buffers with
        gradients := move.gradients
        scores := b.buffers.scores.map fun _ => move.scores }⟩

def generalBuffers (b : Batch) (scores targets : List Single) : GeneralBuffers :=
  { scores
    targets
    gradients := b.buffers.gradients
    hessians := b.buffers.hessians.getD []
    weights := b.weights.getD [] }

def moveGeneral (b : Batch) (loss : Loss) : UpdateResult :=
  if b.buffers.hessians.isSome && !loss.hasHessian then
    b.reject (.hessianUnsupported loss)
  else
    match b.buffers.scores, b.targets with
    | none, _ => b.reject (.missingScores loss)
    | _, none => b.reject (.missingTargets loss)
    | some scores, some targets =>
      let move := GeneralMove.run loss b.metric b.supply (b.generalBuffers scores targets)
      ⟨.ok (b.reported move.metric),
        { gradients := move.buffers.gradients
          hessians := b.buffers.hessians.map fun _ => move.buffers.hessians
          scores := some move.buffers.scores }⟩

def rejection (r : UpdateResult) : List Notice :=
  match r.ending with
  | .error e => [.failure s!"update rejected: {e.message}"]
  | .ok _ => []

/-- Validates a batch, announces the update and moves the samples; without samples only a zero
metric is reported. -/
def applyWith (b : Batch) (loss : Loss) (move : Batch → UpdateResult) : Noted UpdateResult :=
  match b.validate with
  | .error e =>
    let rejected := b.reject e
    ⟨rejection rejected, rejected⟩
  | .ok () =>
    let entered := Notice.updateEntered loss.name b.samples
    if b.samples = 0 then
      ⟨[entered], ⟨.ok (b.reported (.zero false)), b.buffers⟩⟩
    else
      let moved := move b
      match moved.ending with
      | .error _ => ⟨entered :: rejection moved, moved⟩
      | .ok _ => ⟨[entered, .updateExited loss.name], moved⟩

def applySquared (b : Batch) : Noted UpdateResult :=
  b.applyWith .squared moveSquared

def applyGeneral (b : Batch) (loss : Loss) : Noted UpdateResult :=
  b.applyWith loss (·.moveGeneral loss)

def apply (b : Batch) (loss : Loss) : Noted UpdateResult :=
  match loss with
  | .squared => b.applySquared
  | _ => b.applyGeneral loss

def applyBy (b : Batch) (path : UpdatePath) (loss : Loss) : Noted UpdateResult :=
  match path with
  | .ofLoss => b.apply loss
  | .squared => b.applySquared
  | .general => b.applyGeneral loss

end Batch

end Boosting
