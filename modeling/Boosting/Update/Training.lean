/- Training runs.
   A training run applies updates to buffers that persist. Each step brings a tensor and the bins
   of its samples, chooses a path, and may leave out buffers. A failed step leaves the run as it
   was. -/

import Boosting.Packing.Encode
import Boosting.Update.Apply

set_option autoImplicit false
set_option relaxedAutoImplicit false

namespace Boosting

structure Training where
  buffers : Buffers
  targets : Option (List Single)

inductive StepBins where
  | scalar
  | words (words : List Word) (items : Nat)
  | loose (bins : List Nat) (items : Nat)

structure Step where
  bins : StepBins
  tensor : List Single
  weights : Option (List Single)
  /-- Targets for this step in place of those of the run. -/
  targets : Option (List Single)
  metric : Bool
  path : UpdatePath
  omitHessians : Bool
  omitScores : Bool
  omitTargets : Bool

inductive StepEnding where
  | unpackable (error : Packing.Error)
  | tried (ending : Except UpdateError (Option Double))

namespace StepBins

def source : StepBins → Except Packing.Error BinSource
  | scalar => .ok .scalar
  | words ws items => .ok (.packed ws items)
  | loose bins items =>
    match Packing.pack bins items with
    | .ok ws => .ok (.packed ws items)
    | .error e => .error e

end StepBins

namespace Step

def passed {α : Type} (omitted : Bool) (buffer : Option α) : Option α :=
  if omitted then none else buffer

def batch (s : Step) (t : Training) (source : BinSource) : Batch :=
  { source
    tensor := s.tensor
    buffers :=
      { gradients := t.buffers.gradients
        hessians := passed s.omitHessians t.buffers.hessians
        scores := passed s.omitScores t.buffers.scores }
    targets := passed s.omitTargets (s.targets <|> t.targets)
    weights := s.weights
    metric := s.metric }

end Step

namespace Training

/-- The run with the buffers that a step left; a buffer that the step left out stays. -/
def absorb (t : Training) (after : Buffers) : Training :=
  { t with
    buffers :=
      { gradients := after.gradients
        hessians := after.hessians <|> t.buffers.hessians
        scores := after.scores <|> t.buffers.scores } }

def step (loss : Loss) (t : Training) (s : Step) : Noted (StepEnding × Training) :=
  match s.bins.source with
  | .error e => .quiet (.unpackable e, t)
  | .ok source =>
    ((s.batch t source).applyBy s.path loss).map fun r => (.tried r.ending, t.absorb r.buffers)

def run (loss : Loss) (t : Training) : List Step → Noted (List (StepEnding × Training))
  | [] => .quiet []
  | s :: rest => (step loss t s).bind fun done => (run loss done.2 rest).map (done :: ·)

end Training

end Boosting
