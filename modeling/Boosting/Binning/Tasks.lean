/- Binning in tasks.
   A request may be split into tasks that write disjoint ranges of the cells, so the order in
   which a pool takes them does not matter. Each task selects a regime by its own number of
   values. -/

import Boosting.Binning.Discretize
import Boosting.Segments
import Boosting.Workers

set_option autoImplicit false
set_option relaxedAutoImplicit false

namespace Boosting

namespace Binning

/-- A task: the bins of some values go to the cells from `start` on. -/
structure Task where
  start : Nat
  values : List Double
  cuts : List Double
deriving DecidableEq

def Task.run (t : BinType) (task : Task) (bins : List Int) : Except CutFault (List Int) :=
  match cells t task.values task.cuts with
  | .error fault => .error fault
  | .ok piece => .ok (overwrite task.start piece bins)

/-- Runs tasks one after another; the first one with malformed cuts stops the request. -/
def runTasks (t : BinType) (tasks : List Task) (bins : List Int) : BinningResult (List Int) :=
  match tasks with
  | [] => ⟨.ok (), bins⟩
  | task :: rest =>
    match task.run t bins with
    | .error fault => ⟨.error (.malformed fault), bins⟩
    | .ok after => runTasks t rest after

/-- Runs the tasks of a request in the order in which its workers take them. -/
def dispatch (t : BinType) (workers : Workers) (order : List Task → List Task) (tasks : List Task)
    (bins : List Int) : BinningResult (List Int) :=
  runTasks t (if workers.parallelism.isParallel then order tasks else tasks) bins

/-- Values per task: all of them without workers, else an equal share for a few tasks per thread,
but no fewer than asked for. -/
def chunkLength (values minChunk : Nat) (workers : Workers) : Nat :=
  let least := max minChunk 1
  if workers.parallelism.isParallel then
    max ((values + (workers.threads * 4 - 1)) / (workers.threads * 4)) least
  else
    max values least

def chunkTasks (size : Nat) (values cuts : List Double) : List Task :=
  (segments size values).zipIdx.map (fun (piece, i) => ⟨i * size, piece, cuts⟩)

def discretizeInTasks (t : BinType) (values cuts : List Double) (bins : List Int)
    (workers : Workers) (minChunk : Nat) (order : List Task → List Task) :
    BinningResult (List Int) :=
  match checkLengths t values.length cuts.length bins.length with
  | .error e => ⟨.error (.rejected e), bins⟩
  | .ok () =>
    dispatch t workers order
      (chunkTasks (chunkLength values.length minChunk workers) values cuts) bins

end Binning

end Boosting
