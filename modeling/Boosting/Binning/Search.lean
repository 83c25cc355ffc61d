/- Binary search over the cuts.
   The search keeps a window of cut indices that may still decide the bin. Each pass compares the
   middle cut with the value and keeps the part above or below it; the last middle cut decides.
   The comparison with the middle of all cuts comes first and is not part of the passes. The
   upper bound is an integer, because it may become `-1`. -/

import Boosting.Binning.Cuts

set_option autoImplicit false
set_option relaxedAutoImplicit false

namespace Boosting

/-- The fewest cuts the search handles: the first comparison needs a cut on either side. -/
def searchMinCuts : Nat := 3

structure Window where
  low : Nat
  high : Int
deriving DecidableEq

namespace Window

def middle (w : Window) : Nat :=
  (w.low + w.high.toNat) / 2

def narrow (w : Window) (above : Bool) : Window :=
  if above then ⟨w.middle + 1, w.high⟩ else ⟨w.low, w.middle - 1⟩

def isInhabited (w : Window) : Bool :=
  w.low ≤ w.high

private theorem narrow_width_lt (w : Window) (above : Bool)
    (h : (w.narrow above).isInhabited = true) :
    ((w.narrow above).high - (w.narrow above).low).toNat < (w.high - w.low).toNat := by
  unfold isInhabited at h
  unfold narrow middle at *
  cases above <;> simp at h ⊢ <;> omega

end Window

def cutReached (cuts : Array Double) (value : Double) (index : Nat) : Bool :=
  (cuts.getD index .nan).lessEq value

/-- The windows at the start of each pass over `w`. -/
def searchPasses (cuts : Array Double) (value : Double) (w : Window) : List Window :=
  let next := w.narrow (cutReached cuts value w.middle)
  if next.isInhabited then
    w :: searchPasses cuts value next
  else
    [w]
termination_by (w.high - w.low).toNat
decreasing_by
  exact w.narrow_width_lt _ ‹_›

/-- The window left by the comparison with the middle of all cuts. -/
def firstWindow (cuts : Array Double) (value : Double) : Window :=
  let last := cuts.size - 1
  let whole : Window := ⟨0, last⟩
  whole.narrow (cutReached cuts value (last / 2))

def searchWindows (cuts : Array Double) (value : Double) : List Window :=
  searchPasses cuts value (firstWindow cuts value)

/-- The bin next to the middle cut of the last pass. -/
def binFromPasses (cuts : Array Double) (value : Double) (passes : List Window) : Nat :=
  match passes.getLast? with
  | none => 0
  | some w => if cutReached cuts value w.middle then w.middle + 2 else w.middle + 1

def searchBin (cuts : Array Double) (value : Double) : Nat :=
  if value.isNaN then 0 else binFromPasses cuts value (searchWindows cuts value)

end Boosting
