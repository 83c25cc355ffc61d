/- Cut lists and the bins they define.
   Cuts divide the numbers into bins: bin `0` is for missing values, and any other value lies in
   the bin numbered one more than the cuts that do not exceed it (`referenceBin`). Cuts are valid
   if they are finite and strictly increasing; `cutFault?` names the first place where they are
   not. -/

import Boosting.Binary.Decimal

set_option autoImplicit false
set_option relaxedAutoImplicit false

namespace Boosting

/-- The bin of a value, by counting the cuts at or below it. -/
def referenceBin (value : Double) (cuts : List Double) : Nat :=
  if value.isNaN then 0 else 1 + cuts.countP (fun cut => cut.lessEq value)

def referenceBins (values cuts : List Double) : List Nat :=
  values.map (fun value => referenceBin value cuts)

structure ValidCuts (cuts : List Double) : Prop where
  finite : ∀ cut ∈ cuts, cut.isFinite = true
  increasing : cuts.Pairwise (fun a b => a.less b = true)

inductive CutFault where
  /-- The cut at this index is infinite or `nan`. -/
  | notFinite (index : Nat) (cut : Double)
  /-- The cut at this index is not below its successor. -/
  | notIncreasing (index : Nat) (left right : Double)
deriving DecidableEq

namespace CutFault

def message : CutFault → String
  | notFinite index cut => s!"cut {index} is not finite: {cut.text}"
  | notIncreasing index left right =>
    s!"cuts not strictly increasing at {index}: {left.text} >= {right.text}"

end CutFault

/-- The first cut that is not finite, where the list starts at `index`. -/
def notFinite? (index : Nat) : List Double → Option CutFault
  | [] => none
  | cut :: cuts =>
    if cut.isFinite then notFinite? (index + 1) cuts else some (.notFinite index cut)

def notIncreasing? (index : Nat) : List Double → Option CutFault
  | left :: right :: cuts =>
    if left.less right then
      notIncreasing? (index + 1) (right :: cuts)
    else
      some (.notIncreasing index left right)
  | _ => none

/-- What is wrong with a cut list: any cut that is not finite comes before any disorder. -/
def cutFault? (cuts : List Double) : Option CutFault :=
  match notFinite? 0 cuts with
  | some fault => some fault
  | none => notIncreasing? 0 cuts

end Boosting
