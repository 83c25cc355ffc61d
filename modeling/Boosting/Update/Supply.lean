/- Supplies of updates.
   The kernels of an update draw the updates of their samples one at a time. A supply gives the
   same update for every sample, or the cells that packed bins select. -/

import Boosting.Update.Batch

set_option autoImplicit false
set_option relaxedAutoImplicit false

namespace Boosting

/-- Updates that have not been drawn. -/
inductive UpdateSupply where
  /-- One update, so many times. -/
  | constant (update : Single) (left : Nat)
  /-- The cells of a tensor that the items of a cursor select. -/
  | selected (tensor : List Single) (bins : Packing.Cursor)
deriving DecidableEq

namespace UpdateSupply

def next : UpdateSupply → Option Single × UpdateSupply
  | constant update 0 => (none, constant update 0)
  | constant update (left + 1) => (some update, constant update left)
  | selected tensor bins =>
    match bins.next with
    | (none, after) => (none, selected tensor after)
    | (some bin, after) => (some (tensor.getD bin default), selected tensor after)

/-- Fills slots with the next updates. A slot is taken up before its update is drawn, so nothing is
drawn for a slot that is not there; slots that get no update keep theirs. -/
def fill : List Single → UpdateSupply → List Single × UpdateSupply
  | [], supply => ([], supply)
  | slot :: slots, supply =>
    match supply.next with
    | (none, after) => (slot :: slots, after)
    | (some update, after) =>
      let (filled, last) := fill slots after
      (update :: filled, last)

end UpdateSupply

def BinSource.supply (source : BinSource) (tensor : List Single) (samples : Nat) : UpdateSupply :=
  match source with
  | scalar => .constant (tensor.getD 0 default) samples
  | packed words items => .selected tensor (.start words items samples)

def Batch.supply (b : Batch) : UpdateSupply :=
  b.source.supply b.tensor b.samples

end Boosting
