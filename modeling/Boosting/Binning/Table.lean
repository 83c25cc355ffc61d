/- Searching a padded table.
   The cuts are laid out behind a slot of negative infinity in a table whose length is a power of
   two, and the slots after them hold `nan`. A value descends through the table in steps that
   halve, so every descent probes the same number of slots. Padding never compares, which keeps
   values above the last cut out of it, and `nan` passes no slot at all. -/

import Boosting.Binning.Cuts
import Boosting.Power

set_option autoImplicit false
set_option relaxedAutoImplicit false

namespace Boosting

def tableSizes : List Nat :=
  [16, 32, 64, 128, 256, 512, 1024]

def maxTableSize : Nat := 1024

def tableSizeFor? (cuts : Nat) : Option Nat :=
  tableSizes.find? (fun size => cuts ≤ size - 2)

structure Table where
  slots : Array Double
  depth : Nat

namespace Table

def ofCuts (size : Nat) (cuts : List Double) : Table :=
  let padding : List Double := List.replicate (size - 1 - cuts.length) .nan
  { slots := (Binary.infinity true :: cuts ++ padding).toArray
    depth := size.log2 }

/-- How far a value has descended, and which slots it has probed. -/
structure Descent where
  index : Nat
  probes : List Nat
deriving DecidableEq

/-- The descent of a value from `index` on, in steps that halve down to one. -/
def descend (slots : Array Double) (value : Double) : Nat → Nat → Descent
  | 0, index => ⟨index, []⟩
  | depth + 1, index =>
    let step := twoPow depth
    let probe := index + step - 1
    let passed := (slots.getD probe .nan).lessEq value
    let rest := descend slots value depth (if passed then index + step else index)
    ⟨rest.index, probe :: rest.probes⟩

def walk (table : Table) (value : Double) : Descent :=
  descend table.slots value table.depth 0

def bin (table : Table) (value : Double) : Nat :=
  (table.walk value).index

end Table

end Boosting
