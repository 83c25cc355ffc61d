/- Regimes.
   Four methods assign bins. Which one is used depends on the number of cuts and, because a
   padded table has to pay for its construction, on the number of values. -/

import Boosting.Binning.Search
import Boosting.Binning.Table

set_option autoImplicit false
set_option relaxedAutoImplicit false

namespace Boosting

def linearMaxCuts : Nat := 6

/-- A table is built only for at least this many values per slot. -/
def amortizeFactor : Nat := 4

inductive Regime where
  | missing
  | linear
  | padded (slots : Nat)
  | search
deriving DecidableEq

namespace Regime

def text : Regime → String
  | missing => "Missing"
  | linear => "Linear"
  | padded slots => s!"Padded({slots})"
  | search => "Search"

def select (cuts values : Nat) : Regime :=
  if cuts = 0 then
    missing
  else if cuts ≤ linearMaxCuts then
    linear
  else
    match tableSizeFor? cuts with
    | some size => if values ≥ amortizeFactor * size then padded size else search
    | none => search

/-- Whether a regime gives the right bins for a number of cuts. -/
def supports : Regime → Nat → Bool
  | missing, cuts => cuts == 0
  | linear, cuts => 1 ≤ cuts && cuts ≤ linearMaxCuts
  | padded slots, cuts => tableSizes.contains slots && cuts ≤ slots - 2
  | search, cuts => cuts ≥ searchMinCuts

/-- The bin of a value by counting: every cut that does not exceed the value adds one. -/
def countedBin (cuts : List Double) (value : Double) : Nat :=
  let bin := cuts.foldl (fun bin cut => bin + if cut.lessEq value then 1 else 0) 1
  if value.isNaN then 0 else bin

def bins (regime : Regime) (values cuts : List Double) : List Nat :=
  match regime with
  | missing => values.map (fun value => if value.isNaN then 0 else 1)
  | linear => values.map (countedBin cuts)
  | padded slots =>
    let table := Table.ofCuts slots cuts
    values.map table.bin
  | search =>
    let sorted := cuts.toArray
    values.map (searchBin sorted)

end Regime

end Boosting
