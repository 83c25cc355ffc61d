/- Assigning bins to values.
   `discretize` writes the bin of each value into a buffer of cells. It checks the lengths and
   the counts, then the cuts, and only then writes. A request that fails its checks is rejected
   with an error; cuts that are not valid break the caller's promise and stop the request. -/

import Boosting.Binning.BinType
import Boosting.Binning.Error
import Boosting.Journal

set_option autoImplicit false
set_option relaxedAutoImplicit false

namespace Boosting

inductive BinningStop where
  | rejected (error : BinningError)
  | malformed (fault : CutFault)
deriving DecidableEq

structure BinningResult (Cells : Type) where
  ending : Except BinningStop Unit
  bins : Cells

namespace BinningResult

def notices {Cells : Type} (r : BinningResult Cells) : List Notice :=
  match r.ending with
  | .error (.rejected e) => [.failure s!"discretize rejected: {e.message}"]
  | _ => []

def noted {Cells : Type} (r : BinningResult Cells) : Noted (BinningResult Cells) :=
  ⟨r.notices, r⟩

def settle {Cells : Type} (before : Cells) : Except BinningStop Cells → BinningResult Cells
  | .ok after => ⟨.ok (), after⟩
  | .error stop => ⟨.error stop, before⟩

end BinningResult

namespace Binning

def addressSpace : Nat := Width.w64.count

/-- Checks a number of samples: it must not be negative, and the byte sizes of the values and of the
cells must be addressable. -/
def checkSampleCount (t : BinType) (count : Int) : Except BinningError Nat :=
  if count < 0 then
    .error (.negativeSampleCount count)
  else
    let n := count.toNat
    if n ≥ addressSpace then
      .error (.sampleCountTooLarge count)
    else
      match [8, t.bytes].find? (fun bytes => n * bytes ≥ addressSpace) with
      | some bytes => .error (.sampleBufferOverflow n bytes)
      | none => .ok n

/-- Checks a positive number of cuts: the type must have room for one more bin than cuts and the
missing bin, and the byte size of the cuts and all search positions must be addressable. -/
def checkCutCount (t : BinType) (count : Int) : Except BinningError Nat :=
  let n := count.toNat
  if n ≥ t.max then
    .error (.noRoomForMissingBin count)
  else if n ≥ addressSpace then
    .error (.cutCountTooLarge count)
  else if n * 8 ≥ addressSpace then
    .error (.cutBufferOverflow n)
  else if n = addressSpace - 1 then
    .error (.noRoomForMissingBin count)
  else if n > addressSpace / 2 - 1 then
    .error (.searchIndexOverflow n)
  else if n > addressSpace / 2 then
    .error (.searchMidpointOverflow n)
  else
    .ok n

def checkLengths (t : BinType) (values cuts bins : Nat) : Except BinningError Unit :=
  if values ≠ bins then
    .error (.lengthMismatch values bins)
  else
    match checkSampleCount t values with
    | .error e => .error e
    | .ok _ =>
      if cuts = 0 then
        .ok ()
      else
        match checkCutCount t cuts with
        | .error e => .error e
        | .ok _ => .ok ()

def cellsBy (regime : Regime) (t : BinType) (values cuts : List Double) :
    Except CutFault (List Int) :=
  match cutFault? cuts with
  | some fault => .error fault
  | none => .ok ((regime.bins values cuts).map t.ofBin)

def cells (t : BinType) (values cuts : List Double) : Except CutFault (List Int) :=
  cellsBy (.select cuts.length values.length) t values cuts

def conclude (cells : Except CutFault (List Int)) : Except BinningStop (List Int) :=
  match cells with
  | .ok after => .ok after
  | .error fault => .error (.malformed fault)

def discretize (t : BinType) (values cuts : List Double) (bins : List Int) :
    BinningResult (List Int) :=
  .settle bins <|
    match checkLengths t values.length cuts.length bins.length with
    | .error e => .error (.rejected e)
    | .ok () => conclude (cells t values cuts)

/-- Writes the bin of each value over the cells by a given regime, which has to support the number
of cuts. -/
def discretizeBy (regime : Regime) (t : BinType) (values cuts : List Double) (bins : List Int) :
    BinningResult (List Int) :=
  .settle bins <|
    match checkLengths t values.length cuts.length bins.length with
    | .error e => .error (.rejected e)
    | .ok () =>
      if regime.supports cuts.length then
        conclude (cellsBy regime t values cuts)
      else
        .error (.rejected (.unsupportedRegime regime cuts.length))

end Binning

end Boosting
