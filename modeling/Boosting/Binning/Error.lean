/- Reasons to reject a binning request.
   All checks come before any cell is written, so a rejected request leaves its output as it was. -/

import Boosting.Binning.Regime

set_option autoImplicit false
set_option relaxedAutoImplicit false

namespace Boosting

structure Shape where
  rows : Nat
  columns : Nat
deriving DecidableEq

def Shape.text (s : Shape) : String :=
  s!"({s.rows}, {s.columns})"

inductive BinningBuffer where
  | featureValues
  | binsOut
  | cuts
deriving DecidableEq

def BinningBuffer.text : BinningBuffer → String
  | featureValues => "feature_values"
  | binsOut => "bins_out"
  | cuts => "cuts"

inductive MatrixRole where
  | feature
  | bin
deriving DecidableEq

def MatrixRole.text : MatrixRole → String
  | feature => "feature"
  | bin => "bin"

inductive BinningError where
  | negativeSampleCount (count : Int)
  | sampleCountTooLarge (count : Int)
  | sampleBufferOverflow (count elementBytes : Nat)
  | missingFeatureValues
  | missingOutput
  | bufferTooShort (buffer : BinningBuffer) (length required : Nat)
  | negativeCutCount (count : Int)
  | missingCuts (count : Int)
  | noRoomForMissingBin (cuts : Int)
  | cutCountTooLarge (count : Int)
  | cutBufferOverflow (cuts : Nat)
  | searchIndexOverflow (cuts : Nat)
  | searchMidpointOverflow (cuts : Nat)
  | lengthMismatch (values bins : Nat)
  | unsupportedRegime (regime : Regime) (cuts : Nat)
  | shapeMismatch (features bins : Shape)
  | cutSetCount (features cutSets : Nat)
  | nonContiguous (matrix : MatrixRole)
deriving DecidableEq

namespace BinningError

def message : BinningError → String
  | negativeSampleCount count => s!"sample count is negative: {count}"
  | sampleCountTooLarge count => s!"sample count {count} does not fit in usize"
  | sampleBufferOverflow count elementBytes =>
    s!"byte size of {count} samples of {elementBytes} bytes overflows usize"
  | missingFeatureValues => "feature values are missing"
  | missingOutput => "bin output is missing"
  | bufferTooShort buffer length required =>
    s!"{buffer.text} holds {length} elements, {required} required"
  | negativeCutCount count => s!"cut count is negative: {count}"
  | missingCuts count => s!"cut points are missing for {count} cuts"
  | noRoomForMissingBin cuts =>
    s!"{cuts} cuts leave no bin index for missing values in the output type"
  | cutCountTooLarge count => s!"cut count {count} does not fit in usize"
  | cutBufferOverflow cuts => s!"byte size of {cuts} cut points overflows usize"
  | searchIndexOverflow cuts => s!"cut count {cuts} exceeds the largest signed search index"
  | searchMidpointOverflow cuts => s!"cut count {cuts} could overflow a search midpoint"
  | lengthMismatch values bins => s!"{values} feature values but {bins} bin slots"
  | unsupportedRegime regime cuts => s!"{regime.text} cannot discretize with {cuts} cuts"
  | shapeMismatch features bins =>
    s!"feature matrix is {features.text} but bin matrix is {bins.text}"
  | cutSetCount features cutSets => s!"{features} features but {cutSets} cut sets"
  | nonContiguous matrix => s!"{matrix.text} matrix is not contiguous in standard layout"

end BinningError

end Boosting
