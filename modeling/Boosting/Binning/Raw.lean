/- Binning by counts.
   The entry point for callers that hold counts and optional buffers. Buffers may be longer than
   their counts; what lies past a count is neither read nor written. A count of zero samples
   succeeds before any buffer is looked at, and a count of zero cuts before the cut buffer is. -/

import Boosting.Binning.Discretize

set_option autoImplicit false
set_option relaxedAutoImplicit false

namespace Boosting

namespace Binning

structure RawRequest where
  countSamples : Int
  values : Option (List Double)
  countCuts : Int
  cuts : Option (List Double)
  bins : Option (List Int)

def leading {α : Type} (buffer : BinningBuffer) (required : Nat) (xs : List α) :
    Except BinningError (List α) :=
  if xs.length < required then
    .error (.bufferTooShort buffer xs.length required)
  else
    .ok (xs.take required)

def present {α : Type} (missing : BinningError) : Option α → Except BinningError α
  | none => .error missing
  | some a => .ok a

/-- What a request by counts writes once it has passed its checks: nothing for no samples, else the
bins of some values over the front of some cells. -/
structure RawJob where
  values : List Double
  cuts : List Double
  bins : List Int

def RawRequest.usedCuts (t : BinType) (r : RawRequest) : Except BinningError (List Double) := do
  if r.countCuts < 0 then
    throw (.negativeCutCount r.countCuts)
  else if r.countCuts = 0 then
    return []
  else
    let cuts ← present (.missingCuts r.countCuts) r.cuts
    let n ← checkCutCount t r.countCuts
    leading .cuts n cuts

def RawRequest.check (t : BinType) (r : RawRequest) : Except BinningError (Option RawJob) := do
  let n ← checkSampleCount t r.countSamples
  if n = 0 then
    return none
  else
    let values ← present .missingFeatureValues r.values
    let bins ← present .missingOutput r.bins
    let used ← leading .featureValues n values
    let _ ← leading .binsOut n bins
    let cuts ← r.usedCuts t
    return some ⟨used, cuts, bins⟩

def RawRequest.run (t : BinType) (r : RawRequest) : BinningResult (Option (List Int)) :=
  .settle r.bins <|
    match r.check t with
    | .error e => .error (.rejected e)
    | .ok none => .ok r.bins
    | .ok (some job) =>
      match cells t job.values job.cuts with
      | .error fault => .error (.malformed fault)
      | .ok after => .ok (some (after ++ job.bins.drop after.length))

/-- The status of a result; a request with malformed cuts never reports one. -/
def rawStatus? {Cells : Type} (r : BinningResult Cells) : Option Status :=
  match r.ending with
  | .error (.malformed _) => none
  | ending => some (Status.ofExcept ending)

def discretizeRaw (t : BinType) (r : RawRequest) : Noted (BinningResult (Option (List Int))) :=
  let result := r.run t
  let exit :=
    match rawStatus? result with
    | none => []
    | some status => [.rawExited status]
  ⟨.rawEntered r.countSamples r.countCuts :: result.notices ++ exit, result⟩

end Binning

end Boosting
