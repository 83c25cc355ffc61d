/- Update batches.
   An update adds to each sample the cell of the update tensor that its bin selects. A batch
   holds the bins, the tensor and the per-sample buffers; `Batch.validate` checks that they fit
   together before anything is written. -/

import Boosting.Loss.Basic
import Boosting.Packing.Cursor

set_option autoImplicit false
set_option relaxedAutoImplicit false

namespace Boosting

inductive BinSource where
  /-- A tensor without dimensions: its only cell is for every sample. -/
  | scalar
  /-- Packed bins, `items` to a word. -/
  | packed (words : List Word) (items : Nat)
deriving DecidableEq

structure Buffers where
  gradients : List Single
  hessians : Option (List Single)
  scores : Option (List Single)
deriving DecidableEq

structure Batch where
  source : BinSource
  tensor : List Single
  buffers : Buffers
  targets : Option (List Single)
  weights : Option (List Single)
  metric : Bool

inductive SampleBuffer where
  | hessians
  | scores
  | targets
  | weights
deriving DecidableEq

def SampleBuffer.text : SampleBuffer → String
  | hessians => "hessians"
  | scores => "sample_scores"
  | targets => "targets"
  | weights => "weights"

inductive UpdateError where
  | lengthMismatch (buffer : SampleBuffer) (expected got : Nat)
  | invalidItems (items : Nat)
  | packedTooShort (words required : Nat)
  | emptyTensor
  | binOutOfRange (bin length : Nat)
  | missingScores (loss : Loss)
  | missingTargets (loss : Loss)
  | hessianUnsupported (loss : Loss)
deriving DecidableEq

def UpdateError.message : UpdateError → String
  | lengthMismatch buffer expected got => s!"{buffer.text} holds {got} samples, expected {expected}"
  | invalidItems items => (Packing.Error.invalidItems items).message
  | packedTooShort words required => s!"packed bins hold {words} words, {required} required"
  | emptyTensor => "update tensor is empty"
  | binOutOfRange bin length => s!"bin {bin} is outside the update tensor of {length} cells"
  | missingScores loss => s!"{loss.name} objective needs per-sample scores"
  | missingTargets loss => s!"{loss.name} objective needs per-sample targets"
  | hessianUnsupported loss => s!"{loss.name} objective has no hessian"

namespace BinSource

def bins (source : BinSource) (samples : Nat) : List Nat :=
  match source with
  | scalar => List.replicate samples 0
  | packed words items => Packing.unpack words items samples

/-- Checks that packed bins cover the samples and stay inside a tensor. The bins are not looked at
when no field can hold one that is too large. -/
def validate (source : BinSource) (samples cells : Nat) : Except UpdateError Unit :=
  match source with
  | scalar => .ok ()
  | packed words items =>
    if !Packing.validItems items then
      .error (.invalidItems items)
    else if words.length < Packing.wordCount samples items then
      .error (.packedTooShort words.length (Packing.wordCount samples items))
    else if cells ≤ (Packing.lowMask (Packing.fieldBits items)).toNat then
      match (Packing.unpack words items samples).max? with
      | some bin => if cells ≤ bin then .error (.binOutOfRange bin cells) else .ok ()
      | none => .ok ()
    else
      .ok ()

end BinSource

namespace Batch

def samples (b : Batch) : Nat :=
  b.buffers.gradients.length

def optionalBuffers (b : Batch) : List (SampleBuffer × Option (List Single)) :=
  [(.hessians, b.buffers.hessians), (.scores, b.buffers.scores), (.targets, b.targets),
    (.weights, b.weights)]

def checkLengths (n : Nat) : List (SampleBuffer × Option (List Single)) → Except UpdateError Unit
  | [] => .ok ()
  | (_, none) :: rest => checkLengths n rest
  | (name, some buffer) :: rest =>
    if buffer.length ≠ n then .error (.lengthMismatch name n buffer.length) else checkLengths n rest

/-- Checks lengths, then, unless there are no samples, the tensor and the bins. -/
def validate (b : Batch) : Except UpdateError Unit :=
  match checkLengths b.samples b.optionalBuffers with
  | .error e => .error e
  | .ok () =>
    if b.samples = 0 then
      .ok ()
    else if b.tensor.isEmpty then
      .error .emptyTensor
    else
      b.source.validate b.samples b.tensor.length

end Batch

end Boosting
