/- The result of a general update.
   A general update of an acceptable batch adds to each score the cell that the bin of the sample
   selects, and leaves for each sample the derivatives at its moved score. What a sample becomes
   depends on its weight only in its term of the metric, and on the hessian buffer not at all. -/

import Boosting.Proofs.Update.Pointwise

set_option autoImplicit false
set_option relaxedAutoImplicit false

namespace Boosting

namespace GeneralBuffers

variable {b : GeneralBuffers} (loss : Loss) (updates : List Single)

theorem map_score_movedSamples (scores : b.scores.length = b.samples)
    (supplied : updates.length = b.samples) :
    (b.movedSamples loss updates).map (·.score) = b.scores.zipWith (· + ·) updates := by
  apply List.ext_getElem?
  intro i
  rw [List.getElem?_map]
  by_cases inside : i < b.samples
  · have score : b.scores[i]? = some (b.scores.getD i default) :=
      getElem?_eq_some_getD (by omega) default
    have update : updates[i]? = some (updates.getD i default) :=
      getElem?_eq_some_getD (by omega) default
    rw [getElem?_movedSamples loss updates inside, List.getElem?_zipWith, score, update]
    rfl
  · have moved := length_movedSamples b loss updates
    rw [List.getElem?_eq_none (by omega), List.getElem?_eq_none, Option.map_none]
    rw [List.length_zipWith]
    omega

theorem map_movedSamples {β : Type} (b : GeneralBuffers) (f : MovedSample → β)
    (unweighted : ∀ k score target weight,
      f (loss.moved k score target weight) = f (loss.moved k score target none))
    (hessians weights : List Single) :
    ({ b with hessians, weights }.movedSamples loss updates).map f =
      (b.movedSamples loss updates).map f := by
  rw [movedSamples, movedSamples, List.map_map, List.map_map]
  apply List.map_congr_left
  intro i _
  simp only [Function.comp_apply, movedSample]
  rw [unweighted, unweighted _ _ _ b.weights[i]?]
  rfl

end GeneralBuffers

namespace Batch

variable {b : Batch} {loss : Loss} {scores targets : List Single}

theorem applyGeneral_result (acceptable : b.Acceptable loss true) (nonempty : b.samples ≠ 0)
    (hasScores : b.buffers.scores = some scores) (hasTargets : b.targets = some targets) :
    let samples := (b.generalBuffers scores targets).movedSamples loss b.updates
    (b.applyGeneral loss).result =
      { ending := .ok (b.reported (total (addends (samples.map (·.term)))))
        buffers :=
          { gradients := samples.map (·.gradient)
            hessians := b.buffers.hessians.map fun _ => samples.map (·.hessian)
            scores := some (samples.map (·.score)) } } := by
  intro samples
  have fits := fits_generalBuffers acceptable hasScores hasTargets
  obtain ⟨aligned, pending⟩ := supply_spec acceptable nonempty
  have run : Progress loss b.metric (b.generalBuffers scores targets) b.updates b.samples
      (.run loss b.metric b.supply (b.generalBuffers scores targets)) :=
    .run fits (length_updates acceptable) aligned pending
  obtain ⟨newScores, newGradients, newHessians, newMetric⟩ := run.finished fits
  have metric : b.reported
      (GeneralMove.run loss b.metric b.supply (b.generalBuffers scores targets)).metric =
        b.reported (total (addends (samples.map (·.term)))) := by
    rw [reported, reported]
    split
    · rename_i asked
      rw [newMetric asked]
    · rfl
  -- Without a hessian buffer the run leaves whatever it likes in its place.
  have hessians : (b.buffers.hessians.map fun _ =>
      (GeneralMove.run loss b.metric b.supply (b.generalBuffers scores targets)).buffers.hessians) =
        b.buffers.hessians.map fun _ => samples.map (·.hessian) :=
    Option.map_congr fun buffer present =>
      newHessians (generalBuffers_hessians_ne_nil acceptable nonempty present)
  rw [applyGeneral_eq acceptable nonempty hasScores hasTargets]
  simp only [metric, hessians, newScores, newGradients, samples]

end Batch

end Boosting
