/- What an update leaves, by any path.
   Both paths move the scores alike, keep the length of every buffer, and leave alone the
   hessians of a loss that has none. Without samples nothing changes. -/

import Boosting.Proofs.Update.Requests

set_option autoImplicit false
set_option relaxedAutoImplicit false

namespace Boosting

namespace Batch

variable {b : Batch} {path : UpdatePath} {loss : Loss}

private theorem applyBy_of_empty
    (acceptable : b.Acceptable (path.lossOf loss) (path.needsScores loss)) (empty : b.samples = 0) :
    (b.applyBy path loss).result = ⟨.ok (b.reported (.zero false)), b.buffers⟩ := by
  rcases squared_or_general path loss with ⟨-, lossOf, isSquared⟩ | ⟨-, lossOf, isGeneral⟩
  · rw [lossOf] at acceptable
    rw [isSquared]
    exact applyWith_of_empty acceptable empty _
  · rw [lossOf] at acceptable
    rw [isGeneral]
    exact applyWith_of_empty acceptable empty _

theorem applyBy_scores (acceptable : b.Acceptable (path.lossOf loss) (path.needsScores loss)) :
    (b.applyBy path loss).result.buffers.scores =
      b.buffers.scores.map fun scores => scores.zipWith (· + ·) b.updates := by
  by_cases empty : b.samples = 0
  · rw [applyBy_of_empty acceptable empty]
    cases present : b.buffers.scores with
    | none => rfl
    | some scores =>
      have length := acceptable.length_scores present
      rw [empty] at length
      rw [List.eq_nil_of_length_eq_zero length]
      rfl
  · rcases squared_or_general path loss with
      ⟨needsScores, lossOf, isSquared⟩ | ⟨needsScores, lossOf, isGeneral⟩
    · rw [needsScores, lossOf] at acceptable
      rw [isSquared, applySquared_result acceptable empty]
    · rw [needsScores, lossOf] at acceptable
      obtain ⟨scores, targets, hasScores, hasTargets⟩ := acceptable.exists_scores empty
      have fits := fits_generalBuffers acceptable hasScores hasTargets
      rw [isGeneral, applyGeneral_result acceptable empty hasScores hasTargets, hasScores]
      exact congrArg some (GeneralBuffers.map_score_movedSamples loss b.updates fits.scores
        (length_updates acceptable))

theorem applyBy_hessians_of_not
    (acceptable : b.Acceptable (path.lossOf loss) (path.needsScores loss))
    (without : (path.lossOf loss).hasHessian = false) :
    (b.applyBy path loss).result.buffers.hessians = b.buffers.hessians := by
  by_cases empty : b.samples = 0
  · rw [applyBy_of_empty acceptable empty]
  · have noHessians : b.buffers.hessians = none := by
      by_contra requested
      have hessian := (acceptable.complete empty).hessians requested
      rw [without] at hessian
      cases hessian
    rw [noHessians]
    exact (applyBy_hessians b path loss).mpr noHessians

theorem applyBy_gradients (acceptable : b.Acceptable (path.lossOf loss) (path.needsScores loss))
    (general : path.needsScores loss = true) {i : Nat} (inside : i < b.samples) :
    ∃ scores score targets target,
      (b.applyBy path loss).result.buffers.scores = some scores ∧ scores[i]? = some score ∧
        b.targets = some targets ∧ targets[i]? = some target ∧
        (b.applyBy path loss).result.buffers.gradients[i]? =
          some (loss.gradient (if i < b.samples - b.samples % 8 then .packed else .scalar) score
            target) := by
  rcases squared_or_general path loss with
    ⟨needsScores, -, -⟩ | ⟨needsScores, lossOf, isGeneral⟩
  · rw [needsScores] at general
    cases general
  · have nonempty : b.samples ≠ 0 := by omega
    rw [needsScores, lossOf] at acceptable
    obtain ⟨scores, targets, hasScores, hasTargets⟩ := acceptable.exists_scores nonempty
    have fits := fits_generalBuffers acceptable hasScores hasTargets
    have target : targets[i]? = some (targets.getD i default) := fits.getElem?_targets inside
    have moved := GeneralBuffers.getElem?_movedSamples loss b.updates
      (b := b.generalBuffers scores targets) inside
    rw [isGeneral, applyGeneral_result acceptable nonempty hasScores hasTargets]
    refine ⟨_, ((b.generalBuffers scores targets).movedSample loss b.updates i).score, targets, _,
      rfl, ?_, hasTargets, target, ?_⟩
    · rw [List.getElem?_map, moved, Option.map_some]
    · rw [List.getElem?_map, moved, Option.map_some]
      rfl

theorem applyBy_samples (b : Batch) (path : UpdatePath) (loss : Loss) :
    (b.applyBy path loss).result.buffers.gradients.length = b.samples := by
  rcases accepted_or_rejected b path loss with ⟨acceptable, -⟩ | ⟨e, -, rejected⟩
  · by_cases empty : b.samples = 0
    · rw [applyBy_of_empty acceptable empty]
      rfl
    · rcases squared_or_general path loss with
        ⟨needsScores, lossOf, isSquared⟩ | ⟨needsScores, lossOf, isGeneral⟩
      · rw [needsScores, lossOf] at acceptable
        rw [isSquared, applySquared_result acceptable empty, List.length_zipWith,
          length_updates acceptable]
        exact Nat.min_self _
      · rw [needsScores, lossOf] at acceptable
        obtain ⟨scores, targets, hasScores, hasTargets⟩ := acceptable.exists_scores empty
        rw [isGeneral, applyGeneral_result acceptable empty hasScores hasTargets, List.length_map]
        exact GeneralBuffers.length_movedSamples _ _ _
  · rw [rejected]
    rfl

theorem applyBy_lengths (acceptable : b.Acceptable (path.lossOf loss) (path.needsScores loss)) :
    (∀ xs ∈ (b.applyBy path loss).result.buffers.hessians, xs.length = b.samples) ∧
      ∀ xs ∈ (b.applyBy path loss).result.buffers.scores, xs.length = b.samples := by
  obtain ⟨hessians, scores, -⟩ := (b.forall_optionalBuffers_iff _).mp acceptable.lengths
  have supplied := length_updates acceptable
  constructor
  · by_cases empty : b.samples = 0
    · rw [applyBy_of_empty acceptable empty]
      exact hessians
    · rcases squared_or_general path loss with
        ⟨needsScores, lossOf, isSquared⟩ | ⟨needsScores, lossOf, isGeneral⟩
      · rw [needsScores, lossOf] at acceptable
        rw [isSquared, applySquared_result acceptable empty]
        exact hessians
      · rw [needsScores, lossOf] at acceptable
        obtain ⟨scores, targets, hasScores, hasTargets⟩ := acceptable.exists_scores empty
        rw [isGeneral, applyGeneral_result acceptable empty hasScores hasTargets]
        intro xs member
        obtain ⟨_, -, rfl⟩ := Option.mem_map.mp member
        rw [List.length_map]
        exact GeneralBuffers.length_movedSamples _ _ _
  · rw [applyBy_scores acceptable]
    intro xs member
    obtain ⟨before, present, rfl⟩ := Option.mem_map.mp member
    rw [List.length_zipWith, scores before present, supplied, Nat.min_self]

end Batch

end Boosting
