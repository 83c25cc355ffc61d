/- What an update is asked for.
   A batch asks for hessians by a buffer for them, and for the metric by a flag; weights scale
   the metric only. None of these requests shows in what the update does to gradients and scores,
   and each is answered in the same way whatever the others are. -/

import Boosting.Proofs.Update.Residuals
import Boosting.Proofs.Update.Scores
import Boosting.Update.Training

set_option autoImplicit false
set_option relaxedAutoImplicit false

namespace Boosting

namespace Batch

/-- Batches that differ at most in what they ask for: in the hessian buffer, the weights and the
metric. -/
structure SameInputs (a b : Batch) : Prop where
  source : a.source = b.source
  tensor : a.tensor = b.tensor
  gradients : a.buffers.gradients = b.buffers.gradients
  scores : a.buffers.scores = b.buffers.scores
  targets : a.targets = b.targets

/-- The results of two batches agree in all that both asked for. -/
structure Agree (a b : Batch) (r s : UpdateResult) : Prop where
  gradients : r.buffers.gradients = s.buffers.gradients
  scores : r.buffers.scores = s.buffers.scores
  hessians : a.buffers.hessians ≠ none → b.buffers.hessians ≠ none →
    r.buffers.hessians = s.buffers.hessians
  metric : a.weights = b.weights → a.metric = b.metric → r.ending = s.ending

variable {a b : Batch} {loss : Loss}

namespace SameInputs

private theorem samples (sameInputs : a.SameInputs b) : a.samples = b.samples :=
  congrArg List.length sameInputs.gradients

private theorem updates (sameInputs : a.SameInputs b) : a.updates = b.updates := by
  rw [Batch.updates, Batch.updates, sameInputs.source, sameInputs.tensor, sameInputs.samples]

end SameInputs

private theorem reported_congr (asked : a.metric = b.metric) (metric : Double) :
    a.reported metric = b.reported metric := by
  rw [reported, reported, asked]

private theorem hessians_eq_of_empty {needsScores : Bool}
    (acceptable : b.Acceptable loss needsScores)
    (empty : b.samples = 0) (requested : b.buffers.hessians ≠ none) :
    b.buffers.hessians = some [] := by
  obtain ⟨ofHessians, -⟩ := (b.forall_optionalBuffers_iff _).mp acceptable.lengths
  obtain ⟨buffer, present⟩ := Option.ne_none_iff_exists'.mp requested
  have length := ofHessians buffer present
  rw [present, List.eq_nil_of_length_eq_zero (length.trans empty)]

theorem applyWith_of_empty {needsScores : Bool} (acceptable : b.Acceptable loss needsScores)
    (empty : b.samples = 0) (move : Batch → UpdateResult) :
    (b.applyWith loss move).result = ⟨.ok (b.reported (.zero false)), b.buffers⟩ := by
  rw [applyWith_result, acceptable.validate_eq_ok]
  exact if_pos empty

private theorem agree_of_empty {needsScores : Bool} (sameInputs : a.SameInputs b)
    (acceptableA : a.Acceptable loss needsScores) (acceptableB : b.Acceptable loss needsScores)
    (empty : a.samples = 0) (move : Batch → UpdateResult) :
    a.Agree b (a.applyWith loss move).result (b.applyWith loss move).result := by
  have emptyB : b.samples = 0 := sameInputs.samples.symm.trans empty
  rw [applyWith_of_empty acceptableA empty, applyWith_of_empty acceptableB emptyB]
  refine ⟨sameInputs.gradients, sameInputs.scores, ?_, ?_⟩
  · intro requestedA requestedB
    rw [hessians_eq_of_empty acceptableA empty requestedA,
      hessians_eq_of_empty acceptableB emptyB requestedB]
  · intro _ asked
    rw [reported_congr asked]

private theorem applySquared_agree (sameInputs : a.SameInputs b)
    (acceptableA : a.Acceptable .squared false) (acceptableB : b.Acceptable .squared false) :
    a.Agree b a.applySquared.result b.applySquared.result := by
  by_cases empty : a.samples = 0
  · exact agree_of_empty sameInputs acceptableA acceptableB empty _
  · have nonempty : b.samples ≠ 0 := fun zero => empty (sameInputs.samples.trans zero)
    rw [applySquared_result acceptableA empty, applySquared_result acceptableB nonempty]
    refine ⟨?_, ?_, ?_, ?_⟩
    · simp only [sameInputs.gradients, sameInputs.updates]
    · simp only [sameInputs.scores, sameInputs.updates]
    · intro requested
      cases (acceptableA.complete empty).hessians requested
    · intro weights asked
      simp only [sameInputs.gradients, sameInputs.updates, weights, reported_congr asked]

private theorem applyGeneral_agree (sameInputs : a.SameInputs b)
    (acceptableA : a.Acceptable loss true) (acceptableB : b.Acceptable loss true) :
    a.Agree b (a.applyGeneral loss).result (b.applyGeneral loss).result := by
  by_cases empty : a.samples = 0
  · exact agree_of_empty sameInputs acceptableA acceptableB empty _
  · have nonempty : b.samples ≠ 0 := fun zero => empty (sameInputs.samples.trans zero)
    obtain ⟨scores, targets, hasScores, hasTargets⟩ := acceptableA.exists_scores empty
    have buffers : b.generalBuffers scores targets =
        { a.generalBuffers scores targets with
          hessians := b.buffers.hessians.getD []
          weights := b.weights.getD [] } := by
      rw [generalBuffers, generalBuffers, sameInputs.gradients]
    have moved : ∀ {β : Type} (f : MovedSample → β),
        (∀ k score target weight,
          f (loss.moved k score target weight) = f (loss.moved k score target none)) →
        ((b.generalBuffers scores targets).movedSamples loss b.updates).map f =
          ((a.generalBuffers scores targets).movedSamples loss a.updates).map f := by
      intro β f unweighted
      rw [buffers, ← sameInputs.updates]
      exact GeneralBuffers.map_movedSamples _ _ _ f unweighted _ _
    rw [applyGeneral_result acceptableA empty hasScores hasTargets,
      applyGeneral_result acceptableB nonempty (sameInputs.scores.symm.trans hasScores)
        (sameInputs.targets.symm.trans hasTargets)]
    refine ⟨?_, ?_, ?_, ?_⟩
    · exact (moved (·.gradient) fun _ _ _ _ => rfl).symm
    · exact congrArg some (moved (·.score) fun _ _ _ _ => rfl).symm
    · intro requestedA requestedB
      obtain ⟨bufferA, presentA⟩ := Option.ne_none_iff_exists'.mp requestedA
      obtain ⟨bufferB, presentB⟩ := Option.ne_none_iff_exists'.mp requestedB
      rw [presentA, presentB]
      exact congrArg some (moved (·.hessian) fun _ _ _ _ => rfl).symm
    · intro weights asked
      -- The hessian buffer is all that is left of the difference, and no sample depends on it.
      have samples : (b.generalBuffers scores targets).movedSamples loss b.updates =
          (a.generalBuffers scores targets).movedSamples loss a.updates := by
        rw [buffers, ← sameInputs.updates, ← weights]
        rfl
      rw [samples, reported_congr asked]

private theorem applyBy_agree (path : UpdatePath) (loss : Loss) (sameInputs : a.SameInputs b)
    (acceptableA : a.Acceptable (path.lossOf loss) (path.needsScores loss))
    (acceptableB : b.Acceptable (path.lossOf loss) (path.needsScores loss)) :
    a.Agree b (a.applyBy path loss).result (b.applyBy path loss).result := by
  rcases squared_or_general path loss with
    ⟨needsScores, lossOf, isSquared⟩ | ⟨needsScores, lossOf, isGeneral⟩
  · rw [needsScores, lossOf] at acceptableA acceptableB
    rw [isSquared, isSquared]
    exact applySquared_agree sameInputs acceptableA acceptableB
  · rw [needsScores, lossOf] at acceptableA acceptableB
    rw [isGeneral, isGeneral]
    exact applyGeneral_agree sameInputs acceptableA acceptableB

theorem ending_of_acceptable {path : UpdatePath}
    (acceptable : b.Acceptable (path.lossOf loss) (path.needsScores loss)) :
    ∃ metric, (b.applyBy path loss).result.ending = .ok (b.reported metric) := by
  have settles := b.applyBy_settles path loss
  have passes := (firstFailure_eq_none_iff _).mpr ((checks_hold_iff b _ _).mpr acceptable)
  rw [passes] at settles
  exact settles

private theorem reported_eq_none_iff (b : Batch) (metric : Double) :
    b.reported metric = none ↔ b.metric = false := by
  rw [reported]
  cases b.metric <;> simp

private theorem applyWith_hessians {move : Batch → UpdateResult}
    (moves : (move b).buffers.hessians = none ↔ b.buffers.hessians = none) (loss : Loss) :
    (b.applyWith loss move).result.buffers.hessians = none ↔ b.buffers.hessians = none := by
  rw [applyWith_result]
  cases b.validate with
  | error e => exact Iff.rfl
  | ok _ =>
    by_cases empty : b.samples = 0
    · simp only [empty, if_true]
    · simpa only [empty, if_false] using moves

private theorem applySquared_hessians (b : Batch) :
    b.applySquared.result.buffers.hessians = none ↔ b.buffers.hessians = none := by
  refine applyWith_hessians ?_ _
  rw [moveSquared]
  split <;> exact Iff.rfl

private theorem applyGeneral_hessians (b : Batch) (loss : Loss) :
    (b.applyGeneral loss).result.buffers.hessians = none ↔ b.buffers.hessians = none := by
  refine applyWith_hessians ?_ _
  rw [moveGeneral]
  split
  · exact Iff.rfl
  · split
    · exact Iff.rfl
    · exact Iff.rfl
    · exact Option.map_eq_none_iff

theorem applyBy_hessians (b : Batch) (path : UpdatePath) (loss : Loss) :
    (b.applyBy path loss).result.buffers.hessians = none ↔ b.buffers.hessians = none := by
  rcases squared_or_general path loss with ⟨-, -, isSquared⟩ | ⟨-, -, isGeneral⟩
  · rw [isSquared]
    exact b.applySquared_hessians
  · rw [isGeneral]
    exact b.applyGeneral_hessians loss

/-- A batch as its caller finds it after an update, which hands back gradients, hessians and
scores. -/
def updatedBy (b : Batch) (path : UpdatePath) (loss : Loss) : Batch :=
  { b with buffers := (b.applyBy path loss).result.buffers }

end Batch

namespace Training

private theorem targets_step (loss : Loss) (t : Training) (s : Step) :
    (step loss t s).result.2.targets = t.targets := by
  rw [step]
  cases s.bins.source <;> rfl

private theorem targets_run (loss : Loss) (t : Training) (steps : List Step) :
    ∀ done ∈ (run loss t steps).result, done.2.targets = t.targets := by
  induction steps generalizing t with
  | nil => exact List.forall_mem_nil _
  | cons s rest ih =>
    have later := ih (step loss t s).result.2
    rw [targets_step] at later
    exact List.forall_mem_cons.mpr ⟨targets_step loss t s, later⟩

end Training

namespace Batch

variable {a b : Batch}

/-- What acceptable batches ask for makes no difference to gradients and scores. Hessians are left
exactly where there is a buffer for them, whatever the weights and the metric; the metric is the
same with and without hessians, and it is reported exactly if it is asked for. Bins, tensor, targets
and weights stay, over any number of updates. -/
theorem requests_do_not_interfere (path : UpdatePath) (loss : Loss) (sameInputs : a.SameInputs b)
    (acceptableA : a.Acceptable (path.lossOf loss) (path.needsScores loss))
    (acceptableB : b.Acceptable (path.lossOf loss) (path.needsScores loss)) :
    a.Agree b (a.applyBy path loss).result (b.applyBy path loss).result ∧
      (∃ metric, (a.applyBy path loss).result.ending = .ok metric ∧
        (metric = none ↔ a.metric = false)) ∧
      ((a.updatedBy path loss).buffers.hessians = none ↔ a.buffers.hessians = none) ∧
      (a.updatedBy path loss).SameInputs (b.updatedBy path loss) ∧
      (a.updatedBy path loss).source = a.source ∧ (a.updatedBy path loss).tensor = a.tensor ∧
      (a.updatedBy path loss).targets = a.targets ∧ (a.updatedBy path loss).weights = a.weights ∧
      ∀ (t : Training) (steps : List Step), ∀ done ∈ (Training.run loss t steps).result,
        done.2.targets = t.targets := by
  have agree := applyBy_agree path loss sameInputs acceptableA acceptableB
  obtain ⟨metric, ending⟩ := ending_of_acceptable acceptableA
  refine ⟨agree, ⟨_, ending, reported_eq_none_iff a metric⟩, applyBy_hessians a path loss, ?_, rfl,
    rfl, rfl, rfl, fun t steps => Training.targets_run loss t steps⟩
  exact ⟨sameInputs.source, sameInputs.tensor, agree.gradients, agree.scores, sameInputs.targets⟩

theorem requests_do_not_interfere_on_nine_samples :
    let weighted : Batch :=
      { nineSamples with weights := some (List.replicate 9 2), metric := false }
    let plain : Batch :=
      { nineSamples with buffers := { nineSamples.buffers with hessians := none } }
    nineSamples.SameInputs weighted ∧ nineSamples.SameInputs plain ∧
      nineSamples.Acceptable .logistic true ∧ weighted.Acceptable .logistic true ∧
      plain.Acceptable .logistic true ∧
      (nineSamples.applyBy .general .logistic).result.buffers.hessians =
        (weighted.applyBy .general .logistic).result.buffers.hessians ∧
      (nineSamples.applyBy .general .logistic).result.buffers.gradients =
        (plain.applyBy .general .logistic).result.buffers.gradients ∧
      (nineSamples.applyBy .general .logistic).result.ending =
        (plain.applyBy .general .logistic).result.ending := by
  intro weighted plain
  have sameWeighted : nineSamples.SameInputs weighted := ⟨rfl, rfl, rfl, rfl, rfl⟩
  have samePlain : nineSamples.SameInputs plain := ⟨rfl, rfl, rfl, rfl, rfl⟩
  have acceptable : nineSamples.Acceptable .logistic true :=
    (checks_hold_iff nineSamples .logistic true).mp (by decide)
  have acceptableWeighted : weighted.Acceptable .logistic true :=
    (checks_hold_iff weighted .logistic true).mp (by decide)
  have acceptablePlain : plain.Acceptable .logistic true :=
    (checks_hold_iff plain .logistic true).mp (by decide)
  obtain ⟨withWeights, -⟩ :=
    requests_do_not_interfere .general .logistic sameWeighted acceptable acceptableWeighted
  obtain ⟨withoutHessians, -⟩ :=
    requests_do_not_interfere .general .logistic samePlain acceptable acceptablePlain
  exact ⟨sameWeighted, samePlain, acceptable, acceptableWeighted, acceptablePlain,
    withWeights.hessians (Option.some_ne_none _) (Option.some_ne_none _),
    withoutHessians.gradients, withoutHessians.metric rfl rfl⟩

end Batch

end Boosting
