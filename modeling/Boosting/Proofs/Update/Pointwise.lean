/- A general update sample by sample.
   A general update of an acceptable batch leaves each sample as if it had been updated alone,
   with the cell that its bin selects, on packed lanes if it lies in a full register and on
   scalars otherwise. The metric adds up the terms register by register and then one by one. -/

import Boosting.Proofs.Update.Progress

set_option autoImplicit false
set_option relaxedAutoImplicit false

namespace Boosting

namespace Batch

/-- An update of the buffers draws each update with the sample it is for: however many registers, or
single samples past all registers, have been moved, the updates of the others are left. -/
def DrawsInOrder (b : Batch) (loss : Loss) (buffers : GeneralBuffers) : Prop :=
  let wanted := buffers.wanted b.metric
  let registers := fun count =>
    GeneralMove.registers loss wanted count 0 (.initial b.supply buffers)
  let body := b.samples - b.samples % 8
  (∀ count ≤ b.samples / 8, (registers count).supply.pending = b.updates.drop (8 * count)) ∧
    ∀ count ≤ b.samples % 8,
      (GeneralMove.singles loss wanted count body (registers (b.samples / 8))).supply.pending =
        b.updates.drop (body + count)

variable {b : Batch} {loss : Loss} {scores targets : List Single}

private theorem length_getD_nil {samples : Nat} {buffer? : Option (List Single)}
    (length : ∀ buffer ∈ buffer?, buffer.length = samples) (nonempty : buffer?.getD [] ≠ []) :
    (buffer?.getD []).length = samples := by
  cases buffer? with
  | none => exact absurd rfl nonempty
  | some buffer => exact length buffer rfl

theorem fits_generalBuffers (acceptable : b.Acceptable loss true)
    (hasScores : b.buffers.scores = some scores) (hasTargets : b.targets = some targets) :
    (b.generalBuffers scores targets).Fits := by
  obtain ⟨hessians, ofScores, ofTargets, weights⟩ :=
    (b.forall_optionalBuffers_iff _).mp acceptable.lengths
  exact ⟨ofScores scores hasScores, ofTargets targets hasTargets, length_getD_nil hessians,
    length_getD_nil weights⟩

theorem generalBuffers_hessians_ne_nil (acceptable : b.Acceptable loss true)
    (nonempty : b.samples ≠ 0) {buffer : List Single} (present : b.buffers.hessians = some buffer) :
    (b.generalBuffers scores targets).hessians ≠ [] := by
  obtain ⟨hessians, -⟩ := (b.forall_optionalBuffers_iff _).mp acceptable.lengths
  have length := hessians buffer present
  rw [generalBuffers, present, Option.getD_some, ← List.length_pos_iff, length]
  exact Nat.pos_of_ne_zero nonempty

theorem applyGeneral_eq (acceptable : b.Acceptable loss true) (nonempty : b.samples ≠ 0)
    (hasScores : b.buffers.scores = some scores) (hasTargets : b.targets = some targets) :
    let move := GeneralMove.run loss b.metric b.supply (b.generalBuffers scores targets)
    (b.applyGeneral loss).result =
      ⟨.ok (b.reported move.metric),
        { gradients := move.buffers.gradients
          hessians := b.buffers.hessians.map fun _ => move.buffers.hessians
          scores := some move.buffers.scores }⟩ := by
  intro move
  have supported : (b.buffers.hessians.isSome && !loss.hasHessian) = false := by
    have hessians := (acceptable.complete nonempty).hessians
    cases present : b.buffers.hessians with
    | none => rfl
    | some buffer =>
      rw [hessians (by rw [present]; exact Option.some_ne_none buffer)]
      rfl
  rw [applyGeneral, applyWith_result, acceptable.validate_eq_ok]
  simp only [nonempty, if_false, moveGeneral, supported, hasScores, hasTargets, Bool.false_eq_true]
  rfl

private theorem drawsInOrder (acceptable : b.Acceptable loss true) (nonempty : b.samples ≠ 0)
    (hasScores : b.buffers.scores = some scores) (hasTargets : b.targets = some targets) :
    b.DrawsInOrder loss (b.generalBuffers scores targets) := by
  have fits := fits_generalBuffers acceptable hasScores hasTargets
  have supplied := length_updates acceptable
  obtain ⟨aligned, pending⟩ := supply_spec acceptable nonempty
  have start : Progress loss b.metric (b.generalBuffers scores targets) b.updates 0
      (.initial b.supply (b.generalBuffers scores targets)) := .initial aligned pending
  have registered : ∀ count ≤ b.samples / 8,
      Progress loss b.metric (b.generalBuffers scores targets) b.updates (8 * count)
        (.registers loss ((b.generalBuffers scores targets).wanted b.metric) count 0
          (.initial b.supply (b.generalBuffers scores targets))) := by
    intro count most
    have body : 0 + count * Lanes.widest.width ≤ (b.generalBuffers scores targets).body := by
      change 0 + count * 8 ≤ b.samples - b.samples % 8
      omega
    have progress := start.registers fits supplied count (Nat.dvd_zero _) body
    rw [Nat.zero_add, Nat.mul_comm] at progress
    exact progress
  refine ⟨fun count most => (registered count most).pending, ?_⟩
  intro count most
  have all := registered (b.samples / 8) (Nat.le_refl _)
  have body : 8 * (b.samples / 8) = b.samples - b.samples % 8 := by omega
  rw [body] at all
  refine (all.singles fits supplied count (Nat.le_refl _) ?_).pending
  change b.samples - b.samples % 8 + count ≤ b.samples
  omega

private theorem getElem?_generalBuffers_weights (b : Batch) (scores targets : List Single)
    (i : Nat) :
    (b.generalBuffers scores targets).weights[i]? = b.weights.bind fun weights => weights[i]? := by
  rw [generalBuffers]
  cases b.weights <;> rfl

private theorem movedSample_eq (acceptable : b.Acceptable loss true)
    (hasScores : b.buffers.scores = some scores) (hasTargets : b.targets = some targets) {i : Nat}
    (inside : i < b.samples) :
    ∃ bin update score target,
      (b.source.bins b.samples)[i]? = some bin ∧ b.tensor[bin]? = some update ∧
        scores[i]? = some score ∧ targets[i]? = some target ∧
        (b.generalBuffers scores targets).movedSample loss b.updates i =
          loss.moved (if i < b.samples - b.samples % 8 then .packed else .scalar) (score + update)
            target (b.weights.bind fun weights => weights[i]?) := by
  obtain ⟨bin, cell, hasBin, hasCell, update⟩ := exists_update acceptable inside
  have fits := fits_generalBuffers acceptable hasScores hasTargets
  have hasScore : scores[i]? = some (scores.getD i default) := fits.getElem?_scores inside
  have hasTarget : targets[i]? = some (targets.getD i default) := fits.getElem?_targets inside
  have updateIs : b.updates.getD i default = cell := by
    rw [List.getD_eq_getElem?_getD, update, Option.getD_some]
  refine ⟨bin, cell, _, _, hasBin, hasCell, hasScore, hasTarget, ?_⟩
  rw [GeneralBuffers.movedSample, updateIs, getElem?_generalBuffers_weights]
  rfl

/-- A general update of an acceptable batch with samples gives every sample its own value: the
update is the cell that its bin selects, and the loss is evaluated at the moved score, on packed
lanes for the samples of full registers and on scalars for the others. The updates are drawn in the
order of the samples. The metric adds up, from zero on, the sums of the full registers and then the
other terms. -/
theorem applyGeneral_moves_each_sample (b : Batch) (loss : Loss)
    (acceptable : b.Acceptable loss true) (nonempty : b.samples ≠ 0) :
    ∃ (scores targets : List Single) (samples : List MovedSample),
      b.buffers.scores = some scores ∧ b.targets = some targets ∧
      b.DrawsInOrder loss (b.generalBuffers scores targets) ∧
      samples.length = b.samples ∧
      (∀ i < b.samples, ∃ bin update score target,
        (b.source.bins b.samples)[i]? = some bin ∧ b.tensor[bin]? = some update ∧
          scores[i]? = some score ∧ targets[i]? = some target ∧
          samples[i]? = some
            (loss.moved (if i < b.samples - b.samples % 8 then .packed else .scalar)
              (score + update) target (b.weights.bind fun weights => weights[i]?))) ∧
      (b.applyGeneral loss).result =
        { ending := .ok (if b.metric then some (total (addends (samples.map (·.term)))) else none)
          buffers :=
            { gradients := samples.map (·.gradient)
              hessians := b.buffers.hessians.map fun _ => samples.map (·.hessian)
              scores := some (samples.map (·.score)) } } := by
  obtain ⟨-, -, -, needsScores, needsTargets⟩ := acceptable.complete nonempty
  obtain ⟨scores, hasScores⟩ := Option.ne_none_iff_exists'.mp (needsScores rfl)
  obtain ⟨targets, hasTargets⟩ := Option.ne_none_iff_exists'.mp (needsTargets rfl)
  refine ⟨scores, targets, (b.generalBuffers scores targets).movedSamples loss b.updates, hasScores,
    hasTargets, drawsInOrder acceptable nonempty hasScores hasTargets,
    GeneralBuffers.length_movedSamples _ _ _, ?_, ?_⟩
  · intro i inside
    obtain ⟨bin, update, score, target, hasBin, hasUpdate, hasScore, hasTarget, moved⟩ :=
      movedSample_eq acceptable hasScores hasTargets inside
    refine ⟨bin, update, score, target, hasBin, hasUpdate, hasScore, hasTarget, ?_⟩
    rw [← moved]
    exact GeneralBuffers.getElem?_movedSamples loss b.updates inside
  · have fits := fits_generalBuffers acceptable hasScores hasTargets
    obtain ⟨aligned, pending⟩ := supply_spec acceptable nonempty
    have run : Progress loss b.metric (b.generalBuffers scores targets) b.updates b.samples
        (.run loss b.metric b.supply (b.generalBuffers scores targets)) :=
      .run fits (length_updates acceptable) aligned pending
    obtain ⟨newScores, newGradients, newHessians, newMetric⟩ := run.finished fits
    rw [applyGeneral_eq acceptable nonempty hasScores hasTargets]
    generalize GeneralMove.run loss b.metric b.supply (b.generalBuffers scores targets) = move
      at newScores newGradients newHessians newMetric
    generalize (b.generalBuffers scores targets).movedSamples loss b.updates = samples
      at newScores newGradients newHessians newMetric
    have metric : b.reported move.metric =
        if b.metric then some (total (addends (samples.map (·.term)))) else none := by
      rw [reported]
      by_cases asked : b.metric = true
      · rw [if_pos asked, if_pos asked, newMetric asked]
      · rw [if_neg asked, if_neg asked]
    have hessians : (b.buffers.hessians.map fun _ => move.buffers.hessians) =
        b.buffers.hessians.map fun _ => samples.map (·.hessian) := by
      apply Option.map_congr
      intro buffer present
      exact newHessians (generalBuffers_hessians_ne_nil acceptable nonempty present)
    simp only [newScores, newGradients, metric, hessians]

def nineSamples : Batch where
  source := .packed [0b011010101] 64
  tensor := [1, 2]
  buffers :=
    { gradients := List.replicate 9 0
      hessians := some (List.replicate 9 0)
      scores := some (List.replicate 9 1) }
  targets := some (List.replicate 9 1)
  weights := none
  metric := true

theorem applyGeneral_moves_nine_samples :
    nineSamples.Acceptable .logistic true ∧ nineSamples.samples ≠ 0 ∧
      ∃ samples : List MovedSample,
        (nineSamples.applyGeneral .logistic).result.buffers.scores = some (samples.map (·.score)) ∧
        samples[7]? = some (Loss.logistic.moved .packed (1 + 1) 1 none) ∧
        samples[8]? = some (Loss.logistic.moved .scalar (1 + 2) 1 none) := by
  have acceptable : nineSamples.Acceptable .logistic true :=
    (checks_hold_iff nineSamples .logistic true).mp (by decide)
  have nonempty : nineSamples.samples ≠ 0 := by decide
  obtain ⟨scores, targets, samples, hasScores, hasTargets, -, -, each, result⟩ :=
    applyGeneral_moves_each_sample nineSamples .logistic acceptable nonempty
  obtain rfl : List.replicate 9 1 = scores := Option.some.inj hasScores
  obtain rfl : List.replicate 9 1 = targets := Option.some.inj hasTargets
  have moved : ∀ i < 9, ∀ bin update,
      (nineSamples.source.bins nineSamples.samples)[i]? = some bin →
      nineSamples.tensor[bin]? = some update →
        samples[i]? =
          some (Loss.logistic.moved (if i < 8 then .packed else .scalar) (1 + update) 1 none) := by
    intro i inside bin update ofSample ofBin
    obtain ⟨bin', update', score, target, hasBin, hasUpdate, hasScore, hasTarget, sample⟩ :=
      each i inside
    obtain rfl := Option.some.inj (ofSample.symm.trans hasBin)
    obtain rfl := Option.some.inj (ofBin.symm.trans hasUpdate)
    rw [List.getElem?_replicate_of_lt inside] at hasScore hasTarget
    obtain rfl := Option.some.inj hasScore
    obtain rfl := Option.some.inj hasTarget
    exact sample
  exact ⟨acceptable, nonempty, samples, congrArg (·.buffers.scores) result,
    moved 7 (by decide) 0 1 (by decide) rfl, moved 8 (by decide) 1 2 (by decide) rfl⟩

end Batch

end Boosting
