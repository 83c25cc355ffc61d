/- Squared error by residuals and by scores.
   Where the stored gradients are the residuals of the scores, an update under squared error may
   move the residuals or take them afresh from the moved scores. Both ways accept the same
   batches and move the scores alike. A residual moved by an update need not be the residual of
   the moved score, because sums round; where it is, the gradients agree, and the metrics add up
   the same terms in their own ways. -/

import Boosting.Proofs.Update.Outcome

set_option autoImplicit false
set_option relaxedAutoImplicit false

namespace Boosting

private theorem addends_of_short {terms : List Single} (short : terms.length < 8) :
    addends terms = terms := by
  have body : terms.length - terms.length % Lanes.widest.width = 0 := by
    simp only [show Lanes.widest.width = 8 from rfl]
    omega
  rw [addends, body]
  rfl

private theorem GeneralBuffers.map_term_squared (b : GeneralBuffers) (updates : List Single) :
    (b.movedSamples .squared updates).map (·.term) =
      SquaredMove.terms b.weights ((b.movedSamples .squared updates).map (·.gradient)) := by
  apply List.ext_getElem?
  intro i
  rw [SquaredMove.terms, List.getElem?_mapIdx, List.getElem?_map, List.getElem?_map, Option.map_map]
  by_cases inside : i < b.samples
  · rw [getElem?_movedSamples .squared updates inside]
    simp only [Option.map_some, Function.comp_apply, movedSample, Loss.moved]
    cases b.weights[i]? <;> rfl
  · have moved := length_movedSamples b .squared updates
    rw [List.getElem?_eq_none (by omega)]
    rfl

namespace Batch

variable {b : Batch} {scores targets : List Single}

def StoresResiduals (b : Batch) (scores targets : List Single) : Prop :=
  ∀ (i : Nat) score target gradient, scores[i]? = some score → targets[i]? = some target →
    b.buffers.gradients[i]? = some gradient → gradient = score - target

/-- The moved residual of a sample is the residual of its moved score. -/
def Coincides (b : Batch) (scores targets : List Single) (i : Nat) : Prop :=
  ∀ score target update, scores[i]? = some score → targets[i]? = some target →
    b.updates[i]? = some update → score - target + update = score + update - target

private theorem checks_squared (hasScores : b.buffers.scores = some scores)
    (hasTargets : b.targets = some targets) : b.checks .squared true = b.checks .squared false := by
  simp only [checks, pathChecks, hasScores, hasTargets, Option.isSome_some, Bool.true_or]

private theorem acceptable_squared_iff (hasScores : b.buffers.scores = some scores)
    (hasTargets : b.targets = some targets) :
    b.Acceptable .squared true ↔ b.Acceptable .squared false := by
  rw [← checks_hold_iff, ← checks_hold_iff, checks_squared hasScores hasTargets]

private theorem gradient_agrees (acceptable : b.Acceptable .squared true)
    (hasScores : b.buffers.scores = some scores) (hasTargets : b.targets = some targets)
    (residuals : b.StoresResiduals scores targets) {i : Nat} (inside : i < b.samples)
    (coincides : b.Coincides scores targets i) :
    (b.buffers.gradients.zipWith (· + ·) b.updates)[i]? =
      (((b.generalBuffers scores targets).movedSamples .squared b.updates).map
        (·.gradient))[i]? := by
  have fits := fits_generalBuffers acceptable hasScores hasTargets
  have supplied := length_updates acceptable
  have scoreAt : scores[i]? = some (scores.getD i default) := fits.getElem?_scores inside
  have targetAt : targets[i]? = some (targets.getD i default) := fits.getElem?_targets inside
  have updateAt : b.updates[i]? = some (b.updates.getD i default) :=
    getElem?_eq_some_getD (by omega) default
  have gradientAt : b.buffers.gradients[i]? = some (b.buffers.gradients.getD i default) :=
    getElem?_eq_some_getD inside default
  have residual := residuals i _ _ _ scoreAt targetAt gradientAt
  have residuals := coincides _ _ _ scoreAt targetAt updateAt
  have moved := GeneralBuffers.getElem?_movedSamples .squared b.updates
    (b := b.generalBuffers scores targets) inside
  rw [List.getElem?_zipWith, gradientAt, updateAt, List.getElem?_map, moved]
  simp only [Option.map_some, residual, residuals]
  rfl

private theorem gradients_agree (acceptable : b.Acceptable .squared true)
    (hasScores : b.buffers.scores = some scores) (hasTargets : b.targets = some targets)
    (residuals : b.StoresResiduals scores targets)
    (coincide : ∀ i < b.samples, b.Coincides scores targets i) :
    b.buffers.gradients.zipWith (· + ·) b.updates =
      ((b.generalBuffers scores targets).movedSamples .squared b.updates).map (·.gradient) := by
  apply List.ext_getElem?
  intro i
  by_cases inside : i < b.samples
  · exact gradient_agrees acceptable hasScores hasTargets residuals inside (coincide i inside)
  · have moved :=
      GeneralBuffers.length_movedSamples (b.generalBuffers scores targets) .squared b.updates
    have samples : (b.generalBuffers scores targets).samples = b.samples := rfl
    have stored : b.buffers.gradients.length = b.samples := rfl
    rw [List.getElem?_eq_none, List.getElem?_eq_none]
    · rw [List.length_map]
      omega
    · rw [List.length_zipWith]
      omega

private theorem terms_agree (acceptable : b.Acceptable .squared true)
    (hasScores : b.buffers.scores = some scores) (hasTargets : b.targets = some targets)
    (residuals : b.StoresResiduals scores targets)
    (coincide : ∀ i < b.samples, b.Coincides scores targets i) :
    ((b.generalBuffers scores targets).movedSamples .squared b.updates).map (·.term) =
      SquaredMove.terms (b.weights.getD []) (b.buffers.gradients.zipWith (· + ·) b.updates) := by
  rw [GeneralBuffers.map_term_squared,
    gradients_agree acceptable hasScores hasTargets residuals coincide]
  rfl

private theorem accepted_or_rejected_alike (hasScores : b.buffers.scores = some scores)
    (hasTargets : b.targets = some targets) :
    b.Acceptable .squared true ∧ b.Acceptable .squared false ∨
      ∃ e, b.applySquared.result = b.reject e ∧ (b.applyGeneral .squared).result = b.reject e := by
  have general := b.applyBy_settles .general .squared
  have squared := b.applyBy_settles .squared .squared
  simp only [UpdatePath.lossOf, UpdatePath.needsScores] at general squared
  rw [← checks_squared hasScores hasTargets] at squared
  cases failure : firstFailure (b.checks .squared true) with
  | none =>
    have acceptable := (checks_hold_iff b _ _).mp ((firstFailure_eq_none_iff _).mp failure)
    exact Or.inl ⟨acceptable, (acceptable_squared_iff hasScores hasTargets).mp acceptable⟩
  | some e =>
    rw [failure] at general squared
    exact Or.inr ⟨e, squared, general⟩

/-- Where the stored gradients are the residuals of the scores, squared updates by residuals and by
scores accept and reject the same batches with the same error, and leave the same scores. Gradients
are the same wherever the residuals coincide. If all of them do, the metrics add up the same terms,
one after another or first within full registers, and are the same where no register is full. -/
theorem squared_paths_agree (b : Batch) {scores targets : List Single} (nonempty : b.samples ≠ 0)
    (hasScores : b.buffers.scores = some scores) (hasTargets : b.targets = some targets)
    (residuals : b.StoresResiduals scores targets) :
    let squared := b.applySquared.result
    let general := (b.applyGeneral .squared).result
    (∀ e, squared.ending = .error e ↔ general.ending = .error e) ∧
      ((∃ metric, squared.ending = .ok metric) ↔ ∃ metric, general.ending = .ok metric) ∧
      ∀ metric, squared.ending = .ok metric →
        squared.buffers.scores = general.buffers.scores ∧
        (∀ i < b.samples, b.Coincides scores targets i →
          squared.buffers.gradients[i]? = general.buffers.gradients[i]?) ∧
        ((∀ i < b.samples, b.Coincides scores targets i) →
          let terms := SquaredMove.terms (b.weights.getD []) squared.buffers.gradients
          squared.ending = .ok (b.reported (total terms)) ∧
            general.ending = .ok (b.reported (total (addends terms))) ∧
            (b.samples < 8 → squared.ending = general.ending)) := by
  intro squared general
  rcases accepted_or_rejected_alike hasScores hasTargets with
    ⟨acceptable, acceptableSquared⟩ | ⟨e, isSquared, isGeneral⟩
  · have squaredIs : squared = _ := applySquared_result acceptableSquared nonempty
    have generalIs : general = _ := applyGeneral_result acceptable nonempty hasScores hasTargets
    have fits := fits_generalBuffers acceptable hasScores hasTargets
    rw [squaredIs, generalIs]
    refine ⟨fun e => by simp, by simp, fun metric _ => ⟨?_, ?_, ?_⟩⟩
    · rw [hasScores]
      exact congrArg some (GeneralBuffers.map_score_movedSamples .squared b.updates fits.scores
        (length_updates acceptable)).symm
    · intro i inside coincides
      exact gradient_agrees acceptable hasScores hasTargets residuals inside coincides
    · intro coincide
      have terms := terms_agree acceptable hasScores hasTargets residuals coincide
      rw [terms]
      refine ⟨rfl, rfl, fun short => ?_⟩
      rw [addends_of_short]
      rw [← terms, List.length_map, GeneralBuffers.length_movedSamples]
      exact short
  · rw [show squared = b.reject e from isSquared, show general = b.reject e from isGeneral]
    refine ⟨fun _ => Iff.rfl, Iff.rfl, fun metric accepted => ?_⟩
    cases accepted

theorem squared_paths_agree_on_nine_samples :
    let b : Batch := { nineSamples with buffers := { nineSamples.buffers with hessians := none } }
    let ones : List Single := List.replicate 9 1
    let terms := SquaredMove.terms [] b.applySquared.result.buffers.gradients
    b.samples ≠ 0 ∧ b.buffers.scores = some ones ∧ b.targets = some ones ∧
      b.StoresResiduals ones ones ∧ (∀ i < b.samples, b.Coincides ones ones i) ∧
      b.applySquared.result.buffers.scores = (b.applyGeneral .squared).result.buffers.scores ∧
      b.applySquared.result.ending = .ok (some (total terms)) ∧
      (b.applyGeneral .squared).result.ending = .ok (some (total (addends terms))) := by
  intro b ones terms
  have nonempty : b.samples ≠ 0 := by decide
  have one : ∀ {i : Nat} {x : Single}, ones[i]? = some x → x = 1 := fun present =>
    List.eq_of_mem_replicate (List.mem_of_getElem? present)
  have residuals : b.StoresResiduals ones ones := by
    intro i score target gradient hasScore hasTarget hasGradient
    have zero : gradient = 0 := List.eq_of_mem_replicate (List.mem_of_getElem? hasGradient)
    rw [one hasScore, one hasTarget, zero]
    decide +kernel
  have coincide : ∀ i < b.samples, b.Coincides ones ones i := by
    have returns : ∀ update ∈ b.updates, (1 : Single) - 1 + update = 1 + update - 1 := by
      decide +kernel
    intro i _ score target update hasScore hasTarget hasUpdate
    rw [one hasScore, one hasTarget]
    exact returns update (List.mem_of_getElem? hasUpdate)
  have acceptable : b.Acceptable .squared false := (checks_hold_iff b .squared false).mp (by decide)
  have succeeds : ∃ metric, (b.applyBy .squared .squared).result.ending = .ok (b.reported metric) :=
    ending_of_acceptable acceptable
  obtain ⟨metric, ending⟩ := succeeds
  obtain ⟨-, -, accepted⟩ := squared_paths_agree b nonempty rfl rfl residuals
  obtain ⟨sameScores, -, metrics⟩ := accepted _ ending
  obtain ⟨squared, general, -⟩ := metrics coincide
  exact ⟨nonempty, rfl, rfl, residuals, coincide, sameScores, squared, general⟩

end Batch

end Boosting
