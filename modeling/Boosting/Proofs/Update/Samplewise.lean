/- A squared update sample by sample.
   A squared update adds to the residual of each sample, and to its score if there is one, the
   cell of the tensor whose index stands at the place of the sample in the packed words. The
   metric sums the squares of the moved residuals in the order of the samples. Targets have no
   part in it. -/

import Boosting.Proofs.Packing.Positions
import Boosting.Proofs.Update.Residuals

set_option autoImplicit false
set_option relaxedAutoImplicit false

namespace Boosting

namespace BinSource

variable {source : BinSource} {samples cells : Nat}

def binAt (source : BinSource) (samples i : Nat) : Nat :=
  match source with
  | scalar => 0
  | packed words items => Packing.itemAt words items samples i

private theorem getElem?_bins (covers : source.Covers samples cells) {i : Nat}
    (inside : i < samples) :
    (source.bins samples)[i]? = some (source.binAt samples i) := by
  cases source with
  | scalar =>
    show (List.replicate samples 0)[i]? = some 0
    simp [inside]
  | packed words items =>
    obtain ⟨valid, enough, -⟩ := covers
    have stored : i < Packing.available words.length items samples := by
      rw [Packing.available_eq valid.1 enough]
      exact inside
    exact Packing.getElem?_unpack ((Packing.validItems_iff items).mpr valid) stored

end BinSource

namespace Batch

variable {b : Batch}

structure MovesResiduals (b : Batch) (after : Buffers) (terms : List Single) : Prop where
  length : after.gradients.length = b.samples
  each : terms.length = b.samples
  hessians : after.hessians = none
  noScores : b.buffers.scores = none → after.scores = none
  someScores : ∀ before, b.buffers.scores = some before →
    ∃ scores, after.scores = some scores ∧ scores.length = b.samples
  moved : ∀ i < b.samples, ∃ update gradient,
    b.tensor[b.source.binAt b.samples i]? = some update ∧
      b.buffers.gradients[i]? = some gradient ∧
      after.gradients[i]? = some (gradient + update) ∧
      ∀ before scores, b.buffers.scores = some before → after.scores = some scores →
        ∃ score, before[i]? = some score ∧ scores[i]? = some (score + update)
  /-- The term of a sample is its new gradient squared, times its weight if there are weights. -/
  squares : ∀ i < b.samples, ∃ gradient, after.gradients[i]? = some gradient ∧
    terms[i]? = some (match b.weights.bind (·[i]?) with
      | none => gradient * gradient
      | some weight => gradient * gradient * weight)

private theorem exists_cell_at (acceptable : b.Acceptable .squared false) {i : Nat}
    (inside : i < b.samples) :
    ∃ update, b.tensor[b.source.binAt b.samples i]? = some update ∧
      b.updates[i]? = some update := by
  obtain ⟨bin, update, hasBin, hasCell, hasUpdate⟩ := exists_update acceptable inside
  have nonempty : b.samples ≠ 0 := by omega
  have here := BinSource.getElem?_bins (acceptable.complete nonempty).bins inside
  obtain rfl : b.source.binAt b.samples i = bin := Option.some.inj (here.symm.trans hasBin)
  exact ⟨update, hasCell, hasUpdate⟩

private theorem movesResiduals (acceptable : b.Acceptable .squared false)
    (nonempty : b.samples ≠ 0) :
    b.MovesResiduals (b.applySquared).result.buffers
      (SquaredMove.terms (b.weights.getD []) (b.applySquared).result.buffers.gradients) := by
  have supplied := length_updates acceptable
  have moved : (b.buffers.gradients.zipWith (· + ·) b.updates).length = b.samples := by
    rw [List.length_zipWith, supplied]
    exact Nat.min_self _
  rw [applySquared_result acceptable nonempty]
  constructor
  case length => exact moved
  case each =>
    rw [SquaredMove.terms, List.length_mapIdx]
    exact moved
  case hessians =>
    by_contra requested
    cases (acceptable.complete nonempty).hessians requested
  case noScores =>
    intro absent
    simp [absent]
  case someScores =>
    intro before present
    refine ⟨before.zipWith (· + ·) b.updates, by simp [present], ?_⟩
    rw [List.length_zipWith, supplied, acceptable.length_scores present, Nat.min_self]
  case moved =>
    intro i inside
    obtain ⟨update, hasCell, hasUpdate⟩ := exists_cell_at acceptable inside
    have hasGradient : b.buffers.gradients[i]? = some (b.buffers.gradients.getD i default) :=
      getElem?_eq_some_getD inside default
    refine ⟨update, _, hasCell, hasGradient, ?_, ?_⟩
    · rw [List.getElem?_zipWith, hasGradient, hasUpdate]
    · intro before scores present isScores
      obtain rfl : before.zipWith (· + ·) b.updates = scores := by
        simpa [present] using isScores
      have within : i < before.length := by
        rw [acceptable.length_scores present]
        exact inside
      have hasScore : before[i]? = some (before.getD i default) :=
        getElem?_eq_some_getD within default
      refine ⟨_, hasScore, ?_⟩
      rw [List.getElem?_zipWith, hasScore, hasUpdate]
  case squares =>
    intro i inside
    have within : i < (b.buffers.gradients.zipWith (· + ·) b.updates).length := by omega
    have hasMoved := getElem?_eq_some_getD within (default : Single)
    refine ⟨_, hasMoved, ?_⟩
    rw [SquaredMove.terms, List.getElem?_mapIdx, hasMoved, Option.map_some]
    cases b.weights <;> rfl

private theorem applySquared_congr_targets (acceptable : b.Acceptable .squared false)
    {targets : Option (List Single)} (lengths : ∀ xs ∈ targets, xs.length = b.samples) :
    { b with targets }.applySquared = b.applySquared := by
  have others : { b with targets }.Acceptable .squared false := by
    obtain ⟨hessians, scores, -, weights⟩ := (b.forall_optionalBuffers_iff _).mp acceptable.lengths
    constructor
    · exact (forall_optionalBuffers_iff _ _).mpr ⟨hessians, scores, lengths, weights⟩
    · intro nonempty
      obtain ⟨tensor, bins, hessians, -, -⟩ := acceptable.complete nonempty
      exact ⟨tensor, bins, hessians, nofun, nofun⟩
  rw [applySquared, applySquared, applyWith, applyWith, acceptable.validate_eq_ok,
    others.validate_eq_ok]
  rfl

/-- A squared update of an acceptable batch with samples succeeds and moves each residual, and the
score beside it, by the cell of the sample's bin. The metric, if asked for, is the sum of the terms
from zero on, in the order of the samples, and the whole update is the same with any targets or with
none. -/
theorem applySquared_moves_each_residual (b : Batch) (acceptable : b.Acceptable .squared false)
    (nonempty : b.samples ≠ 0) :
    ∃ (after : Buffers) (terms : List Single),
      b.applySquared.result = ⟨.ok (if b.metric then
        some ((terms.map fun term => term.convert).foldl (· + ·) (.zero false)) else none), after⟩ ∧
      b.MovesResiduals after terms ∧
      ∀ targets : Option (List Single), (∀ xs ∈ targets, xs.length = b.samples) →
        { b with targets }.applySquared = b.applySquared := by
  have result := applySquared_result acceptable nonempty
  refine ⟨_, _, ?_, movesResiduals acceptable nonempty, ?_⟩
  · rw [result]
    rfl
  · intro targets lengths
    exact applySquared_congr_targets acceptable lengths

def threeSamples : Batch where
  source := .packed [1, 0x0000000200000000] 2
  tensor := [1, 2, 4]
  buffers :=
    { gradients := [0.5, -3, 1]
      hessians := none
      scores := some [0, 1, 2] }
  targets := none
  weights := some [1, 2, 3]
  metric := true

theorem applySquared_moves_three_residuals :
    threeSamples.Acceptable .squared false ∧ threeSamples.samples ≠ 0 ∧
      ∃ (after : Buffers) (terms : List Single),
        threeSamples.applySquared.result =
          ⟨.ok (some ((terms.map fun term => term.convert).foldl (· + ·) (.zero false))), after⟩ ∧
        threeSamples.MovesResiduals after terms ∧
        after.gradients = [2.5, 1, 2] ∧ after.scores = some [2, 5, 3] ∧
        { threeSamples with targets := some [7, 7, 7] }.applySquared =
          threeSamples.applySquared := by
  have acceptable : threeSamples.Acceptable .squared false :=
    (checks_hold_iff threeSamples .squared false).mp (by decide)
  have nonempty : threeSamples.samples ≠ 0 := by decide
  obtain ⟨after, terms, result, moves, anyTargets⟩ :=
    applySquared_moves_each_residual threeSamples acceptable nonempty
  have isAfter : threeSamples.applySquared.result.buffers = after := congrArg (·.buffers) result
  refine ⟨acceptable, nonempty, after, terms, result, moves, ?_, ?_, anyTargets _ (by decide)⟩
  · rw [← isAfter]
    decide +kernel
  · rw [← isAfter]
    decide +kernel

end Batch

end Boosting
