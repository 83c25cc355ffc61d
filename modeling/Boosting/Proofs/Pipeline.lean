/- From values to moved samples.
   With `k` cuts there are `k + 2` bins, the missing one among them. If a cell type holds their
   indices, the bins of any values fit the fields that are chosen for `k + 2` bins, the packed
   words cover the values, and every bin selects a cell of a tensor of `k + 2` cells. So binning,
   packing and updating compose without an error, and the composition can be described by
   `referenceBin` alone. -/

import Boosting.Proofs.Binning.Division
import Boosting.Proofs.Packing.Capacity
import Boosting.Proofs.Update.Residuals
import Boosting.Proofs.Update.Scores

set_option autoImplicit false
set_option relaxedAutoImplicit false

namespace Boosting

/-- Each number is moved by the cell of the bin of its value. -/
def MovedByCells (tensor : List Single) (values cuts : List Double) (old new : List Single) :
    Prop :=
  new.length = values.length ∧
    ∀ (i : Nat) value number, values[i]? = some value → old[i]? = some number →
      ∃ cell, tensor[referenceBin value cuts]? = some cell ∧ new[i]? = some (number + cell)

private theorem movedByCells_zipWith {tensor old : List Single} {values cuts : List Double}
    (cells : tensor.length = cuts.length + 2) (length : old.length = values.length) :
    MovedByCells tensor values cuts old
      (old.zipWith (· + ·) ((referenceBins values cuts).map fun bin =>
        tensor.getD bin default)) := by
  constructor
  · rw [List.length_zipWith, List.length_map, length_referenceBins, length, Nat.min_self]
  · intro i value number valueAt numberAt
    have inside : referenceBin value cuts < tensor.length := by
      have most := referenceBin_le value cuts
      omega
    refine ⟨_, getElem?_eq_some_getD inside default, ?_⟩
    rw [List.getElem?_zipWith, numberAt, List.getElem?_map, referenceBins, List.getElem?_map,
      valueAt]
    rfl

namespace Batch

variable {b : Batch} {words : List Word} {values cuts : List Double}

/-- A batch over packed bins of the values, with a cell for every bin. -/
structure UsesBins (b : Batch) (words : List Word) (values cuts : List Double) : Prop where
  source : b.source = .packed words (Packing.itemsForBins (cuts.length + 2))
  tensor : b.tensor.length = cuts.length + 2
  samples : b.samples = values.length
  lengths : ∀ named ∈ b.optionalBuffers, ∀ buffer ∈ named.2, buffer.length = b.samples

namespace UsesBins

variable (uses : b.UsesBins words values cuts)
  (packed :
    Packing.pack (referenceBins values cuts) (Packing.itemsForBins (cuts.length + 2)) = .ok words)

include uses packed

private theorem bins : b.source.bins b.samples = referenceBins values cuts := by
  rw [uses.source, uses.samples, ← length_referenceBins values cuts]
  exact Packing.unpack_of_pack packed

private theorem covers : b.source.Covers b.samples b.tensor.length := by
  rw [uses.source, uses.samples, uses.tensor, ← length_referenceBins values cuts]
  exact BinSource.covers_of_pack packed fun bin member => lt_of_mem_referenceBins member

private theorem acceptable {loss : Loss} {needsScores : Bool}
    (hessians : b.buffers.hessians ≠ none → loss.hasHessian = true)
    (scores : needsScores = true → b.buffers.scores ≠ none)
    (targets : needsScores = true → b.targets ≠ none) : b.Acceptable loss needsScores := by
  have tensor : b.tensor ≠ [] := by
    rw [← List.length_pos_iff, uses.tensor]
    exact Nat.succ_pos _
  exact ⟨uses.lengths, fun _ => ⟨tensor, uses.covers packed, hessians, scores, targets⟩⟩

private theorem updates :
    b.updates = (referenceBins values cuts).map fun bin => b.tensor.getD bin default := by
  rw [Batch.updates, uses.bins packed]

private theorem applySquared (nonempty : b.samples ≠ 0) (hessians : b.buffers.hessians = none) :
    (∃ metric, b.applySquared.result.ending = .ok metric) ∧
      MovedByCells b.tensor values cuts b.buffers.gradients
        b.applySquared.result.buffers.gradients := by
  have acceptable : b.Acceptable .squared false :=
    uses.acceptable packed (fun requested => absurd hessians requested) nofun nofun
  rw [applySquared_result acceptable nonempty, uses.updates packed]
  exact ⟨⟨_, rfl⟩, movedByCells_zipWith uses.tensor uses.samples⟩

private theorem applyGeneral {loss : Loss} {scores targets : List Single} (nonempty : b.samples ≠ 0)
    (hessians : b.buffers.hessians ≠ none → loss.hasHessian = true)
    (hasScores : b.buffers.scores = some scores) (hasTargets : b.targets = some targets) :
    (∃ metric, (b.applyGeneral loss).result.ending = .ok metric) ∧
      ∃ moved, (b.applyGeneral loss).result.buffers.scores = some moved ∧
        MovedByCells b.tensor values cuts scores moved := by
  have someScores : b.buffers.scores ≠ none := by
    rw [hasScores]
    exact Option.some_ne_none _
  have someTargets : b.targets ≠ none := by
    rw [hasTargets]
    exact Option.some_ne_none _
  have acceptable : b.Acceptable loss true :=
    uses.acceptable packed hessians (fun _ => someScores) (fun _ => someTargets)
  have length : scores.length = b.samples :=
    (fits_generalBuffers acceptable hasScores hasTargets).scores
  have moved := GeneralBuffers.map_score_movedSamples loss b.updates
    (b := b.generalBuffers scores targets) length (length_updates acceptable)
  rw [applyGeneral_result acceptable nonempty hasScores hasTargets]
  refine ⟨⟨_, rfl⟩, _, rfl, ?_⟩
  rw [moved, uses.updates packed]
  exact movedByCells_zipWith uses.tensor (length.trans uses.samples)

end UsesBins

end Batch

/-- Values are binned, their bins are packed and updates are applied without an error if the cell
type has room for the bins and the tensor a cell for each. A squared update adds to every residual,
and a general one to every score, the cell of the bin of its value. -/
theorem samples_move_by_cells_of_values (t : BinType) {values cuts : List Double} {bins : List Int}
    (valid : ValidCuts cuts) (nonempty : values ≠ []) (room : cuts.length < t.max)
    (length : bins.length = values.length) (fitsValues : Binning.FitsMemory 8 values.length)
    (fitsCuts : Binning.FitsMemory 8 cuts.length) :
    ∃ cells words,
      Binning.discretize t values cuts bins = ⟨.ok (), cells⟩ ∧
      Packing.pack (cells.map binOfCell) (Packing.itemsForBins (cuts.length + 2)) = .ok words ∧
      ∀ b : Batch, b.UsesBins words values cuts →
        (b.buffers.hessians = none →
          (∃ metric, b.applySquared.result.ending = .ok metric) ∧
            MovedByCells b.tensor values cuts b.buffers.gradients
              b.applySquared.result.buffers.gradients) ∧
        ∀ loss scores targets, (b.buffers.hessians ≠ none → loss.hasHessian = true) →
          b.buffers.scores = some scores → b.targets = some targets →
            (∃ metric, (b.applyGeneral loss).result.ending = .ok metric) ∧
              ∃ moved, (b.applyGeneral loss).result.buffers.scores = some moved ∧
                MovedByCells b.tensor values cuts scores moved := by
  -- Cuts in memory are so few that a field of a whole word always has room for the bins.
  have bounded : cuts.length + 2 ≤ 2 ^ 64 := by
    have size := Binning.addressSpace_eq
    unfold Binning.FitsMemory at fitsCuts
    omega
  have packed :=
    Packing.pack_itemsForBins bounded fun bin (member : bin ∈ referenceBins values cuts) =>
      lt_of_mem_referenceBins member
  have packedCells := packed
  rw [← Binning.map_binOfCell_referenceCells room values] at packedCells
  refine ⟨Binning.referenceCells t values cuts, _,
    Binning.discretize_of_room valid room length fitsValues fitsCuts, packedCells, ?_⟩
  rw [Binning.map_binOfCell_referenceCells room]
  intro b uses
  have sampled : b.samples ≠ 0 := by
    rw [uses.samples]
    exact fun zero => nonempty (List.eq_nil_of_length_eq_zero zero)
  exact ⟨uses.applySquared packed sampled, fun _ _ _ => uses.applyGeneral packed sampled⟩

theorem samples_move_by_cells_of_five_values :
    let cuts : List Double := [-3, -2, -1, 0, 1, 2, 3]
    let values : List Double := [.nan, .infinity true, .infinity false, 1, 0.5]
    let bins : List Int := [7, 7, 7, 7, 7]
    let t : BinType := .signed .w8
    let b : Batch :=
      { source := .packed [0x1865] 16
        tensor := [10, 20, 30, 40, 50, 60, 70, 80, 90]
        buffers :=
          { gradients := [1, 1, 1, 1, 1], hessians := none, scores := some [2, 2, 2, 2, 2] }
        targets := some [1, 1, 0, 0, 1]
        weights := none
        metric := true }
    ValidCuts cuts ∧ values ≠ [] ∧ cuts.length < t.max ∧ bins.length = values.length ∧
      Binning.FitsMemory 8 values.length ∧ Binning.FitsMemory 8 cuts.length ∧
      (Binning.discretize t values cuts bins).bins = [0, 1, 8, 6, 5] ∧
      Packing.pack [0, 1, 8, 6, 5] (Packing.itemsForBins 9) = .ok [0x1865] ∧
      b.UsesBins [0x1865] values cuts ∧
      (∃ metric, b.applySquared.result.ending = .ok metric) ∧
      MovedByCells b.tensor values cuts [1, 1, 1, 1, 1] b.applySquared.result.buffers.gradients ∧
      (∃ metric, (b.applyGeneral .logistic).result.ending = .ok metric) ∧
      ∃ moved, (b.applyGeneral .logistic).result.buffers.scores = some moved ∧
        MovedByCells b.tensor values cuts [2, 2, 2, 2, 2] moved := by
  intro cuts values bins t b
  have valid : ValidCuts cuts := ⟨by decide, by decide⟩
  have nonempty : values ≠ [] := List.cons_ne_nil _ _
  have room : cuts.length < t.max := by decide
  have length : bins.length = values.length := rfl
  have fitsValues : Binning.FitsMemory 8 values.length := by decide
  have fitsCuts : Binning.FitsMemory 8 cuts.length := by decide
  have binned : (Binning.discretize t values cuts bins).bins = [0, 1, 8, 6, 5] := by decide +kernel
  have items : Packing.itemsForBins 9 = 16 := by decide +kernel
  have stored : Packing.pack [0, 1, 8, 6, 5] (Packing.itemsForBins 9) = .ok [0x1865] := by
    rw [items]
    decide
  have source : b.source = .packed [0x1865] (Packing.itemsForBins 9) := by rw [items]
  have uses : b.UsesBins [0x1865] values cuts := ⟨source, rfl, rfl, by decide⟩
  obtain ⟨cells, words, discretized, packed, moves⟩ :=
    samples_move_by_cells_of_values t valid nonempty room length fitsValues fitsCuts
  obtain rfl : cells = [0, 1, 8, 6, 5] := by
    rw [discretized] at binned
    exact binned
  obtain rfl : words = [0x1865] := Except.ok.inj (packed.symm.trans stored)
  obtain ⟨squared, general⟩ := moves b uses
  obtain ⟨ends, residuals⟩ := squared rfl
  exact ⟨valid, nonempty, room, length, fitsValues, fitsCuts, binned, stored, uses, ends, residuals,
    general .logistic _ _ (absurd rfl) rfl rfl⟩

end Boosting
