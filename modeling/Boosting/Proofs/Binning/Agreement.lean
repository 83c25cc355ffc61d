/- All regimes assign the reference bins.
   Counting, descents and searches give the same bins, so neither the regime nor the number of
   values, on which its choice depends, shows in the cells. -/

import Boosting.Proofs.Binning.Checks
import Boosting.Proofs.Binning.Descent
import Boosting.Proofs.Binning.Passes

set_option autoImplicit false
set_option relaxedAutoImplicit false

namespace Boosting

namespace Regime

private theorem supports_select (cuts values : Nat) :
    (select cuts values).supports cuts = true := by
  unfold select
  split
  · rename_i noCuts
    simp [supports, noCuts]
  · split
    · rename_i hasCuts few
      simp only [supports, Bool.and_eq_true, decide_eq_true_eq]
      exact ⟨Nat.pos_of_ne_zero hasCuts, few⟩
    · rename_i hasCuts many
      have enough : searchMinCuts ≤ cuts := by
        simp only [linearMaxCuts] at many
        simp only [searchMinCuts]
        omega
      split
      · rename_i size found
        have known : tableSizes.contains size = true := by
          rw [List.contains_iff_mem]
          exact List.mem_of_find?_eq_some found
        have holds := List.find?_some found
        split
        · simp only [supports, known, holds, Bool.and_self]
        · simpa [supports] using enough
      · simpa [supports] using enough

private theorem foldl_counted (cuts : List Double) (value : Double) (bin : Nat) :
    cuts.foldl (fun bin cut => bin + if cut.lessEq value then 1 else 0) bin =
      bin + reached cuts value := by
  induction cuts generalizing bin with
  | nil => rfl
  | cons cut cuts ih =>
    rw [List.foldl_cons, ih, reached, reached, List.countP_cons]
    omega

theorem countedBin_eq (cuts : List Double) (value : Double) :
    countedBin cuts value = referenceBin value cuts := by
  rw [countedBin, foldl_counted]
  rfl

private theorem missingBin_eq (value : Double) :
    (if value.isNaN then 0 else 1) = referenceBin value [] := rfl

private theorem bins_eq_referenceBins {cuts : List Double} (valid : ValidCuts cuts)
    {regime : Regime} (supported : regime.supports cuts.length = true) (values : List Double) :
    regime.bins values cuts = referenceBins values cuts := by
  cases regime with
  | missing =>
    have noCuts : cuts = [] := List.eq_nil_of_length_eq_zero (by simpa [supports] using supported)
    subst noCuts
    exact List.map_congr_left fun value _ => missingBin_eq value
  | linear => exact List.map_congr_left fun value _ => countedBin_eq cuts value
  | padded slots =>
    simp only [supports, Bool.and_eq_true, decide_eq_true_eq, List.contains_iff_mem] at supported
    obtain ⟨known, holds⟩ := supported
    exact List.map_congr_left fun value _ => Table.bin_ofCuts valid known holds value
  | search =>
    have enough : searchMinCuts ≤ cuts.length := by simpa [supports] using supported
    exact List.map_congr_left fun value _ => searchBin_toArray valid enough value

end Regime

namespace Binning

def referenceCells (t : BinType) (values cuts : List Double) : List Int :=
  (referenceBins values cuts).map t.ofBin

theorem cellsBy_eq {cuts : List Double} (valid : ValidCuts cuts) {regime : Regime}
    (supported : regime.supports cuts.length = true) (t : BinType) (values : List Double) :
    cellsBy regime t values cuts = .ok (referenceCells t values cuts) := by
  rw [cellsBy, cutFault?_of_valid valid, Regime.bins_eq_referenceBins valid supported]
  rfl

theorem cells_eq {cuts : List Double} (valid : ValidCuts cuts) (t : BinType)
    (values : List Double) : cells t values cuts = .ok (referenceCells t values cuts) :=
  cellsBy_eq valid (Regime.supports_select _ _) t values

private theorem le_max_of_mem_referenceBins {t : BinType} {values cuts : List Double}
    (room : cuts.length < t.max) {bin : Nat} (member : bin ∈ referenceBins values cuts) :
    bin ≤ t.max := by
  obtain ⟨value, -, rfl⟩ := List.mem_map.mp member
  have most := referenceBin_le value cuts
  omega

theorem map_binOfCell_referenceCells {t : BinType} {cuts : List Double}
    (room : cuts.length < t.max) (values : List Double) :
    (referenceCells t values cuts).map binOfCell = referenceBins values cuts := by
  rw [referenceCells, List.map_map]
  calc (referenceBins values cuts).map (binOfCell ∘ t.ofBin)
    _ = (referenceBins values cuts).map id := List.map_congr_left fun bin member =>
      BinType.binOfCell_ofBin (le_max_of_mem_referenceBins room member)
    _ = referenceBins values cuts := List.map_id _

private theorem holds_of_mem_referenceCells {t : BinType} {values cuts : List Double}
    (room : cuts.length < t.max) : ∀ cell ∈ referenceCells t values cuts, t.Holds cell := by
  intro cell member
  obtain ⟨bin, inBins, rfl⟩ := List.mem_map.mp member
  exact BinType.holds_ofBin (le_max_of_mem_referenceBins room inBins)

/-- What counting says about the result of a request: it is rejected if the lengths differ or the
type has no room, without a change to the cells; otherwise the cells are values of the type that
store the reference bins. -/
structure MatchesReference (t : BinType) (values cuts : List Double) (bins : List Int)
    (r : BinningResult (List Int)) : Prop where
  mismatched : values.length ≠ bins.length →
    r.ending = .error (.rejected (.lengthMismatch values.length bins.length)) ∧ r.bins = bins
  crowded : values.length = bins.length → t.max ≤ cuts.length →
    r.ending = .error (.rejected (.noRoomForMissingBin cuts.length)) ∧ r.bins = bins
  assigned : values.length = bins.length → cuts.length < t.max →
    r.ending = .ok () ∧ r.bins.map binOfCell = referenceBins values cuts ∧
      ∀ cell ∈ r.bins, t.Holds cell

private theorem matchesReference_settle (t : BinType) {values cuts : List Double}
    (bins : List Int) (fitsValues : FitsMemory 8 values.length)
    (fitsCuts : FitsMemory 8 cuts.length) :
    MatchesReference t values cuts bins
      (.settle bins <|
        match checkLengths t values.length cuts.length bins.length with
        | .error e => .error (.rejected e)
        | .ok () => .ok (referenceCells t values cuts)) := by
  rw [checkLengths_eq t fitsValues fitsCuts]
  constructor
  · intro differ
    rw [if_pos differ]
    exact ⟨rfl, rfl⟩
  · intro lengths full
    rw [if_neg (not_not_intro lengths), if_pos full]
    exact ⟨rfl, rfl⟩
  · intro lengths room
    rw [if_neg (not_not_intro lengths), if_neg (Nat.not_le.mpr room)]
    exact ⟨rfl, map_binOfCell_referenceCells room values, holds_of_mem_referenceCells room⟩

/-- Requests over buffers in memory with valid cuts assign the reference bins, under the selected
regime and under every regime that supports the cuts, and the selected regime always does. -/
theorem requests_match_reference (t : BinType) {values cuts : List Double} {bins : List Int}
    (valid : ValidCuts cuts) (fitsValues : FitsMemory 8 values.length)
    (fitsCuts : FitsMemory 8 cuts.length) :
    MatchesReference t values cuts bins (discretize t values cuts bins) ∧
      (∀ regime : Regime, regime.supports cuts.length = true →
        MatchesReference t values cuts bins (discretizeBy regime t values cuts bins)) ∧
      ∀ cutCount valueCount, (Regime.select cutCount valueCount).supports cutCount = true := by
  have settled := matchesReference_settle t bins fitsValues fitsCuts
  refine ⟨?_, ?_, Regime.supports_select⟩
  · rw [discretize, cells_eq valid]
    exact settled
  · intro regime supported
    rw [discretizeBy, if_pos supported, cellsBy_eq valid supported]
    exact settled

theorem requests_match_reference_of_seven_cuts :
    let cuts : List Double := [-3, -2, -1, 0, 1, 2, 3]
    let values : List Double := [.nan, .infinity true, .infinity false, 1, 0.5]
    let bins : List Int := [7, 7, 7, 7, 7]
    let t : BinType := .signed .w8
    ValidCuts cuts ∧ FitsMemory 8 values.length ∧ FitsMemory 8 cuts.length ∧
      MatchesReference t values cuts bins (discretize t values cuts bins) ∧
      (∀ regime : Regime, regime.supports cuts.length = true →
        MatchesReference t values cuts bins (discretizeBy regime t values cuts bins)) ∧
      ∀ cutCount valueCount, (Regime.select cutCount valueCount).supports cutCount = true := by
  intro cuts values bins t
  have valid : ValidCuts cuts := ⟨by decide, by decide⟩
  have fitsValues : FitsMemory 8 values.length := by decide
  have fitsCuts : FitsMemory 8 cuts.length := by decide
  exact ⟨valid, fitsValues, fitsCuts, requests_match_reference t valid fitsValues fitsCuts⟩

end Binning

end Boosting
