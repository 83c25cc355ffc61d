/- What a request does to one value.
   Values are binned whole, by a given regime, in tasks, by counts or as a row of a matrix, into
   cells of any type. The requests differ in what they check and in how they reach a cell, but
   not in the outcome: a request that is accepted puts every value that it looks at into its
   reference bin. -/

import Boosting.Proofs.Binning.Columns

set_option autoImplicit false
set_option relaxedAutoImplicit false

namespace Boosting

def BinningResult.bin? {Cells : Type} (r : BinningResult Cells) (cell? : Cells → Option Int) :
    Option Nat :=
  match r.ending with
  | .ok () => (cell? r.bins).map binOfCell
  | .error _ => none

namespace Binning

/-- A request to bin values by one of the entry points; a matrix is looked at in one of its rows. -/
inductive Request where
  | whole (t : BinType) (values : List Double) (bins : List Int)
  | byRegime (regime : Regime) (t : BinType) (values : List Double) (bins : List Int)
  | inTasks (t : BinType) (values : List Double) (bins : List Int) (workers : Workers)
    (minChunk : Nat) (order : List Task → List Task)
  | byCounts (t : BinType) (raw : RawRequest)
  | byColumns (t : BinType) (features : Matrix Double) (cutSets : List (List Double))
    (bins : Matrix Int) (workers : Workers) (order : List Task → List Task) (row : Nat)

structure Fitting (t : BinType) (values cuts : List Double) (bins : List Int) : Prop where
  length : bins.length = values.length
  room : cuts.length < t.max
  fitsValues : FitsMemory 8 values.length
  fitsCuts : FitsMemory 8 cuts.length

namespace Request

def value? : Request → Nat → Option Double
  | whole _ values _, i => values[i]?
  | byRegime _ _ values _, i => values[i]?
  | inTasks _ values _ _ _ _, i => values[i]?
  | byCounts _ raw, i => if i < raw.countSamples then (raw.values.getD [])[i]? else none
  | byColumns _ features _ _ _ _ row, i =>
    if row < features.shape.rows ∧ i < features.shape.columns then features.get? row i else none

/-- The bin that a request with some cuts leaves at a position. Requests by counts and by columns
bring their own cuts. -/
def bin? (cuts : List Double) : Request → Nat → Option Nat
  | whole t values bins, i => (discretize t values cuts bins).bin? fun cells => cells[i]?
  | byRegime regime t values bins, i =>
    (discretizeBy regime t values cuts bins).bin? fun cells => cells[i]?
  | inTasks t values bins workers minChunk order, i =>
    (discretizeInTasks t values cuts bins workers minChunk order).bin? fun cells => cells[i]?
  | byCounts t raw, i => (discretizeRaw t raw).result.bin? fun cells => (cells.getD [])[i]?
  | byColumns t features cutSets bins workers order row, i =>
    (discretizeColumns t features cutSets bins workers order).bin? fun cells => cells.get? row i

/-- A request that passes its checks and uses the cuts. Tasks run once each, in any order. -/
def Accepted (cuts : List Double) : Request → Prop
  | whole t values bins => Fitting t values cuts bins
  | byRegime regime t values bins =>
    Fitting t values cuts bins ∧ regime.supports cuts.length = true
  | inTasks t values bins _ _ order =>
    Fitting t values cuts bins ∧ ∀ tasks, (order tasks).Perm tasks
  | byCounts t raw =>
    raw.countSamples < addressSpace / 2 ∧ firstCause (raw.causes t) = none ∧ raw.leadingCuts = cuts
  | byColumns t features cutSets bins _ order row =>
    features.InMemory 8 ∧ bins.InMemory t.bytes ∧ (∀ set ∈ cutSets, FitsMemory 8 set.length) ∧
      (∀ set ∈ cutSets, ValidCuts set) ∧ (∀ tasks, (order tasks).Perm tasks) ∧
      Acceptable t features cutSets bins ∧ cutSets[row]? = some cuts

end Request

section Answers

variable {t : BinType} {values cuts : List Double} {bins : List Int}

theorem discretize_of_fitting (valid : ValidCuts cuts) (fitting : Fitting t values cuts bins) :
    discretize t values cuts bins = ⟨.ok (), referenceCells t values cuts⟩ :=
  discretize_of_room valid fitting.room fitting.length fitting.fitsValues fitting.fitsCuts

private theorem discretizeBy_of_fitting (valid : ValidCuts cuts)
    (fitting : Fitting t values cuts bins)
    {regime : Regime} (supported : regime.supports cuts.length = true) :
    discretizeBy regime t values cuts bins = ⟨.ok (), referenceCells t values cuts⟩ := by
  have answered := discretize_of_fitting valid fitting
  rw [discretize, cells_eq valid] at answered
  rw [discretizeBy, if_pos supported, cellsBy_eq valid supported]
  exact answered

private theorem binAt_referenceCells (room : cuts.length < t.max) {i : Nat} {value : Double}
    (hasValue : values[i]? = some value) :
    (referenceCells t values cuts)[i]?.map binOfCell = some (referenceBin value cuts) := by
  have least := Nat.le_trans (referenceBin_le value cuts) room
  rw [referenceCells, referenceBins, List.getElem?_map, List.getElem?_map, hasValue]
  exact congrArg some (BinType.binOfCell_ofBin least)

end Answers

theorem Request.bin?_eq {cuts : List Double} (valid : ValidCuts cuts) {r : Request}
    (accepted : r.Accepted cuts) {i : Nat} {value : Double} (hasValue : r.value? i = some value) :
    r.bin? cuts i = some (referenceBin value cuts) := by
  cases r with
  | whole t values bins =>
    rw [bin?, discretize_of_fitting valid accepted]
    exact binAt_referenceCells accepted.room hasValue
  | byRegime regime t values bins =>
    obtain ⟨fitting, supported⟩ := accepted
    rw [bin?, discretizeBy_of_fitting valid fitting supported]
    exact binAt_referenceCells fitting.room hasValue
  | inTasks t values bins workers minChunk order =>
    obtain ⟨fitting, each⟩ := accepted
    rw [bin?, discretizeInTasks_of_valid t bins valid workers minChunk each,
      discretize_of_fitting valid fitting]
    exact binAt_referenceCells fitting.room hasValue
  | byCounts t raw =>
    obtain ⟨word, noCause, rfl⟩ := accepted
    rw [value?] at hasValue
    split at hasValue
    · rename_i inside
      have pos : 0 < raw.countSamples := by omega
      obtain ⟨known, before, supported⟩ := RawRequest.exists_supported noCause pos
      obtain ⟨value', cell, valueAt, cellAt, -, bin⟩ := supported.overwritten.front i inside
      rw [supported.hasValues, Option.getD_some, valueAt] at hasValue
      obtain rfl := Option.some.inj hasValue
      show (raw.run t).bin? (fun cells => (cells.getD [])[i]?) = _
      rw [RawRequest.run_of_accepted noCause word pos valid, BinningResult.bin?, Option.getD_some,
        cellAt, ← bin]
      rfl
    · cases hasValue
  | byColumns t features cutSets bins workers order row =>
    obtain ⟨values, cells, fits, sets, each, acceptable, own⟩ := accepted
    rw [value?] at hasValue
    split at hasValue
    · rename_i inside
      obtain ⟨after, answered, binned⟩ := discretizeColumns_of_acceptable fits sets values.axis
        values.length cells.length acceptable each workers
      obtain ⟨value', cuts', cell, valueAt, own', cellAt, -, bin⟩ :=
        binned.cells row inside.1 i inside.2
      obtain rfl := Option.some.inj (hasValue.symm.trans valueAt)
      obtain rfl := Option.some.inj (own.symm.trans own')
      rw [bin?, answered, BinningResult.bin?, cellAt, ← bin]
      rfl
    · cases hasValue

end Binning

end Boosting
