/- Binning of matrices.
   The causes to refuse a request by columns again form one list in the order of the checks. A
   request that gives none has both matrices row by row in storage, so the task of a feature
   writes the row of that feature and the tasks cover the matrix. Every cell then holds the
   reference bin of the value beside it under the cuts of its own row, in whatever order the
   tasks run. -/

import Boosting.Proofs.Binning.Refusals
import Boosting.Proofs.Binning.Storage

set_option autoImplicit false
set_option relaxedAutoImplicit false

namespace Boosting

/-- A matrix as memory can hold it: a signed machine word counts the bytes of its entries, and the
length of a row even if there are no rows. -/
structure Matrix.InMemory {α : Type} (bytes : Nat) (m : Matrix α) : Prop where
  length : m.storage.length = m.shape.rows * m.shape.columns
  fits : Binning.FitsMemory bytes (m.shape.rows * m.shape.columns)
  axis : m.shape.columns < Binning.addressSpace / 2

namespace Binning

def crowdedCauses (t : BinType) (cutSets : List (List Double)) : List Cause :=
  cutSets.map fun cuts => ⟨t.max ≤ cuts.length, .noRoomForMissingBin cuts.length⟩

def countCauses (t : BinType) (features bins : Shape) (cutSets : List (List Double)) : List Cause :=
  ⟨bins ≠ features, .shapeMismatch features bins⟩ ::
    ⟨cutSets.length ≠ features.rows, .cutSetCount features.rows cutSets.length⟩ ::
      (crowdedCauses t cutSets ++
        [⟨addressSpace ≤ features.columns * 8, .sampleBufferOverflow features.columns 8⟩])

def layoutCauses (features : Matrix Double) (bins : Matrix Int) : List Cause :=
  [⟨¬ features.layout.RowByRow features.shape, .nonContiguous .feature⟩,
    ⟨¬ bins.layout.RowByRow bins.shape, .nonContiguous .bin⟩]

def columnCauses (t : BinType) (features : Matrix Double) (cutSets : List (List Double))
    (bins : Matrix Int) : List Cause :=
  countCauses t features.shape bins.shape cutSets ++ layoutCauses features bins

private theorem checkCutSets_eq (t : BinType) {cutSets : List (List Double)}
    (fits : ∀ cuts ∈ cutSets, FitsMemory 8 cuts.length) :
    checkCutSets t cutSets = judge (crowdedCauses t cutSets) () := by
  have max := t.max_pos
  induction cutSets with
  | nil => rfl
  | cons cuts rest ih =>
    obtain ⟨first, others⟩ := List.forall_mem_cons.mp fits
    unfold FitsMemory at first
    rw [crowdedCauses, List.map_cons, judge_cons, ← crowdedCauses, ← ih others, checkCutSets]
    by_cases empty : cuts.isEmpty
    · have noCuts : cuts.length = 0 := List.length_eq_zero_iff.mpr (List.isEmpty_iff.mp empty)
      have room : ¬ t.max ≤ cuts.length := by omega
      simp [empty, room]
    · rw [if_neg empty, checkCutCount_natCast t (by omega)]
      by_cases full : t.max ≤ cuts.length
      · simp [full]
      · simp [full]

private theorem checkColumns_eq (t : BinType) {features bins : Shape} {cutSets : List (List Double)}
    (fits : ∀ cuts ∈ cutSets, FitsMemory 8 cuts.length)
    (axis : features.columns < addressSpace / 2) :
    checkColumns t features bins cutSets = judge (countCauses t features bins cutSets) () := by
  have checked : judge (crowdedCauses t cutSets) () >>= (fun _ =>
      checkSampleCount t features.columns >>= fun _ => pure ()) =
        judge (crowdedCauses t cutSets ++
          [⟨addressSpace ≤ features.columns * 8,
            .sampleBufferOverflow features.columns 8⟩]) () := by
    rw [checkSampleCount_of_word t axis]
    exact judge_bind (judge_map _ _ _)
  rw [checkColumns, countCauses, judge_cons, judge_cons, checkCutSets_eq t fits]
  simp only [decide_eq_true_eq]
  rw [← checked]
  cases judge (crowdedCauses t cutSets) () with
  | error _ => rfl
  | ok _ => cases checkSampleCount t features.columns <;> rfl

structure Acceptable (t : BinType) (features : Matrix Double) (cutSets : List (List Double))
    (bins : Matrix Int) : Prop where
  shape : bins.shape = features.shape
  eachRow : cutSets.length = features.shape.rows
  room : ∀ cuts ∈ cutSets, cuts ≠ [] → cuts.length < t.max
  size : 8 * features.shape.columns < addressSpace
  stored : features.shape.columns = 0 ∨
    features.layout.RowByRow features.shape ∧ bins.layout.RowByRow bins.shape

private theorem Acceptable.room_of_mem {t : BinType} {features : Matrix Double}
    {cutSets : List (List Double)} {bins : Matrix Int}
    (acceptable : Acceptable t features cutSets bins) {cuts : List Double}
    (member : cuts ∈ cutSets) : cuts.length < t.max := by
  by_cases empty : cuts = []
  · rw [empty]
    exact t.max_pos
  · exact acceptable.room cuts member empty

private theorem rowByRow_of_no_column (layout : Layout) {s : Shape} (noColumn : s.columns = 0) :
    layout.RowByRow s := by
  intro row _ column inColumns
  omega

private theorem firstCause_eq_none_iff_acceptable (t : BinType) (features : Matrix Double)
    (cutSets : List (List Double)) (bins : Matrix Int) :
    firstCause (columnCauses t features cutSets bins) = none ↔
      Acceptable t features cutSets bins := by
  rw [firstCause_eq_none_iff, columnCauses, countCauses, layoutCauses, crowdedCauses]
  simp only [List.cons_append, List.forall_mem_cons, List.forall_mem_append, List.forall_mem_map,
    List.not_mem_nil, false_imp_iff, implies_true, and_true, decide_eq_false_iff_not, not_not,
    Nat.not_le]
  constructor
  · rintro ⟨shape, eachRow, ⟨room, size⟩, first, second⟩
    refine ⟨shape, eachRow, fun cuts member _ => room cuts member, by omega, Or.inr ⟨first, second⟩⟩
  · intro acceptable
    have size := acceptable.size
    refine ⟨acceptable.shape, acceptable.eachRow,
      ⟨fun cuts member => acceptable.room_of_mem member, by omega⟩, ?_⟩
    rcases acceptable.stored with noColumn | rows
    · have noCell : bins.shape.columns = 0 := by rw [acceptable.shape, noColumn]
      exact ⟨rowByRow_of_no_column _ noColumn, rowByRow_of_no_column _ noCell⟩
    · exact rows

section Rows

variable {t : BinType} {samples : Nat} {values : List Double} {cutSets : List (List Double)}

def columnCells (t : BinType) (samples : Nat) (values : List Double)
    (cutSets : List (List Double)) : List Int :=
  values.mapIdx fun i value => t.ofBin (referenceBin value (cutSets.getD (i / samples) []))

private theorem length_columnCells :
    (columnCells t samples values cutSets).length = values.length :=
  List.length_mapIdx

private theorem getElem?_columnCells (i : Nat) :
    (columnCells t samples values cutSets)[i]? =
      values[i]?.map fun value => t.ofBin (referenceBin value (cutSets.getD (i / samples) [])) :=
  List.getElem?_mapIdx

private theorem mem_rowTasks_iff (pos : 0 < samples) (task : Task) :
    task ∈ rowTasks samples values cutSets ↔
      ∃ row cuts, row * samples < values.length ∧ cutSets[row]? = some cuts ∧
        task = ⟨row * samples, excerpt (row * samples) samples values, cuts⟩ := by
  simp only [rowTasks, List.mem_map, Prod.exists, List.mem_zipIdx_iff_getElem?,
    List.getElem?_zip_eq_some, getElem?_segments pos]
  constructor
  · rintro ⟨piece, cuts, row, ⟨found, own⟩, rfl⟩
    split at found
    · rename_i inside
      obtain rfl := Option.some.inj found
      exact ⟨row, cuts, inside, own, rfl⟩
    · cases found
  · rintro ⟨row, cuts, inside, own, rfl⟩
    exact ⟨_, cuts, row, ⟨if_pos inside, own⟩, rfl⟩

private theorem row_div {row column : Nat} (inside : column < samples) :
    (row * samples + column) / samples = row := by
  have pos : 0 < samples := by omega
  rw [Nat.mul_comm, Nat.mul_add_div pos, Nat.div_eq_of_lt inside, Nat.add_zero]

private theorem writes_of_mem_rowTasks (pos : 0 < samples)
    (valid : ∀ cuts ∈ cutSets, ValidCuts cuts)
    {task : Task} (member : task ∈ rowTasks samples values cutSets) :
    task.Writes t (columnCells t samples values cutSets) := by
  obtain ⟨row, cuts, inside, own, rfl⟩ := (mem_rowTasks_iff pos task).mp member
  have short : (excerpt (row * samples) samples values).length ≤ samples := List.length_take_le _ _
  constructor
  · rw [length_columnCells]
    exact excerpt_inside (Nat.le_of_lt inside) samples
  · rw [cells_eq (valid cuts (List.mem_of_getElem? own))]
    apply congrArg Except.ok
    apply List.ext_getElem?
    intro i
    show (referenceCells t (excerpt (row * samples) samples values) cuts)[i]? =
      (excerpt (row * samples) (excerpt (row * samples) samples values).length
        (columnCells t samples values cutSets))[i]?
    rw [getElem?_excerpt, referenceCells, referenceBins, List.getElem?_map, List.getElem?_map]
    by_cases within : i < (excerpt (row * samples) samples values).length
    · rw [if_pos within, getElem?_columnCells, getElem?_excerpt, if_pos (by omega),
        row_div (by omega), List.getD_eq_getElem?_getD, own, Option.map_map]
      rfl
    · rw [if_neg within, List.getElem?_eq_none (by omega)]
      rfl

private theorem exists_row_covers (rows : values.length = cutSets.length * samples) {i : Nat}
    (inside : i < values.length) : ∃ task ∈ rowTasks samples values cutSets, task.Covers i := by
  have pos : 0 < samples := by
    rcases Nat.eq_zero_or_pos samples with empty | pos
    · rw [empty, Nat.mul_zero] at rows
      omega
    · exact pos
  have start : i / samples * samples ≤ i := Nat.div_mul_le_self i samples
  have row : i / samples < cutSets.length := by
    rw [rows, Nat.mul_comm] at inside
    exact Nat.div_lt_of_lt_mul inside
  have own : cutSets[i / samples]? = some cutSets[i / samples] := List.getElem?_eq_getElem row
  refine ⟨_, (mem_rowTasks_iff pos _).mpr ⟨i / samples, _, by omega, own, rfl⟩, ?_⟩
  exact covers_quotient pos _ inside

private theorem dispatch_rowTasks (pos : 0 < samples) (valid : ∀ cuts ∈ cutSets, ValidCuts cuts)
    (rows : values.length = cutSets.length * samples) {bins : List Int}
    (length : bins.length = values.length) {order : List Task → List Task}
    (each : ∀ tasks, (order tasks).Perm tasks) (workers : Workers) :
    dispatch t workers order (rowTasks samples values cutSets) bins =
      ⟨.ok (), columnCells t samples values cutSets⟩ := by
  refine dispatch_eq ?_ ?_ ?_ each workers
  · intro task member
    exact writes_of_mem_rowTasks pos valid member
  · intro i inside
    rw [length_columnCells] at inside
    exact exists_row_covers rows inside
  · rw [length, length_columnCells]

end Rows

/-- Every cell holds the reference bin of the entry beside it, under the cuts of its row. -/
structure Binned (t : BinType) (features : Matrix Double) (cutSets : List (List Double))
    (before after : Matrix Int) : Prop where
  shape : after.shape = before.shape
  layout : after.layout = before.layout
  length : after.storage.length = before.storage.length
  cells : ∀ row < features.shape.rows, ∀ column < features.shape.columns, ∃ value cuts cell,
    features.get? row column = some value ∧ cutSets[row]? = some cuts ∧
      after.get? row column = some cell ∧ t.Holds cell ∧ binOfCell cell = referenceBin value cuts

section Outcomes

variable {t : BinType} {features : Matrix Double} {cutSets : List (List Double)}
  {bins : Matrix Int}

private theorem shape_eq_of_no_cause {features bins : Shape}
    (passed : firstCause (countCauses t features bins cutSets) = none) : bins = features := by
  have shape := (firstCause_eq_none_iff _).mp passed _ List.mem_cons_self
  simpa using shape

private theorem discretizeColumns_of_cause (fits : ∀ cuts ∈ cutSets, FitsMemory 8 cuts.length)
    (axis : features.shape.columns < addressSpace / 2) {e : BinningError}
    (first : firstCause (columnCauses t features cutSets bins) = some e) (workers : Workers)
    (order : List Task → List Task) :
    discretizeColumns t features cutSets bins workers order = ⟨.error (.rejected e), bins⟩ := by
  rw [columnCauses, firstCause_append] at first
  rw [discretizeColumns, checkColumns_eq t fits axis, judge]
  cases counts : firstCause (countCauses t features.shape bins.shape cutSets) with
  | some _ =>
    rw [counts] at first
    obtain rfl := Option.some.inj first
    rfl
  | none =>
    have shape := shape_eq_of_no_cause counts
    rw [counts, Option.none_or, layoutCauses, firstCause] at first
    have columns : features.shape.columns ≠ 0 := by
      intro noColumn
      have noCell : bins.shape.columns = 0 := by rw [shape, noColumn]
      simp [rowByRow_of_no_column _ noColumn, rowByRow_of_no_column _ noCell] at first
    simp only [if_neg columns]
    by_cases values : features.layout.RowByRow features.shape
    · by_cases cells : bins.layout.RowByRow bins.shape
      · simp [values, cells] at first
      · obtain rfl : .nonContiguous .bin = e := by simpa [values, cells] using first
        rw [Matrix.flat?_eq_some values, Matrix.flat?_eq_none cells]
    · obtain rfl : .nonContiguous .feature = e := by simpa [values] using first
      rw [Matrix.flat?_eq_none values]

private theorem place_lt {rows samples row column : Nat} (inRows : row < rows)
    (inColumns : column < samples) :
    row * samples + column < rows * samples := by
  have whole : (row + 1) * samples ≤ rows * samples := Nat.mul_le_mul_right samples inRows
  rw [Nat.succ_mul] at whole
  omega

private theorem binned_columnCells (acceptable : Acceptable t features cutSets bins)
    (length : features.storage.length = features.shape.rows * features.shape.columns)
    (cells : bins.storage.length = features.storage.length)
    (values : features.layout.RowByRow features.shape) (stored : bins.layout.RowByRow bins.shape) :
    Binned t features cutSets bins
      { bins with storage := columnCells t features.shape.columns features.storage cutSets } := by
  have shape := acceptable.shape
  have eachRow := acceptable.eachRow
  refine ⟨rfl, rfl, by rw [length_columnCells, cells], ?_⟩
  intro row inRows column inColumns
  have inside := place_lt inRows inColumns
  rw [← length] at inside
  rw [← eachRow] at inRows
  obtain ⟨value, hasValue⟩ : ∃ value, features.storage[row * features.shape.columns + column]? =
      some value := ⟨_, List.getElem?_eq_getElem inside⟩
  obtain ⟨cuts, own⟩ : ∃ cuts, cutSets[row]? = some cuts := ⟨_, List.getElem?_eq_getElem inRows⟩
  rw [eachRow] at inRows
  have room := acceptable.room_of_mem (List.mem_of_getElem? own)
  have least := Nat.le_trans (referenceBin_le value cuts) room
  refine ⟨value, cuts, t.ofBin (referenceBin value cuts), ?_, own, ?_, BinType.holds_ofBin least,
    BinType.binOfCell_ofBin least⟩
  · rw [Matrix.get?_of_rowByRow values inRows inColumns, hasValue]
  · rw [← shape] at inRows inColumns
    have placed := Matrix.get?_of_rowByRow
      (m := { bins with storage := columnCells t features.shape.columns features.storage cutSets })
      stored inRows inColumns
    rw [shape] at inColumns
    rw [placed, getElem?_columnCells, shape, hasValue, row_div inColumns,
      List.getD_eq_getElem?_getD, own]
    rfl

theorem discretizeColumns_of_acceptable (fits : ∀ cuts ∈ cutSets, FitsMemory 8 cuts.length)
    (valid : ∀ cuts ∈ cutSets, ValidCuts cuts) (axis : features.shape.columns < addressSpace / 2)
    (values : features.storage.length = features.shape.rows * features.shape.columns)
    (cells : bins.storage.length = bins.shape.rows * bins.shape.columns)
    (acceptable : Acceptable t features cutSets bins) {order : List Task → List Task}
    (each : ∀ tasks, (order tasks).Perm tasks) (workers : Workers) :
    ∃ after, discretizeColumns t features cutSets bins workers order = ⟨.ok (), after⟩ ∧
      Binned t features cutSets bins after := by
  have accepted := (firstCause_eq_none_iff_acceptable t features cutSets bins).mpr acceptable
  rw [columnCauses, firstCause_append, Option.or_eq_none_iff] at accepted
  rw [discretizeColumns, checkColumns_eq t fits axis, judge, accepted.1]
  rcases Nat.eq_zero_or_pos features.shape.columns with noColumn | pos
  · refine ⟨bins, by simp only [if_pos noColumn], rfl, rfl, rfl, ?_⟩
    intro row _ column inColumns
    omega
  · obtain ⟨valueRows, cellRows⟩ := acceptable.stored.resolve_left (Nat.ne_of_gt pos)
    have length : bins.storage.length = features.storage.length := by
      rw [cells, values, acceptable.shape]
    have rows : features.storage.length = cutSets.length * features.shape.columns := by
      rw [values, acceptable.eachRow]
    refine ⟨_, ?_, binned_columnCells acceptable values length valueRows cellRows⟩
    simp only [if_neg (Nat.ne_of_gt pos), Matrix.flat?_eq_some valueRows,
      Matrix.flat?_eq_some cellRows, dispatch_rowTasks pos valid rows length each]

end Outcomes

/-- With valid cuts and everything in memory, a request by columns that is acceptable bins every
cell, and any other writes none and fails with its first cause. Only a matrix without rows can have
too many samples. -/
theorem columns_binned_or_refused (t : BinType) {features : Matrix Double}
    {cutSets : List (List Double)} {bins : Matrix Int} (values : features.InMemory 8)
    (cells : bins.InMemory t.bytes) (fits : ∀ cuts ∈ cutSets, FitsMemory 8 cuts.length)
    (valid : ∀ cuts ∈ cutSets, ValidCuts cuts) {order : List Task → List Task}
    (each : ∀ tasks, (order tasks).Perm tasks) (workers : Workers) :
    let result := discretizeColumns t features cutSets bins workers order
    (result.ending = .ok () ↔ Acceptable t features cutSets bins) ∧
      (0 < features.shape.rows → 8 * features.shape.columns < addressSpace) ∧
      (result.ending = .ok () → Binned t features cutSets bins result.bins) ∧
      (result.ending ≠ .ok () → result.bins = bins ∧
        ∃ e, firstCause (columnCauses t features cutSets bins) = some e ∧
          result.ending = .error (.rejected e)) := by
  intro result
  have small : 0 < features.shape.rows → 8 * features.shape.columns < addressSpace := by
    intro pos
    have one : features.shape.columns ≤ features.shape.rows * features.shape.columns :=
      Nat.le_mul_of_pos_left _ pos
    have size := values.fits
    unfold FitsMemory at size
    omega
  have decided := firstCause_eq_none_iff_acceptable t features cutSets bins
  cases first : firstCause (columnCauses t features cutSets bins) with
  | none =>
    have acceptable := decided.mp first
    obtain ⟨after, answered, binned⟩ := discretizeColumns_of_acceptable fits valid values.axis
      values.length cells.length acceptable each workers
    have outcome : result = ⟨.ok (), after⟩ := answered
    rw [outcome]
    exact ⟨iff_of_true rfl acceptable, small, fun _ => binned, fun failed => absurd rfl failed⟩
  | some e =>
    have outcome : result = ⟨.error (.rejected e), bins⟩ :=
      discretizeColumns_of_cause fits values.axis first workers order
    have refused : ¬ Acceptable t features cutSets bins := by
      rw [← decided, first]
      exact Option.some_ne_none e
    rw [outcome]
    have fails : (⟨.error (.rejected e), bins⟩ : BinningResult (Matrix Int)).ending ≠ .ok () := by
      intro answered
      cases answered
    exact ⟨iff_of_false fails refused, small, fun answered => absurd answered fails,
      fun _ => ⟨rfl, e, rfl, rfl⟩⟩

theorem columns_binned_of_two_features :
    let features : Matrix Double := ⟨⟨2, 3⟩, .rowMajor, [0.5, 2, .nan, 10, -10, 0]⟩
    let cutSets : List (List Double) := [[1], [0, 5]]
    let bins : Matrix Int := ⟨⟨2, 3⟩, .rowMajor, [0, 0, 0, 0, 0, 0]⟩
    let t : BinType := .unsigned .w16
    let workers : Workers := ⟨.parallel, 2⟩
    let result := discretizeColumns t features cutSets bins workers List.reverse
    features.InMemory 8 ∧ bins.InMemory t.bytes ∧
      (∀ cuts ∈ cutSets, FitsMemory 8 cuts.length) ∧ (∀ cuts ∈ cutSets, ValidCuts cuts) ∧
      (∀ tasks : List Task, tasks.reverse.Perm tasks) ∧ Acceptable t features cutSets bins ∧
      result.ending = .ok () ∧ Binned t features cutSets bins result.bins ∧
      result.bins.storage = [1, 2, 0, 3, 1, 2] := by
  intro features cutSets bins t workers result
  have values : features.InMemory 8 := ⟨rfl, by decide, by decide⟩
  have cells : bins.InMemory t.bytes := ⟨rfl, by decide, by decide⟩
  have fits : ∀ cuts ∈ cutSets, FitsMemory 8 cuts.length := by decide
  have valid : ∀ cuts ∈ cutSets, ValidCuts cuts := by
    refine List.forall_mem_cons.mpr ⟨⟨by decide, by decide⟩, ?_⟩
    exact List.forall_mem_singleton.mpr ⟨by decide, by decide⟩
  have each : ∀ tasks : List Task, tasks.reverse.Perm tasks := List.reverse_perm
  have acceptable : Acceptable t features cutSets bins :=
    ⟨rfl, rfl, by decide, by decide, Or.inr ⟨by decide, by decide⟩⟩
  obtain ⟨accepts, -, binned, -⟩ := columns_binned_or_refused t values cells fits valid each workers
  have answered : result.ending = .ok () := accepts.mpr acceptable
  exact ⟨values, cells, fits, valid, each, acceptable, answered, binned answered, by decide⟩

end Binning

end Boosting
