/- The half-open interval of a bin.
   Any `n` valid cuts divide the numbers into `n + 1` half-open intervals, each closed at its
   lower end. What an accepted request says of a value is the number of its interval, whichever
   request it is, so the bins of two requests may be compared: they differ exactly if a cut lies
   above one value and at or below the other. -/

import Boosting.Proofs.Binning.Requests

set_option autoImplicit false
set_option relaxedAutoImplicit false

namespace Boosting

/-- A cut above the first value and not above the second. -/
def Separates (first cut second : Double) : Prop :=
  first.less cut = true ∧ cut.lessEq second = true

instance (first cut second : Double) : Decidable (Separates first cut second) :=
  inferInstanceAs (Decidable (_ ∧ _))

/-- The numbers of a bin: they reach the cut before it and lie below the cut after it, where there
are such cuts. -/
structure InBin (cuts : List Double) (bin : Nat) (value : Double) : Prop where
  number : value.isNaN = false
  reaches : ∀ cut, 2 ≤ bin → cuts[bin - 2]? = some cut → cut.lessEq value = true
  below : ∀ cut, cuts[bin - 1]? = some cut → value.less cut = true

section Counts

variable {cuts : List Double} {value value' : Double}

private theorem reached_mono (le : value.lessEq value' = true) :
    reached cuts value ≤ reached cuts value' :=
  List.countP_mono_left fun _ _ atMost => Binary.lessEq_trans atMost le

namespace ValidCuts

private theorem lt_reached_iff (valid : ValidCuts cuts) {i : Nat} {cut : Double}
    (cutAt : cuts[i]? = some cut) : i < reached cuts value ↔ cut.lessEq value = true := by
  obtain ⟨inside, rfl⟩ := List.getElem?_eq_some_iff.mp cutAt
  exact (valid.lessEq_iff_lt_reached value i inside).symm

private theorem reached_le_iff (valid : ValidCuts cuts) (number : value.isNaN = false) {i : Nat}
    {cut : Double} (cutAt : cuts[i]? = some cut) :
    reached cuts value ≤ i ↔ value.less cut = true := by
  have finite := valid.finite cut (List.mem_of_getElem? cutAt)
  rw [Binary.less_iff_lessEq_eq_false number (Binary.isNaN_of_isFinite finite),
    ← Bool.not_eq_true, ← valid.lt_reached_iff cutAt, Nat.not_lt]

private theorem reached_lt_reached_iff (valid : ValidCuts cuts) (number : value.isNaN = false) :
    reached cuts value < reached cuts value' ↔ ∃ cut ∈ cuts, Separates value cut value' := by
  constructor
  · intro lt
    have inside := Nat.lt_of_lt_of_le lt (reached_le_length cuts value')
    have cutAt := List.getElem?_eq_getElem inside
    exact ⟨_, List.getElem_mem inside, (valid.reached_le_iff number cutAt).mp (Nat.le_refl _),
      (valid.lt_reached_iff cutAt).mp lt⟩
  · rintro ⟨cut, member, above, atMost⟩
    obtain ⟨i, cutAt⟩ := List.getElem?_of_mem member
    exact Nat.lt_of_le_of_lt ((valid.reached_le_iff number cutAt).mpr above)
      ((valid.lt_reached_iff cutAt).mpr atMost)

private theorem reached_eq_iff (valid : ValidCuts cuts) {bin : Nat} (inside : bin ≤ cuts.length) :
    value.isNaN = false ∧ reached cuts value = bin ↔ InBin cuts (bin + 1) value := by
  constructor
  · rintro ⟨number, rfl⟩
    refine ⟨number, fun cut enough cutAt => ?_, fun cut cutAt => ?_⟩
    · exact (valid.lt_reached_iff cutAt).mp (by omega)
    · exact (valid.reached_le_iff number cutAt).mp (Nat.le_refl _)
  · rintro ⟨number, reaches, below⟩
    refine ⟨number, Nat.le_antisymm ?_ ?_⟩
    · rcases Nat.lt_or_eq_of_le inside with lt | rfl
      · have cutAt := List.getElem?_eq_getElem lt
        exact (valid.reached_le_iff number cutAt).mpr (below _ cutAt)
      · exact reached_le_length cuts value
    · cases bin with
      | zero => exact Nat.zero_le _
      | succ bin =>
        have cutAt := List.getElem?_eq_getElem inside
        exact (valid.lt_reached_iff cutAt).mpr (reaches _ (by omega) cutAt)

private theorem exists_inBin (valid : ValidCuts cuts) {bin : Nat} (inside : bin ≤ cuts.length) :
    ∃ value, InBin cuts (bin + 1) value := by
  cases bin with
  | zero =>
    refine ⟨.infinity true, rfl, fun _ enough => by omega, fun cut cutAt => ?_⟩
    exact Binary.negInfinity_less (valid.finite cut (List.mem_of_getElem? cutAt))
  | succ bin =>
    have number := Binary.isNaN_of_isFinite (valid.finite _ (List.getElem_mem inside))
    refine ⟨cuts[bin], number, fun cut _ cutAt => ?_, fun cut cutAt => ?_⟩
    · obtain rfl := Option.some.inj ((List.getElem?_eq_getElem inside).symm.trans cutAt)
      exact Binary.lessEq_refl number
    · obtain ⟨next, rfl⟩ := List.getElem?_eq_some_iff.mp cutAt
      exact List.pairwise_iff_getElem.mp valid.increasing bin (bin + 1) inside next
        (Nat.lt_succ_self bin)

end ValidCuts

end Counts

section ReferenceBins

variable {cuts : List Double} {value value' : Double}

private theorem referenceBin_eq_zero_iff : referenceBin value cuts = 0 ↔ value.isNaN = true := by
  cases missing : value.isNaN with
  | true => simp [referenceBin_of_isNaN missing]
  | false => simp [referenceBin_of_number missing]

private theorem referenceBin_eq_iff (valid : ValidCuts cuts) {bin : Nat} (pos : 1 ≤ bin)
    (inside : bin ≤ cuts.length + 1) : referenceBin value cuts = bin ↔ InBin cuts bin value := by
  obtain ⟨bin, rfl⟩ := Nat.exists_eq_add_of_le' pos
  rw [← valid.reached_eq_iff (Nat.le_of_succ_le_succ inside)]
  cases missing : value.isNaN with
  | true => simp [referenceBin_of_isNaN missing]
  | false => simp [referenceBin_of_number missing]

private theorem referenceBin_lt_iff (valid : ValidCuts cuts) (number : value.isNaN = false)
    (number' : value'.isNaN = false) :
    referenceBin value cuts < referenceBin value' cuts ↔
      ∃ cut ∈ cuts, Separates value cut value' := by
  rw [referenceBin_of_number number, referenceBin_of_number number', Nat.add_lt_add_iff_right]
  exact valid.reached_lt_reached_iff number

private theorem referenceBin_le_of_lessEq (number : value.isNaN = false)
    (number' : value'.isNaN = false)
    (le : value.lessEq value' = true) : referenceBin value cuts ≤ referenceBin value' cuts := by
  rw [referenceBin_of_number number, referenceBin_of_number number']
  exact Nat.succ_le_succ (reached_mono le)

private theorem referenceBin_eq_referenceBin_iff (valid : ValidCuts cuts)
    (number : value.isNaN = false) (number' : value'.isNaN = false) :
    referenceBin value cuts = referenceBin value' cuts ↔
      ∀ cut ∈ cuts, ¬ Separates value cut value' ∧ ¬ Separates value' cut value := by
  have up := referenceBin_lt_iff valid number number'
  have down := referenceBin_lt_iff valid number' number
  constructor
  · intro shared cut member
    refine ⟨fun separates => ?_, fun separates => ?_⟩
    · exact absurd (up.mpr ⟨cut, member, separates⟩) (by omega)
    · exact absurd (down.mpr ⟨cut, member, separates⟩) (by omega)
  · intro apart
    rcases Nat.lt_trichotomy (referenceBin value cuts) (referenceBin value' cuts)
      with lt | shared | gt
    · obtain ⟨cut, member, separates⟩ := up.mp lt
      exact absurd separates (apart cut member).1
    · exact shared
    · obtain ⟨cut, member, separates⟩ := down.mp gt
      exact absurd separates (apart cut member).2

end ReferenceBins

namespace Binning

def Puts (cuts : List Double) (value : Double) (bin : Nat) : Prop :=
  ∃ r : Request, r.Accepted cuts ∧ ∃ i, r.value? i = some value ∧ r.bin? cuts i = some bin

private theorem Puts.bin_eq {cuts : List Double} (valid : ValidCuts cuts) {value : Double}
    {bin : Nat} (puts : Puts cuts value bin) : bin = referenceBin value cuts := by
  obtain ⟨r, accepted, i, hasValue, result⟩ := puts
  exact Option.some.inj (result.symm.trans (Request.bin?_eq valid accepted hasValue))

/-- Any request accepted with valid cuts gives each of its values a bin, which is `0` for a missing
value and else the number of the interval that the value lies in. The bins of two numbers, by any
two requests, are ordered as the cuts between them tell. Each interval holds a number, and cells of
any type with room for the bins receive its bin. -/
theorem bins_number_intervals {cuts : List Double} (valid : ValidCuts cuts) :
    (∀ r : Request, r.Accepted cuts → ∀ i value, r.value? i = some value →
      ∃ bin, r.bin? cuts i = some bin) ∧
    (∀ value bin, Puts cuts value bin →
      bin ≤ cuts.length + 1 ∧ (bin = 0 ↔ value.isNaN = true) ∧
        ∀ k, 1 ≤ k → k ≤ cuts.length + 1 → (bin = k ↔ InBin cuts k value)) ∧
    (∀ value value' bin bin', value.isNaN = false → value'.isNaN = false →
      Puts cuts value bin → Puts cuts value' bin' →
      (bin < bin' ↔ ∃ cut ∈ cuts, Separates value cut value') ∧
        (value.lessEq value' = true → bin ≤ bin') ∧
        (bin = bin' ↔ ∀ cut ∈ cuts, ¬ Separates value cut value' ∧ ¬ Separates value' cut value)) ∧
    ∀ k, 1 ≤ k → k ≤ cuts.length + 1 → ∃ value, value.isNaN = false ∧
      ∀ t : BinType, cuts.length < t.max → FitsMemory 8 cuts.length →
        discretize t [value] cuts [0] = ⟨.ok (), [(k : Int)]⟩ := by
  refine ⟨fun r accepted i value hasValue => ?_, fun value bin puts => ?_, ?_,
    fun k pos inside => ?_⟩
  · exact ⟨_, Request.bin?_eq valid accepted hasValue⟩
  · rw [puts.bin_eq valid]
    exact ⟨referenceBin_le value cuts, referenceBin_eq_zero_iff,
      fun k pos inside => referenceBin_eq_iff valid pos inside⟩
  · intro value value' bin bin' number number' puts puts'
    rw [puts.bin_eq valid, puts'.bin_eq valid]
    exact ⟨referenceBin_lt_iff valid number number', referenceBin_le_of_lessEq number number',
      referenceBin_eq_referenceBin_iff valid number number'⟩
  · obtain ⟨value, held⟩ : ∃ value, InBin cuts k value := by
      obtain ⟨bin, rfl⟩ := Nat.exists_eq_add_of_le' pos
      exact valid.exists_inBin (Nat.le_of_succ_le_succ inside)
    refine ⟨value, held.number, fun t room fitsCuts => ?_⟩
    have fitsValue : FitsMemory 8 1 := by decide
    have fitting : Fitting t [value] cuts [0] := ⟨rfl, room, fitsValue, fitsCuts⟩
    have bin := (referenceBin_eq_iff valid pos inside).mpr held
    have cell := BinType.ofBin_eq (t := t) (Nat.le_trans inside room)
    rw [discretize_of_fitting valid fitting, referenceCells, referenceBins, List.map_singleton,
      List.map_singleton, bin, cell]

theorem bins_number_intervals_of_seven_cuts :
    let cuts : List Double := [-3, -2, -1, 0, 1, 2, 3]
    let searched : Request := .byRegime .search (.unsigned .w8) [.nan, -0.5] [9, 9]
    let descended : Request := .byRegime (.padded 16) (.signed .w64) [-0, .infinity false] [9, 9]
    let counted : Request :=
      .byCounts (.signed .w8) ⟨1, some [0, 1], 7, some (cuts ++ [.nan]), some [9, 9, 9]⟩
    ValidCuts cuts ∧ searched.Accepted cuts ∧ descended.Accepted cuts ∧ counted.Accepted cuts ∧
      searched.bin? cuts 0 = some 0 ∧ searched.bin? cuts 1 = some 4 ∧
      descended.bin? cuts 0 = some 5 ∧ descended.bin? cuts 1 = some 8 ∧
      counted.bin? cuts 0 = some 5 ∧ InBin cuts 8 (.infinity false) ∧
      (∃ cut ∈ cuts, Separates (-0.5) cut (-0)) ∧
      ∀ cut ∈ cuts, ¬ Separates (-0) cut 0 ∧ ¬ Separates 0 cut (-0) := by
  intro cuts searched descended counted
  have valid : ValidCuts cuts := ⟨by decide, by decide⟩
  have search : searched.Accepted cuts := ⟨⟨by decide, by decide, by decide, by decide⟩, by decide⟩
  have descent : descended.Accepted cuts :=
    ⟨⟨by decide, by decide, by decide, by decide⟩, by decide⟩
  have count : counted.Accepted cuts := ⟨by decide, by decide, by decide⟩
  have missingBin : searched.bin? cuts 0 = some 0 :=
    (Request.bin?_eq valid search rfl).trans (by decide)
  have halfBin : searched.bin? cuts 1 = some 4 :=
    (Request.bin?_eq valid search rfl).trans (by decide)
  have negativeBin : descended.bin? cuts 0 = some 5 :=
    (Request.bin?_eq valid descent rfl).trans (by decide)
  have infiniteBin : descended.bin? cuts 1 = some 8 :=
    (Request.bin?_eq valid descent rfl).trans (by decide)
  have zeroBin : counted.bin? cuts 0 = some 5 :=
    (Request.bin?_eq valid count rfl).trans (by decide)
  have negativeZero : Puts cuts (-0) 5 := ⟨descended, descent, 0, rfl, negativeBin⟩
  obtain ⟨-, intervals, comparisons, -⟩ := bins_number_intervals valid
  obtain ⟨-, -, interval⟩ := intervals _ 8 ⟨descended, descent, 1, rfl, infiniteBin⟩
  obtain ⟨separated, -, -⟩ :=
    comparisons _ _ _ _ rfl rfl ⟨searched, search, 1, rfl, halfBin⟩ negativeZero
  obtain ⟨-, -, together⟩ :=
    comparisons _ _ _ _ rfl rfl negativeZero ⟨counted, count, 0, rfl, zeroBin⟩
  exact ⟨valid, search, descent, count, missingBin, halfBin, negativeBin, infiniteBin, zeroBin,
    (interval 8 (by decide) (by decide)).mp rfl, separated.mp (by decide), together.mp rfl⟩

end Binning

end Boosting
