/- Bins of arbitrary cuts.
   Cuts that are not valid give bins without a meaning, but safe ones. A search stays inside the
   cuts. A descent reads neither past its table nor its last slot, and it stops behind the last
   slot that it passed, which is never one of the padding; negative infinity in front makes every
   number pass one slot at least. So zero is the bin of missing values alone, and no bin is too
   large for a type that has room for the bins of valid cuts. -/

import Mathlib.Data.List.Forall2
import Boosting.Proofs.Binning.Agreement
import Boosting.Proofs.Binning.MachineSearch

set_option autoImplicit false
set_option relaxedAutoImplicit false

namespace Boosting

namespace Table

section Descents

variable (slots : Array Double) (value : Double)

private theorem length_probes (depth index : Nat) :
    (descend slots value depth index).probes.length = depth := by
  induction depth generalizing index with
  | zero => rfl
  | succ depth ih => simp only [descend, List.length_cons, ih]

private theorem probe_lt (depth index : Nat) :
    ∀ probe ∈ (descend slots value depth index).probes, probe + 1 < index + twoPow depth := by
  induction depth generalizing index with
  | zero => exact fun probe member => absurd member List.not_mem_nil
  | succ depth ih =>
    have step := twoPow_pos depth
    simp only [descend, List.forall_mem_cons, twoPow_succ]
    refine ⟨by omega, fun probe member => ?_⟩
    have later := ih _ probe member
    split at later <;> omega

/-- A descent that has moved stops behind a slot that it passed. -/
private theorem index_descend (depth index : Nat) :
    (descend slots value depth index).index = index ∨
      index < (descend slots value depth index).index ∧
        (slots.getD ((descend slots value depth index).index - 1) .nan).lessEq value = true := by
  induction depth generalizing index with
  | zero => exact .inl rfl
  | succ depth ih =>
    have step := twoPow_pos depth
    simp only [descend]
    split
    · rename_i passed
      rcases ih (index + twoPow depth) with stays | ⟨moves, last⟩
      · rw [stays]
        exact .inr ⟨by omega, passed⟩
      · exact .inr ⟨by omega, last⟩
    · exact ih index

end Descents

variable {slots : Array Double} {value : Double}

private theorem lt_index_descend {index : Nat}
    (passed : (slots.getD index .nan).lessEq value = true) (depth : Nat) :
    index < (descend slots value (depth + 1) index).index := by
  induction depth with
  | zero =>
    simp only [descend, twoPow_zero, Nat.add_sub_cancel, passed, if_true]
    omega
  | succ depth ih =>
    have step := twoPow_pos (depth + 1)
    rw [descend]
    simp only
    split
    · rcases index_descend slots value (depth + 1) (index + twoPow (depth + 1))
        with stays | ⟨moves, -⟩ <;> omega
    · exact ih

private theorem size_slots {size : Nat} {cuts : List Double} (holds : cuts.length ≤ size - 2)
    (large : 2 ≤ size) :
    (ofCuts size cuts).slots.size = size := by
  simp only [ofCuts, List.size_toArray, List.cons_append, List.length_cons, List.length_append,
    List.length_replicate]
  omega

private theorem le_length_of_passed {size i : Nat} {cuts : List Double}
    (passed : ((ofCuts size cuts).slots.getD i .nan).lessEq value = true) : i ≤ cuts.length := by
  refine Nat.le_of_not_lt fun padding => ?_
  rw [getD_slots, if_neg (by omega), List.getElem?_eq_none (by omega), Option.getD_none,
    Binary.lessEq_nan_left] at passed
  cases passed

private theorem bin_le (size : Nat) (cuts : List Double) (value : Double) :
    (ofCuts size cuts).bin value ≤ cuts.length + 1 := by
  rcases index_descend (ofCuts size cuts).slots value size.log2 0 with stays | ⟨-, last⟩
  · exact Nat.le_trans (Nat.le_of_eq stays) (Nat.zero_le _)
  · have inside := le_length_of_passed last
    show (descend (ofCuts size cuts).slots value size.log2 0).index ≤ _
    omega

private theorem bin_of_missing {value : Double} (missing : value.isNaN = true) (size : Nat)
    (cuts : List Double) :
    (ofCuts size cuts).bin value = 0 := by
  rcases index_descend (ofCuts size cuts).slots value size.log2 0 with stays | ⟨-, last⟩
  · exact stays
  · rw [Binary.lessEq_nan_right missing] at last
    cases last

private theorem bin_pos {value : Double} (number : value.isNaN = false) {size : Nat}
    (large : 2 ≤ size) (cuts : List Double) : 0 < (ofCuts size cuts).bin value := by
  have front : ((ofCuts size cuts).slots.getD 0 .nan).lessEq value = true := by
    rw [getD_slots, if_pos rfl]
    exact Binary.negInfinity_lessEq number
  obtain ⟨depth, known⟩ : ∃ depth, size.log2 = depth + 1 := by
    refine Nat.exists_eq_succ_of_ne_zero fun zero => ?_
    have below := Nat.lt_log2_self (n := size)
    rw [zero] at below
    omega
  show 0 < (descend (ofCuts size cuts).slots value size.log2 0).index
  rw [known]
  exact lt_index_descend front depth

end Table

/-- Whether a bin is zero exactly for a missing value, and at most one more than the cuts. -/
structure BinFits (cuts : Nat) (value : Double) (bin : Nat) : Prop where
  missing : bin = 0 ↔ value.isNaN = true
  most : bin ≤ cuts + 1

private theorem BinFits.of_kinds {cuts bin : Nat} {value : Double}
    (missing : value.isNaN = true → bin = 0)
    (number : value.isNaN = false → 1 ≤ bin ∧ bin ≤ cuts + 1) : BinFits cuts value bin := by
  cases kind : value.isNaN with
  | true =>
    obtain rfl := missing kind
    exact ⟨iff_of_true rfl kind, Nat.zero_le _⟩
  | false =>
    obtain ⟨least, most⟩ := number kind
    exact ⟨iff_of_false (by omega) (Bool.eq_false_iff.mp kind), most⟩

private theorem binFits_referenceBin (value : Double) (cuts : List Double) :
    BinFits cuts.length value (referenceBin value cuts) := by
  refine .of_kinds (fun missing => referenceBin_of_isNaN missing cuts) fun number =>
    ⟨?_, referenceBin_le value cuts⟩
  rw [referenceBin_of_number number]
  omega

namespace Regime

private theorem bins_fit {cuts : List Double} {regime : Regime}
    (supported : regime.supports cuts.length = true)
    (values : List Double) :
    List.Forall₂ (BinFits cuts.length) values (regime.bins values cuts) := by
  cases regime with
  | missing =>
    obtain rfl : cuts = [] := List.eq_nil_of_length_eq_zero (by simpa [supports] using supported)
    exact List.forall₂_map_right_iff.mpr (List.forall₂_same.mpr fun value _ =>
      binFits_referenceBin value [])
  | linear =>
    refine List.forall₂_map_right_iff.mpr (List.forall₂_same.mpr fun value _ => ?_)
    rw [countedBin_eq]
    exact binFits_referenceBin value cuts
  | padded slots =>
    simp only [supports, Bool.and_eq_true, List.contains_iff_mem] at supported
    have large := Table.two_le_of_mem_tableSizes slots supported.1
    refine List.forall₂_map_right_iff.mpr (List.forall₂_same.mpr fun value _ => ?_)
    exact .of_kinds (fun missing => Table.bin_of_missing missing slots cuts) fun number =>
      ⟨Table.bin_pos number large cuts, Table.bin_le slots cuts value⟩
  | search =>
    have enough : searchMinCuts ≤ cuts.toArray.size := by simpa [supports] using supported
    refine List.forall₂_map_right_iff.mpr (List.forall₂_same.mpr fun value _ => ?_)
    refine .of_kinds (fun missing => if_pos missing) fun number => ?_
    simpa using searchBin_between enough number

end Regime

private theorem BinType.stores_of_fit {t : BinType} {cuts : Nat} (room : cuts < t.max)
    {values : List Double} {bins : List Nat} (fit : List.Forall₂ (BinFits cuts) values bins) :
    (∀ cell ∈ bins.map t.ofBin, t.Holds cell) ∧ (bins.map t.ofBin).map binOfCell = bins := by
  induction fit with
  | nil => exact ⟨fun cell member => absurd member List.not_mem_nil, rfl⟩
  | @cons _ bin _ _ fits _ ih =>
    have small : bin ≤ t.max := Nat.le_trans fits.most room
    rw [List.map_cons, List.forall_mem_cons, List.map_cons, ih.2, binOfCell_ofBin small]
    exact ⟨⟨holds_ofBin small, ih.1⟩, rfl⟩

namespace Binning

/-- Cuts of any values, in any order, keep every kernel inside. A search of three cuts or more that
words can count runs to its end with no overflow and no read outside, its windows inside the cuts
and narrower from pass to pass. A descent probes as many slots as its table has halvings, all before
the last. Every regime that supports the number of cuts gives zero to missing values alone and other
bins up to one more than the cuts, which a type with room for them stores. -/
theorem kernels_stay_inside (cuts : List Double) (value : Double) :
    (searchMinCuts ≤ cuts.length → cuts.length ≤ BinType.bound.max → ∀ limit, cuts.length ≤ limit →
      ∃ passes, Bounds.search? cuts.toArray value limit =
        some (passes, searchBin cuts.toArray value) ∧
        (∀ b ∈ passes, 0 ≤ b.low ∧ b.low ≤ b.high ∧ b.high ≤ cuts.length - 1) ∧
        passes.Pairwise fun b later => later.high - later.low < b.high - b.low) ∧
      (∀ size ∈ tableSizes, cuts.length ≤ size - 2 →
        (Table.ofCuts size cuts).slots.size = size ∧
        ((Table.ofCuts size cuts).walk value).probes.length = size.log2 ∧
        ∀ probe ∈ ((Table.ofCuts size cuts).walk value).probes, probe ≤ size - 2) ∧
      ∀ regime : Regime, regime.supports cuts.length = true → ∀ values : List Double,
        List.Forall₂ (BinFits cuts.length) values (regime.bins values cuts) ∧
        ∀ t : BinType, cuts.length < t.max →
          (∀ cell ∈ (regime.bins values cuts).map t.ofBin, t.Holds cell) ∧
          ((regime.bins values cuts).map t.ofBin).map binOfCell = regime.bins values cuts := by
  refine ⟨fun enough fits limit room => ?_, fun size known holds => ?_,
    fun regime supported values => ?_⟩
  · have length : cuts.toArray.size = cuts.length := List.size_toArray
    rw [← length] at enough fits room
    have inside := firstWindow_inside enough value
    refine ⟨_, Bounds.search?_eq_some fits enough value room, ?_, ?_⟩
    · split
      · simp
      · intro b member
        obtain ⟨w, pass, rfl⟩ := List.mem_map.mp member
        obtain ⟨ordered, high⟩ := inside_of_mem_searchPasses value inside w pass
        rw [length] at high
        exact ⟨Int.natCast_nonneg _, ordered, Int.le_sub_one_of_lt high⟩
    · split
      · exact .nil
      · exact List.pairwise_map.mpr (searchPasses_pairwise value inside)
  · have large := Table.two_le_of_mem_tableSizes size known
    refine ⟨Table.size_slots holds large, Table.length_probes _ _ _ _, fun probe member => ?_⟩
    have early := Table.probe_lt _ value size.log2 0 probe member
    rw [Table.twoPow_log2_of_mem_tableSizes size known] at early
    omega
  · have fit := Regime.bins_fit supported values
    exact ⟨fit, fun t room => BinType.stores_of_fit room fit⟩

theorem kernels_stay_inside_of_disorder :
    let cuts : List Double := [4, .infinity false, .nan, 2, 2, .infinity true, -3]
    searchMinCuts ≤ cuts.length ∧ cuts.length ≤ BinType.bound.max ∧
      (∃ passes, Bounds.search? cuts.toArray 3 7 = some (passes, 8) ∧
        passes.Pairwise fun b later => later.high - later.low < b.high - b.low) ∧
      16 ∈ tableSizes ∧ cuts.length ≤ 16 - 2 ∧
      (∀ probe ∈ ((Table.ofCuts 16 cuts).walk 3).probes, probe ≤ 14) ∧
      Regime.search.supports cuts.length = true ∧ cuts.length < (BinType.signed .w8).max ∧
      List.Forall₂ (BinFits cuts.length) [3, .nan] (Regime.search.bins [3, .nan] cuts) := by
  intro cuts
  obtain ⟨searching, descending, fitting⟩ := kernels_stay_inside cuts 3
  have enough : searchMinCuts ≤ cuts.length := by decide
  have fits : cuts.length ≤ BinType.bound.max := by decide
  obtain ⟨passes, runs, -, narrower⟩ := searching enough fits 7 (by decide)
  have bin : searchBin cuts.toArray 3 = 8 := by decide +kernel
  rw [bin] at runs
  have known : 16 ∈ tableSizes := by decide
  have supported : Regime.search.supports cuts.length = true := by decide
  exact ⟨enough, fits, ⟨passes, runs, narrower⟩, known, by decide,
    (descending 16 known (by decide)).2.2, supported, by decide,
    (fitting .search supported [3, .nan]).1⟩

end Binning

end Boosting
