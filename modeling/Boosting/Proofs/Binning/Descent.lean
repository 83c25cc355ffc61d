/- Descents find the reference bin.
   The slots that a value passes are the first `referenceBin` slots of the table: negative
   infinity and the reached cuts for a number, none for `nan`. A descent keeps its index at most
   that number and within reach of it, so it ends at the number itself. -/

import Boosting.Binning.Table
import Boosting.Proofs.Binning.Reference

set_option autoImplicit false
set_option relaxedAutoImplicit false

namespace Boosting

namespace Table

/-- If the passed slots are the first `count`, a descent that can still reach `count` ends there. -/
private theorem descend_index {slots : Array Double} {value : Double} {count : Nat}
    (passes : ∀ i, (slots.getD i .nan).lessEq value = true ↔ i < count) (depth index : Nat)
    (lower : index ≤ count) (upper : count < index + twoPow depth) :
    (descend slots value depth index).index = count := by
  induction depth generalizing index with
  | zero =>
    rw [twoPow_zero] at upper
    simp only [descend]
    omega
  | succ depth ih =>
    have step := twoPow_pos depth
    have decides := passes (index + twoPow depth - 1)
    rw [twoPow_succ] at upper
    simp only [descend]
    split
    · rename_i passed
      have below := decides.mp passed
      exact ih _ (by omega) (by omega)
    · rename_i failed
      have above := mt decides.mpr failed
      exact ih _ lower (by omega)

theorem getD_slots (size : Nat) (cuts : List Double) (i : Nat) :
    (ofCuts size cuts).slots.getD i .nan =
      if i = 0 then .infinity true else cuts[i - 1]?.getD .nan := by
  cases i with
  | zero => simp [ofCuts]
  | succ i =>
    rw [if_neg (Nat.succ_ne_zero i), Nat.add_sub_cancel]
    simp only [ofCuts, Array.getD_eq_getD_getElem?, List.getElem?_toArray, List.cons_append,
      List.getElem?_cons_succ]
    rcases Nat.lt_or_ge i cuts.length with inside | outside
    · rw [List.getElem?_append_left inside]
    · rw [List.getElem?_append_right outside, List.getElem?_eq_none outside,
        List.getElem?_replicate]
      split <;> rfl

private theorem passes_iff {cuts : List Double} (valid : ValidCuts cuts) (size : Nat)
    (value : Double) (i : Nat) :
    ((ofCuts size cuts).slots.getD i .nan).lessEq value = true ↔ i < referenceBin value cuts := by
  rw [getD_slots]
  cases missing : value.isNaN with
  | true =>
    rw [Binary.lessEq_nan_right missing, referenceBin_of_isNaN missing]
    simp
  | false =>
    rw [referenceBin_of_number missing]
    cases i with
    | zero => simp [Binary.negInfinity_lessEq missing]
    | succ i =>
      rw [if_neg (Nat.succ_ne_zero i), Nat.add_sub_cancel]
      rcases Nat.lt_or_ge i cuts.length with inside | outside
      · rw [List.getElem?_eq_getElem inside, Option.getD_some,
          valid.lessEq_iff_lt_reached value i inside]
        omega
      · have atMost := reached_le_length cuts value
        rw [List.getElem?_eq_none outside, Option.getD_none, Binary.lessEq_nan_left]
        simp only [Bool.false_eq_true, false_iff]
        omega

theorem twoPow_log2_of_mem_tableSizes : ∀ size ∈ tableSizes, twoPow size.log2 = size := by
  decide

theorem two_le_of_mem_tableSizes : ∀ size ∈ tableSizes, 2 ≤ size := by
  decide

theorem bin_ofCuts {cuts : List Double} (valid : ValidCuts cuts) {size : Nat}
    (known : size ∈ tableSizes) (holds : cuts.length ≤ size - 2) (value : Double) :
    (ofCuts size cuts).bin value = referenceBin value cuts := by
  have most := referenceBin_le value cuts
  have room := two_le_of_mem_tableSizes size known
  refine descend_index (passes_iff valid size value) _ 0 (Nat.zero_le _) ?_
  change referenceBin value cuts < 0 + twoPow size.log2
  rw [twoPow_log2_of_mem_tableSizes size known]
  omega

end Table

end Boosting
