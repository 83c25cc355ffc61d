/- What the checks of a binning request let through.
   Buffers that fit in memory have addressable counts, so of all checks of the counts only one
   can fail: the type of the cells may have no room for the bins. Valid cuts have no fault. -/

import Boosting.Binning.Discretize
import Boosting.Proofs.Binary.Order
import Boosting.Proofs.Binning.Cells

set_option autoImplicit false
set_option relaxedAutoImplicit false

namespace Boosting

theorem notFinite?_eq_none_iff (index : Nat) (cuts : List Double) :
    notFinite? index cuts = none ↔ ∀ cut ∈ cuts, cut.isFinite = true := by
  induction cuts generalizing index with
  | nil => simp [notFinite?]
  | cons cut cuts ih =>
    rw [notFinite?, List.forall_mem_cons]
    cases finite : cut.isFinite with
    | true => simpa using ih (index + 1)
    | false => simp

private theorem notIncreasing?_eq_none_iff (index : Nat) (cuts : List Double) :
    notIncreasing? index cuts = none ↔ cuts.Pairwise fun a b => a.less b = true := by
  induction cuts generalizing index with
  | nil => simp [notIncreasing?]
  | cons left cuts ih =>
    cases cuts with
    | nil => simp [notIncreasing?]
    | cons right cuts =>
      rw [notIncreasing?, List.pairwise_cons]
      cases below : left.less right with
      | false => simp [below]
      | true =>
        rw [if_pos rfl, ih (index + 1)]
        refine ⟨fun tail => ⟨?_, tail⟩, And.right⟩
        intro cut member
        rcases List.mem_cons.mp member with rfl | later
        · exact below
        · exact Binary.less_trans below ((List.pairwise_cons.mp tail).1 cut later)

theorem cutFault?_eq_none_iff (cuts : List Double) : cutFault? cuts = none ↔ ValidCuts cuts := by
  rw [cutFault?]
  cases found : notFinite? 0 cuts with
  | some fault =>
    refine iff_of_false nofun fun valid => ?_
    rw [(notFinite?_eq_none_iff 0 cuts).mpr valid.finite] at found
    cases found
  | none =>
    have finite := (notFinite?_eq_none_iff 0 cuts).mp found
    rw [notIncreasing?_eq_none_iff]
    exact ⟨fun increasing => ⟨finite, increasing⟩, ValidCuts.increasing⟩

theorem cutFault?_of_valid {cuts : List Double} (valid : ValidCuts cuts) :
    cutFault? cuts = none :=
  (cutFault?_eq_none_iff cuts).mpr valid

namespace Binning

/-- Whether a buffer of `length` elements of `bytes` bytes has a size that a signed machine word
holds, as every buffer in memory does. -/
def FitsMemory (bytes length : Nat) : Prop :=
  bytes * length < addressSpace / 2

instance (bytes length : Nat) : Decidable (FitsMemory bytes length) :=
  inferInstanceAs (Decidable (_ < _))

theorem addressSpace_eq : addressSpace = 18446744073709551616 := rfl

theorem checkSampleCount_natCast (t : BinType) {n : Nat} (fits : 8 * n < addressSpace) :
    checkSampleCount t n = .ok n := by
  have narrow : t.bytes * n ≤ 8 * n := Nat.mul_le_mul_right n t.bytes_le
  have small : n < addressSpace := by omega
  have eight : ¬ n * 8 ≥ addressSpace := by omega
  have cells : ¬ n * t.bytes ≥ addressSpace := by
    rw [Nat.mul_comm]
    omega
  rw [checkSampleCount, if_neg (by omega)]
  simp only [Int.toNat_natCast]
  rw [if_neg (by omega)]
  simp [List.find?, eight, cells]

theorem checkCutCount_natCast (t : BinType) {n : Nat} (fits : 8 * n < addressSpace) :
    checkCutCount t n = if t.max ≤ n then .error (.noRoomForMissingBin n) else .ok n := by
  have size := addressSpace_eq
  rw [checkCutCount]
  simp only [Int.toNat_natCast]
  split
  · rfl
  · rw [if_neg (by omega), if_neg (by omega), if_neg (by omega), if_neg (by omega),
      if_neg (by omega)]

/-- For buffers in memory the lengths have to agree and the cells need room for the bins; there is
no other condition. -/
theorem checkLengths_eq (t : BinType) {values cuts bins : Nat} (fitsValues : FitsMemory 8 values)
    (fitsCuts : FitsMemory 8 cuts) :
    checkLengths t values cuts bins =
      if values ≠ bins then .error (.lengthMismatch values bins)
      else if t.max ≤ cuts then .error (.noRoomForMissingBin cuts)
      else .ok () := by
  have max := t.max_pos
  unfold FitsMemory at fitsValues fitsCuts
  rw [checkLengths, checkSampleCount_natCast t (by omega)]
  split
  · rfl
  · rcases Nat.eq_zero_or_pos cuts with noCuts | hasCuts
    · rw [if_pos noCuts, if_neg (by omega)]
    · rw [if_neg (Nat.ne_of_gt hasCuts), checkCutCount_natCast t (by omega)]
      by_cases full : t.max ≤ cuts
      · rw [if_pos full, if_pos full]
      · rw [if_neg full, if_neg full]

end Binning

end Boosting
