/- The order on numbers.
   Comparisons are comparisons of ranks, so every law of the order is one of the integers. A
   comparison with `nan` fails, and negative infinity lies at or below every number. -/

import Boosting.Binary.Format

set_option autoImplicit false
set_option relaxedAutoImplicit false

namespace Boosting

namespace Binary

variable {f : Format}

theorem rank_eq_none_iff (x : Binary f) : x.rank = none ↔ x.isNaN = true := by
  cases x <;> simp [rank, isNaN]

private theorem lessEq_iff (x y : Binary f) :
    x.lessEq y = true ↔ ∃ a b, x.rank = some a ∧ y.rank = some b ∧ a ≤ b := by
  unfold lessEq
  cases x.rank <;> cases y.rank <;> simp

private theorem less_iff (x y : Binary f) :
    x.less y = true ↔ ∃ a b, x.rank = some a ∧ y.rank = some b ∧ a < b := by
  unfold less
  cases x.rank <;> cases y.rank <;> simp

private theorem exists_rank {x : Binary f} (number : x.isNaN = false) : ∃ a, x.rank = some a := by
  cases x with
  | nan => cases number
  | signed negative magnitude => exact ⟨_, rfl⟩

theorem isNaN_of_isFinite {x : Binary f} (finite : x.isFinite = true) : x.isNaN = false := by
  cases x with
  | nan => cases finite
  | signed negative magnitude => rfl

private theorem isNaN_eq_false_of_rank {x : Binary f} {a : Int} (rank : x.rank = some a) :
    x.isNaN = false := by
  cases x with
  | nan => cases rank
  | signed negative magnitude => rfl

theorem isNaN_eq_false_of_less {x y : Binary f} (below : x.less y = true) :
    x.isNaN = false ∧ y.isNaN = false := by
  obtain ⟨a, b, rankX, rankY, -⟩ := (less_iff x y).mp below
  exact ⟨isNaN_eq_false_of_rank rankX, isNaN_eq_false_of_rank rankY⟩

theorem isNaN_eq_false_of_lessEq {x y : Binary f} (atMost : x.lessEq y = true) :
    x.isNaN = false ∧ y.isNaN = false := by
  obtain ⟨a, b, rankX, rankY, -⟩ := (lessEq_iff x y).mp atMost
  exact ⟨isNaN_eq_false_of_rank rankX, isNaN_eq_false_of_rank rankY⟩

theorem less_iff_lessEq_eq_false {x y : Binary f} (numberX : x.isNaN = false)
    (numberY : y.isNaN = false) : x.less y = true ↔ y.lessEq x = false := by
  obtain ⟨a, rankX⟩ := exists_rank numberX
  obtain ⟨b, rankY⟩ := exists_rank numberY
  simp [less, lessEq, rankX, rankY]

theorem less_eq_false_of_lessEq {x y : Binary f} (atMost : x.lessEq y = true) :
    y.less x = false := by
  obtain ⟨a, b, rankX, rankY, le⟩ := (lessEq_iff x y).mp atMost
  simpa [less, rankX, rankY] using le

theorem lessEq_refl {x : Binary f} (number : x.isNaN = false) : x.lessEq x = true := by
  obtain ⟨a, rank⟩ := exists_rank number
  exact (lessEq_iff x x).mpr ⟨a, a, rank, rank, Int.le_refl a⟩

theorem lessEq_trans {x y z : Binary f} (first : x.lessEq y = true) (second : y.lessEq z = true) :
    x.lessEq z = true := by
  obtain ⟨a, b, rankX, rankY, le⟩ := (lessEq_iff x y).mp first
  obtain ⟨b', c, rankY', rankZ, le'⟩ := (lessEq_iff y z).mp second
  have ranks : b = b' := Option.some.inj (rankY.symm.trans rankY')
  exact (lessEq_iff x z).mpr ⟨a, c, rankX, rankZ, by omega⟩

theorem less_trans {x y z : Binary f} (first : x.less y = true) (second : y.less z = true) :
    x.less z = true := by
  obtain ⟨a, b, rankX, rankY, lt⟩ := (less_iff x y).mp first
  obtain ⟨b', c, rankY', rankZ, lt'⟩ := (less_iff y z).mp second
  have ranks : b = b' := Option.some.inj (rankY.symm.trans rankY')
  exact (less_iff x z).mpr ⟨a, c, rankX, rankZ, by omega⟩

theorem lessEq_nan_left (y : Binary f) : (nan : Binary f).lessEq y = false := rfl

theorem lessEq_nan_right {x y : Binary f} (missing : y.isNaN = true) : x.lessEq y = false := by
  have unranked := (rank_eq_none_iff y).mpr missing
  unfold lessEq
  rw [unranked]
  cases x.rank <;> rfl

theorem lessEq_of_less_of_lessEq {x y z : Binary f} (below : x.less y = true)
    (atMost : y.lessEq z = true) : x.lessEq z = true := by
  obtain ⟨a, b, rankX, rankY, lt⟩ := (less_iff x y).mp below
  obtain ⟨b', c, rankY', rankZ, le⟩ := (lessEq_iff y z).mp atMost
  have ranks : b = b' := Option.some.inj (rankY.symm.trans rankY')
  exact (lessEq_iff x z).mpr ⟨a, c, rankX, rankZ, by omega⟩

private theorem rank_negInfinity :
    (infinity true : Binary f).rank = some (-(f.infinityCode : Int)) := by
  simp [infinity, ofCode, rank]

theorem negInfinity_lessEq {x : Binary f} (number : x.isNaN = false) :
    (infinity true).lessEq x = true := by
  cases x with
  | nan => simp [isNaN] at number
  | signed negative magnitude =>
    refine (lessEq_iff _ _).mpr ⟨_, _, rank_negInfinity, rfl, ?_⟩
    have bounded := magnitude.isLt
    cases negative with
    | false => simp
    | true =>
      simp only [if_true, Int.neg_le_neg_iff, Int.ofNat_le]
      omega

theorem negInfinity_less {x : Binary f} (finite : x.isFinite = true) :
    (infinity true).less x = true := by
  cases x with
  | nan => cases finite
  | signed negative magnitude =>
    have bounded : magnitude.val < f.infinityCode := by simpa [isFinite] using finite
    refine (less_iff _ _).mpr ⟨_, _, rank_negInfinity, rfl, ?_⟩
    cases negative <;> simp <;> omega

end Binary

end Boosting
