/- Negation on lanes.
   A difference from zero negates as exactly as a flipped sign does, except that it makes every
   zero positive. Comparisons do not see the sign of a zero, so on all lanes a comparison with a
   negated number is the opposite one with the number itself. -/

import Boosting.Lanes.Basic
import Boosting.Proofs.Binary.Exactness
import Boosting.Proofs.Binary.Order

set_option autoImplicit false
set_option relaxedAutoImplicit false

namespace Boosting

namespace Binary

variable {f : Format}

private theorem rank_neg (x : Binary f) : (-x).rank = x.rank.map fun i => -i := by
  cases x with
  | nan => rfl
  | signed negative magnitude =>
    cases negative with
    | false => rfl
    | true => exact congrArg some (Int.neg_neg _).symm

end Binary

namespace Lanes

variable (k : Lanes)

private theorem neg_packed (x : Single) :
    packed.neg x = if x.isZero then Binary.zero false else -x :=
  Binary.zero_sub_eq (by decide) x

theorem neg_of_nonzero {x : Single} (nonzero : x.isZero = false) : k.neg x = -x := by
  cases k with
  | scalar => rfl
  | packed => rw [neg_packed, nonzero, if_neg Bool.false_ne_true]

theorem neg_nan : k.neg .nan = .nan :=
  neg_of_nonzero k rfl

theorem neg_infinity : k.neg (.infinity false) = .infinity true :=
  neg_of_nonzero k rfl

private theorem rank_neg (x : Single) : (k.neg x).rank = x.rank.map fun i => -i := by
  cases zeros : x.isZero with
  | false => rw [neg_of_nonzero k zeros, Binary.rank_neg]
  | true =>
    cases k with
    | scalar => exact Binary.rank_neg x
    | packed =>
      cases x with
      | nan => cases zeros
      | signed negative magnitude =>
        have code : magnitude.val = 0 := by simpa [Binary.isZero] using zeros
        rw [neg_packed, zeros, if_pos rfl]
        cases negative <;> simp [Binary.rank, Binary.zero, Binary.ofCode, code]

theorem isNaN_neg (x : Single) : (k.neg x).isNaN = x.isNaN := by
  have ranked := rank_neg k x
  rw [Bool.eq_iff_iff, ← Binary.rank_eq_none_iff, ← Binary.rank_eq_none_iff, ranked,
    Option.map_eq_none_iff]

theorem neg_less (x y : Single) : (k.neg x).less y = (-y).less x := by
  rw [Binary.less, Binary.less, rank_neg, Binary.rank_neg]
  cases x.rank <;> cases y.rank <;> simp
  omega

theorem less_neg (x y : Single) : y.less (k.neg x) = x.less (-y) := by
  rw [Binary.less, Binary.less, rank_neg, Binary.rank_neg]
  cases x.rank <;> cases y.rank <;> simp
  omega

end Lanes

end Boosting
