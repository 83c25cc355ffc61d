/- Exact results.
   A number of a format rounds to itself, at whichever place its significand is written. So a
   zero added to any other number leaves it as it is, and a difference from zero is the negated
   number; only the sign of a zero can get lost. -/

import Boosting.Binary.Arithmetic

set_option autoImplicit false
set_option relaxedAutoImplicit false

namespace Boosting

private theorem log2_shiftLeft {n : Nat} (nonzero : n ≠ 0) (d : Nat) :
    (n <<< d).log2 = n.log2 + d := by
  induction d with
  | zero => rfl
  | succ d ih =>
    have shifted : n <<< d ≠ 0 := by rwa [Ne, Nat.shiftLeft_eq_zero_iff]
    rw [Nat.shiftLeft_succ, Nat.log2_two_mul shifted, ih, Nat.add_assoc]

private theorem nearestEven_shiftLeft (n d : Nat) : nearestEven (n <<< d) (d : Int) = n := by
  cases d with
  | zero => rfl
  | succ d =>
    have rest : n <<< (d + 1) % twoPow (d + 1) = 0 := by
      rw [twoPow, Nat.one_shiftLeft, Nat.shiftLeft_eq, Nat.mul_mod_left]
    have pos := twoPow_pos d
    show (if n <<< (d + 1) % twoPow (d + 1) > twoPow d || _ then _
      else n <<< (d + 1) >>> (d + 1)) = n
    rw [rest, Nat.shiftLeft_shiftRight, if_neg]
    simp only [Bool.or_eq_true, Bool.and_eq_true, decide_eq_true_eq, beq_iff_eq]
    omega

namespace Binary

variable {f : Format}

theorem lowestPlace_le_place (f : Format) (code : Nat) : f.lowestPlace ≤ place f code := by
  rw [place]
  omega

theorem significand_ne_zero {code : Nat} (nonzero : code ≠ 0) : significand f code ≠ 0 := by
  have pos : 0 < f.binade := twoPow_pos _
  rw [significand]
  split <;> omega

private theorem log2_significand {code : Nat} (normal : f.binade ≤ code) :
    (significand f code).log2 = f.fraction := by
  have pos : 0 < f.binade := twoPow_pos _
  have below : code % f.binade < f.binade := Nat.mod_lt _ pos
  have power : f.binade = 2 ^ f.fraction := Nat.one_shiftLeft _
  rw [significand, if_neg (Nat.not_lt.mpr normal), Nat.log2_eq_iff (by omega), Nat.pow_succ]
  omega

theorem place_of_subnormal {code : Nat} (subnormal : code < f.binade) :
    place f code = f.lowestPlace := by
  rw [place, Nat.div_eq_of_lt subnormal]
  exact Int.add_zero _

private theorem max_lowestPlace_eq_place (f : Format) {code : Nat} (nonzero : code ≠ 0) :
    max (((significand f code).log2 : Int) + place f code - f.fraction) f.lowestPlace =
      place f code := by
  have lowest := lowestPlace_le_place f code
  by_cases normal : f.binade ≤ code
  · rw [log2_significand normal]
    omega
  · have subnormal : code < f.binade := Nat.lt_of_not_le normal
    have power : f.binade = 2 ^ f.fraction := Nat.one_shiftLeft _
    have narrow : (significand f code).log2 < f.fraction := by
      rw [significand, if_pos subnormal, Nat.log2_lt nonzero, ← power]
      exact subnormal
    rw [place_of_subnormal subnormal]
    omega

theorem binades_add_significand (f : Format) (code : Nat) :
    (place f code - f.lowestPlace).toNat * f.binade + significand f code = code := by
  have above : (place f code - f.lowestPlace).toNat = code / f.binade - 1 := by
    rw [place]
    omega
  rw [above, significand]
  split
  · rename_i subnormal
    rw [Nat.div_eq_of_lt subnormal, Nat.zero_sub, Nat.zero_mul, Nat.zero_add]
  · rename_i normal
    have binades : 0 < code / f.binade := Nat.div_pos (Nat.le_of_not_lt normal) (twoPow_pos _)
    have whole : code / f.binade * f.binade + code % f.binade = code := Nat.div_add_mod' _ _
    rw [← Nat.add_assoc, ← Nat.succ_mul, Nat.succ_eq_add_one, Nat.sub_add_cancel binades, whole]

private theorem nearestCode_significand (f : Format) (code d : Nat) :
    nearestCode f (significand f code <<< d) (place f code - d) = code := by
  rcases Nat.eq_zero_or_pos code with rfl | pos
  · have least : significand f 0 = 0 := if_pos (twoPow_pos _)
    rw [least, Nat.zero_shiftLeft]
    rfl
  · have nonzero : significand f code ≠ 0 := significand_ne_zero (Nat.ne_of_gt pos)
    have shifted : significand f code <<< d ≠ 0 := by rwa [Ne, Nat.shiftLeft_eq_zero_iff]
    have last : max (((significand f code).log2 + d : Nat) + (place f code - d) - f.fraction : Int)
        f.lowestPlace = place f code := by
      have kept := max_lowestPlace_eq_place f (Nat.ne_of_gt pos)
      omega
    have dropped : place f code - (place f code - d) = (d : Int) := by omega
    rw [nearestCode, if_neg shifted, log2_shiftLeft nonzero]
    simp only [last, dropped, nearestEven_shiftLeft]
    exact binades_add_significand f code

/-- A number is the value of its significand at its place, and at any lower place with zeros
appended. -/
private theorem ofDyadic_significand (negative : Bool) (magnitude : Fin (f.infinityCode + 1))
    (d : Nat) :
    ofDyadic negative (significand f magnitude.val <<< d) (place f magnitude.val - d) =
      signed negative magnitude := by
  have small : min magnitude.val f.infinityCode = magnitude.val := by omega
  simp only [ofDyadic, nearestCode_significand, ofCode, small]

private theorem roundedSum_zero_left (s t : Bool) {n : Nat} (nonzero : n ≠ 0) {e g : Int}
    (lower : e ≤ g) :
    (roundedSum s 0 e t n g : Binary f) = ofDyadic t (n <<< (g - e).toNat) e := by
  have shifted : n <<< (g - e).toNat ≠ 0 := by rwa [Ne, Nat.shiftLeft_eq_zero_iff]
  have nothing : signedShift s 0 (e - e) = 0 := by
    rw [signedShift, Nat.zero_shiftLeft]
    cases s <;> rfl
  rw [roundedSum, Int.min_eq_left lower]
  simp only [nothing, Int.zero_add]
  cases t with
  | false =>
    have total : signedShift false n (g - e) = (n <<< (g - e).toNat : Nat) := rfl
    have nonnegative : ¬ ((n <<< (g - e).toNat : Nat) : Int) < 0 :=
      Int.not_lt.mpr (Int.natCast_nonneg _)
    rw [total, if_neg (Int.natCast_ne_zero.mpr shifted), decide_eq_false nonnegative,
      Int.natAbs_natCast]
  | true =>
    have total : signedShift true n (g - e) = -(n <<< (g - e).toNat : Nat) := rfl
    have negative : -((n <<< (g - e).toNat : Nat) : Int) < 0 :=
      Int.neg_neg_of_pos (Int.natCast_pos.mpr (Nat.pos_of_ne_zero shifted))
    rw [total, if_neg (Int.ne_of_lt negative), decide_eq_true negative, Int.natAbs_neg,
      Int.natAbs_natCast]

section Zeros

variable (wide : 0 < f.infinityCode)

include wide

private theorem reading_zero (negative : Bool) :
    (zero negative : Binary f).reading = .finite negative 0 f.lowestPlace := by
  have code : min 0 f.infinityCode = 0 := Nat.zero_min _
  have bottom : place f 0 = f.lowestPlace := place_of_subnormal (twoPow_pos _)
  have least : significand f 0 = 0 := if_pos (twoPow_pos _)
  simp only [zero, ofCode, reading, code, if_neg (Nat.ne_of_lt wide), bottom, least]

private theorem zero_add_zero (s t : Bool) : (zero s + zero t : Binary f) = zero (s && t) := by
  show (zero s).add (zero t) = _
  simp only [add, reading_zero wide, roundedSum, signedShift, Nat.zero_shiftLeft]
  cases s <;> cases t <;> rfl

private theorem zero_add_of_nonzero (s : Bool) {x : Binary f} (nonzero : x.isZero = false) :
    zero s + x = x := by
  show (zero s).add x = x
  cases x with
  | nan =>
    rw [add, reading_zero wide]
    rfl
  | signed t magnitude =>
    by_cases largest : magnitude.val = f.infinityCode
    · have seen : (signed t magnitude).reading = .infinite t := if_pos largest
      have infinite : (infinity t : Binary f) = signed t magnitude := by
        simp only [infinity, ofCode, Nat.min_self, ← largest]
      rw [add, reading_zero wide, seen]
      exact infinite
    · have seen : (signed t magnitude).reading =
          .finite t (significand f magnitude.val) (place f magnitude.val) := if_neg largest
      have code : magnitude.val ≠ 0 := by simpa [isZero] using nonzero
      have lowest := lowestPlace_le_place f magnitude.val
      have back : place f magnitude.val - (place f magnitude.val - f.lowestPlace).toNat =
          f.lowestPlace := by omega
      have exact := ofDyadic_significand t magnitude (place f magnitude.val - f.lowestPlace).toNat
      rw [back] at exact
      rw [add, reading_zero wide, seen, ← exact]
      exact roundedSum_zero_left s t (significand_ne_zero code) lowest

/-- The difference from zero is the negated number; of a zero it is the positive one. -/
theorem zero_sub_eq (x : Binary f) : zero false - x = if x.isZero then zero false else -x := by
  show zero false + x.flip = _
  cases zeros : x.isZero with
  | false =>
    refine zero_add_of_nonzero wide false ?_
    cases x with
    | nan => rfl
    | signed negative magnitude => exact zeros
  | true =>
    cases x with
    | nan => cases zeros
    | signed negative magnitude =>
      have code : magnitude.val = 0 := by simpa [isZero] using zeros
      have flipped : (signed negative magnitude : Binary f).flip = zero (!negative) := by
        simp only [flip, zero, ofCode, Nat.zero_min]
        exact congrArg _ (Fin.ext code)
      rw [flipped, zero_add_zero wide]
      rfl

end Zeros

end Binary

end Boosting
