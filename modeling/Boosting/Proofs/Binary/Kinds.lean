/- Kinds of values.
   Every value is of one of five kinds, told apart by its magnitude code. On which side of zero,
   of the least normal number and of infinity a value lies is a matter of its kind and its sign
   alone. -/

import Boosting.Proofs.Binary.Order

set_option autoImplicit false
set_option relaxedAutoImplicit false

namespace Boosting

namespace Binary

inductive Kind where
  | nan
  | infinite
  | normal
  | subnormal
  | zero
deriving DecidableEq

variable {f : Format}

def kind : Binary f → Kind
  | nan => .nan
  | signed _ magnitude =>
    if magnitude.val = f.infinityCode then .infinite
    else if f.binade ≤ magnitude.val then .normal
    else if magnitude.val = 0 then .zero
    else .subnormal

def isNegative : Binary f → Bool
  | nan => false
  | signed negative _ => negative

section Kinds

variable (negative : Bool) (magnitude : Fin (f.infinityCode + 1))

private theorem kind_signed_ne_nan : (signed negative magnitude).kind ≠ .nan := by
  rw [kind]
  split
  · simp
  · split
    · simp
    · split <;> simp

private theorem kind_eq_infinite_iff :
    (signed negative magnitude).kind = .infinite ↔ magnitude.val = f.infinityCode := by
  rw [kind]
  split
  · simp_all
  · split
    · simp_all
    · split <;> simp_all

private theorem kind_eq_zero_iff (wide : f.binade ≤ f.infinityCode) :
    (signed negative magnitude).kind = .zero ↔ magnitude.val = 0 := by
  have pos : 0 < f.binade := twoPow_pos _
  rw [kind]
  split
  · simp only [reduceCtorEq, false_iff]
    omega
  · split
    · simp only [reduceCtorEq, false_iff]
      omega
    · split <;> simp_all

private theorem kind_small_iff (wide : f.binade ≤ f.infinityCode) :
    ((signed negative magnitude).kind = .zero ∨ (signed negative magnitude).kind = .subnormal) ↔
      magnitude.val < f.binade := by
  rw [kind]
  split
  · simp only [reduceCtorEq, false_or, false_iff]
    omega
  · split
    · simp only [reduceCtorEq, false_or, false_iff]
      omega
    · split <;> simp <;> omega

end Kinds

theorem kind_eq_nan_iff (x : Binary f) : x.kind = .nan ↔ x = nan := by
  cases x with
  | nan => exact iff_of_true rfl rfl
  | signed negative magnitude => exact iff_of_false (kind_signed_ne_nan _ _) (by simp)

theorem eq_infinity_iff (x : Binary f) (negative : Bool) :
    x = infinity negative ↔ x.kind = .infinite ∧ x.isNegative = negative := by
  have code : min f.infinityCode f.infinityCode = f.infinityCode := Nat.min_self _
  cases x with
  | nan => exact iff_of_false (by simp [infinity, ofCode]) (by simp [kind])
  | signed s magnitude =>
    rw [kind_eq_infinite_iff, infinity, ofCode, isNegative]
    simp only [signed.injEq, Fin.ext_iff, code, and_comm]

theorem isNaN_iff (x : Binary f) : x.isNaN = true ↔ x.kind = .nan := by
  cases x with
  | nan => exact iff_of_true rfl rfl
  | signed negative magnitude => exact iff_of_false (by simp [isNaN]) (kind_signed_ne_nan _ _)

private theorem rank_ofCode {code : Nat} (inside : code ≤ f.infinityCode) (negative : Bool) :
    (ofCode negative code : Binary f).rank =
      some (if negative then -(code : Int) else (code : Int)) := by
  simp only [ofCode, rank, Nat.min_eq_left inside]

section Comparisons

variable (wide : f.binade ≤ f.infinityCode)

include wide

theorem less_zero_iff (s : Bool) (x : Binary f) :
    x.less (zero s) = true ↔ x.isNegative = true ∧ x.kind ≠ .zero := by
  rw [less, zero, rank_ofCode (Nat.zero_le _)]
  cases x with
  | nan => simp [rank, isNegative]
  | signed negative magnitude =>
    obtain ⟨code, inside⟩ := magnitude
    rw [ne_eq, kind_eq_zero_iff negative _ wide, rank, isNegative]
    cases negative <;> cases s <;> simp <;> omega

theorem less_leastNormal_iff (x : Binary f) :
    x.less leastNormal = true ↔ x.isNegative = true ∨ x.kind = .zero ∨ x.kind = .subnormal := by
  rw [less, leastNormal, rank_ofCode wide]
  cases x with
  | nan => simp [rank, isNegative, kind]
  | signed negative magnitude =>
    have pos : 0 < f.binade := twoPow_pos _
    rw [kind_small_iff negative magnitude wide, rank, isNegative]
    cases negative with
    | false => simp
    | true =>
      simp only [if_true, Bool.false_eq_true, if_false, decide_eq_true_eq, true_or, iff_true]
      omega

theorem less_infinity_iff (x : Binary f) :
    x.less (infinity false) = true ↔
      x.kind ≠ .nan ∧ (x.kind = .infinite → x.isNegative = true) := by
  rw [less, infinity, rank_ofCode (Nat.le_refl _)]
  cases x with
  | nan => simp [rank, kind]
  | signed negative magnitude =>
    have pos : 0 < f.binade := twoPow_pos _
    have inside := magnitude.isLt
    rw [kind_eq_infinite_iff, rank, isNegative]
    cases negative <;> simp [kind_signed_ne_nan] <;> omega

theorem equal_infinity_iff (x : Binary f) :
    x.equal (infinity false) = true ↔ x.kind = .infinite ∧ x.isNegative = false := by
  rw [equal, infinity, rank_ofCode (Nat.le_refl _)]
  cases x with
  | nan => simp [rank, kind]
  | signed negative magnitude =>
    have pos : 0 < f.binade := twoPow_pos _
    rw [kind_eq_infinite_iff, rank, isNegative]
    cases negative with
    | false =>
      simp only [Bool.false_eq_true, if_false, decide_eq_true_eq, and_true]
      omega
    | true =>
      simp only [if_true, Bool.false_eq_true, if_false, decide_eq_true_eq, Bool.true_eq_false,
        and_false, iff_false]
      omega

end Comparisons

end Binary

end Boosting
