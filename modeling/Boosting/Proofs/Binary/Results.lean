/- Results of arithmetic.
   An operation on finite numbers gives the exact result rounded to nearest: a number whose
   magnitude code is the nearest one to the exact magnitude, with the sign of the exact result.
   From this alone follow the bounds on results, since rounding keeps to the same side of every
   number of the format. -/

import Boosting.Proofs.Binary.Kinds
import Boosting.Proofs.Binary.Nearest

set_option autoImplicit false
set_option relaxedAutoImplicit false

namespace Boosting

noncomputable def withSign (negative : Bool) (v : ℝ) : ℝ :=
  if negative then -v else v

private theorem abs_withSign (negative : Bool) {v : ℝ} (nonneg : 0 ≤ v) :
    |withSign negative v| = v := by
  cases negative
  · exact abs_of_nonneg nonneg
  · exact (abs_neg v).trans (abs_of_nonneg nonneg)

private theorem withSign_mul_withSign (s t : Bool) (v w : ℝ) :
    withSign s v * withSign t w = withSign (s ^^ t) (v * w) := by
  cases s <;> cases t <;> simp [withSign]

theorem withSign_div_withSign (s t : Bool) (v w : ℝ) :
    withSign s v / withSign t w = withSign (s ^^ t) (v / w) := by
  cases s <;> cases t <;> simp [withSign, neg_div, div_neg]

private theorem withSign_not (s : Bool) (v : ℝ) : withSign (!s) v = -withSign s v := by
  cases s <;> simp [withSign]

theorem withSign_zero (s : Bool) : withSign s 0 = 0 := by
  cases s <;> simp [withSign]

namespace Binary

variable {f : Format}

/-- The magnitude code; `nan` has that of infinity. -/
def code : Binary f → Nat
  | nan => f.infinityCode
  | signed _ magnitude => magnitude.val

/-- The magnitude of a number, which for infinity is the least power of two that is too large. -/
noncomputable def size (x : Binary f) : ℝ :=
  f.magnitude x.code

noncomputable def value (x : Binary f) : ℝ :=
  withSign x.isNegative x.size

theorem code_le_infinityCode (x : Binary f) : x.code ≤ f.infinityCode := by
  cases x with
  | nan => exact Nat.le_refl _
  | signed negative magnitude => exact Nat.le_of_lt_succ magnitude.isLt

private theorem code_ofCode (negative : Bool) (c : Nat) :
    (ofCode negative c : Binary f).code = min c f.infinityCode := rfl

theorem size_nonneg (x : Binary f) : 0 ≤ x.size :=
  f.magnitude_nonneg x.code

theorem abs_value (x : Binary f) : |x.value| = x.size :=
  abs_withSign _ x.size_nonneg

theorem value_zero (negative : Bool) : (zero negative : Binary f).value = 0 := by
  have code : (zero negative : Binary f).code = 0 := Nat.zero_min _
  rw [value, size, code, f.magnitude_zero, withSign_zero]

private theorem value_flip (x : Binary f) (number : x.isNaN = false) : x.flip.value = -x.value := by
  cases x with
  | nan => cases number
  | signed negative magnitude => exact withSign_not negative _

theorem isFinite_flip (x : Binary f) : x.flip.isFinite = x.isFinite := by
  cases x <;> rfl

@[simp]
theorem isNaN_abs (x : Binary f) : x.abs.isNaN = x.isNaN := by
  cases x <;> rfl

@[simp]
theorem isNegative_abs (x : Binary f) : x.abs.isNegative = false := by
  cases x <;> rfl

@[simp]
theorem size_abs (x : Binary f) : x.abs.size = x.size := by
  cases x <;> rfl

theorem isFinite_iff_code {x : Binary f} : x.isFinite = true ↔ x.code < f.infinityCode := by
  cases x with
  | nan => exact iff_of_false Bool.false_ne_true (Nat.lt_irrefl _)
  | signed negative magnitude => exact decide_eq_true_iff

theorem isFinite_iff_size {x : Binary f} :
    x.isFinite = true ↔ x.size < f.magnitude f.infinityCode := by
  rw [isFinite_iff_code, size, f.magnitude_strictMono.lt_iff_lt]

theorem isZero_iff_code (wide : 0 < f.infinityCode) {x : Binary f} :
    x.isZero = true ↔ x.code = 0 := by
  cases x with
  | nan => exact iff_of_false Bool.false_ne_true (Nat.ne_of_gt wide)
  | signed negative magnitude => exact beq_iff_eq

theorem isZero_iff_size (wide : 0 < f.infinityCode) {x : Binary f} :
    x.isZero = true ↔ x.size = 0 := by
  rw [isZero_iff_code wide, size, ← f.magnitude_zero, f.magnitude_strictMono.injective.eq_iff]

theorem not_isZero_of_size_pos (wide : 0 < f.infinityCode) {x : Binary f} (positive : 0 < x.size) :
    ¬ x.isZero = true :=
  mt (isZero_iff_size wide).mp positive.ne'

theorem eq_infinity_of_not_isFinite {x : Binary f} (number : x.isNaN = false)
    (large : ¬ x.isFinite = true) : x = infinity x.isNegative := by
  cases x with
  | nan => cases number
  | signed negative magnitude =>
    have inside := magnitude.isLt
    have code : magnitude.val = f.infinityCode := by
      rw [isFinite, decide_eq_true_iff] at large
      omega
    exact congrArg _ (Fin.ext (code.trans (Nat.min_self _).symm))

private theorem value_mul_value (x y : Binary f) :
    x.value * y.value = withSign (x.isNegative ^^ y.isNegative)
      ((significand f x.code * significand f y.code : Nat) *
        2 ^ (place f x.code + place f y.code)) := by
  rw [value, value, withSign_mul_withSign, two_zpow_add, size, size, Format.magnitude,
    Format.magnitude]
  congr 1
  push_cast
  ring

theorem value_mul_self (x : Binary f) : x.value * x.value = x.size ^ 2 := by
  rw [← abs_value, sq_abs, sq]

theorem reading_of_isFinite {x : Binary f} (finite : x.isFinite = true) :
    x.reading = .finite x.isNegative (significand f x.code) (place f x.code) := by
  cases x with
  | nan => cases finite
  | signed negative magnitude => exact if_neg (Nat.ne_of_lt (isFinite_iff_code.mp finite))

theorem reading_infinity (negative : Bool) :
    (infinity negative : Binary f).reading = .infinite negative :=
  if_pos (Nat.min_self _)

/-- The number that is nearest to a value: it stays at or below a code exactly if the magnitude of
the value rounds so, and has the sign of the value. -/
structure Rounds (x : Binary f) (v : ℝ) : Prop where
  number : x.isNaN = false
  code_le_iff : ∀ c < f.infinityCode, x.code ≤ c ↔ f.RoundsWithin |v| c
  sign : v ≠ 0 → (x.isNegative = true ↔ v < 0)

theorem rounds_ofCode (negative : Bool) {c : Nat} {v : ℝ} (nonneg : 0 ≤ v)
    (nearest : ∀ k, c ≤ k ↔ f.RoundsWithin v k) :
    (ofCode negative c : Binary f).Rounds (withSign negative v) where
  number := rfl
  code_le_iff k inside := by
    rw [abs_withSign negative nonneg, ← nearest k, code_ofCode]
    omega
  sign nonzero := by
    have positive : 0 < v := by
      refine lt_of_le_of_ne nonneg fun zero => nonzero ?_
      rw [← zero, withSign_zero]
    cases negative
    · exact iff_of_false Bool.false_ne_true positive.le.not_gt
    · exact iff_of_true rfl (neg_lt_zero.mpr positive)

section Operations

variable (wide : 0 < f.fraction)

include wide

private theorem rounds_ofDyadic (negative : Bool) (m : Nat) (e : Int) :
    (ofDyadic negative m e : Binary f).Rounds (withSign negative (m * 2 ^ e)) :=
  rounds_ofCode negative (mul_nonneg (Nat.cast_nonneg m) (two_zpow_pos e).le)
    (nearestCode_le_iff wide m e)

theorem rounds_two_zpow (e : Int) : (ofDyadic false 1 e : Binary f).Rounds (2 ^ e) := by
  have value : withSign false (((1 : Nat) : ℝ) * 2 ^ e) = 2 ^ e := by
    rw [Nat.cast_one, one_mul]
    rfl
  exact value ▸ rounds_ofDyadic wide false 1 e

theorem rounds_ofNat (n : Nat) : (ofNat n : Binary f).Rounds n := by
  have value : withSign false ((n : ℝ) * 2 ^ (0 : Int)) = n := by
    rw [zpow_zero, mul_one]
    rfl
  exact value ▸ rounds_ofDyadic wide false n 0

theorem rounds_zero (negative : Bool) : (zero negative : Binary f).Rounds 0 := by
  have value : withSign negative (((0 : Nat) : ℝ) * 2 ^ (0 : Int)) = 0 := by
    rw [Nat.cast_zero, zero_mul, withSign_zero]
  exact value ▸ rounds_ofDyadic wide negative 0 0

theorem rounds_convert {g : Format} {x : Binary g} (finite : x.isFinite = true) :
    (x.convert : Binary f).Rounds x.value := by
  rw [convert, reading_of_isFinite finite]
  exact rounds_ofDyadic wide _ _ _

theorem rounds_mul {x y : Binary f} (finiteX : x.isFinite = true) (finiteY : y.isFinite = true) :
    (x * y).Rounds (x.value * y.value) := by
  show (x.mul y).Rounds _
  rw [mul, reading_of_isFinite finiteX, reading_of_isFinite finiteY, value_mul_value]
  exact rounds_ofDyadic wide _ _ _

omit wide in
private theorem cast_signedShift (s : Bool) (m : Nat) {low e : Int} (le : low ≤ e) :
    (signedShift s m (e - low) : ℝ) * 2 ^ low = withSign s (m * 2 ^ e) := by
  obtain ⟨up, rfl⟩ := Int.le.dest le
  have steps : (low + up - low).toNat = up := by omega
  have shifted : ((m <<< up : Nat) : ℝ) * 2 ^ low = m * 2 ^ (low + up : Int) := by
    rw [Nat.shiftLeft_eq, two_zpow_add, zpow_natCast]
    push_cast
    ring
  rw [signedShift, steps, withSign, ← shifted]
  cases s with
  | false => rfl
  | true => exact (congrArg (· * _) (Int.cast_neg _)).trans (neg_mul _ _)

private theorem rounds_roundedSum (s : Bool) (m : Nat) (e : Int) (t : Bool) (n : Nat) (g : Int) :
    (roundedSum s m e t n g : Binary f).Rounds
      (withSign s (m * 2 ^ e) + withSign t (n * 2 ^ g)) := by
  have exact : ((signedShift s m (e - min e g) + signedShift t n (g - min e g) : Int) : ℝ) *
      2 ^ min e g = withSign s (m * 2 ^ e) + withSign t (n * 2 ^ g) := by
    rw [Int.cast_add, add_mul, cast_signedShift s m (Int.min_le_left e g),
      cast_signedShift t n (Int.min_le_right e g)]
  rw [roundedSum]
  generalize signedShift s m (e - min e g) + signedShift t n (g - min e g) = total at exact ⊢
  rw [← exact]
  split
  · rename_i none
    rw [none, Int.cast_zero, zero_mul]
    exact rounds_zero wide _
  · have signed :
        withSign (decide (total < 0)) (total.natAbs * 2 ^ min e g) = total * 2 ^ min e g := by
      rw [Nat.cast_natAbs, withSign]
      rcases lt_or_ge total 0 with negative | nonneg
      · rw [if_pos (decide_eq_true negative), abs_of_neg negative]
        push_cast
        ring
      · rw [if_neg (by simpa using nonneg), abs_of_nonneg nonneg]
    rw [← signed]
    exact rounds_ofDyadic wide _ _ _

theorem rounds_add {x y : Binary f} (finiteX : x.isFinite = true) (finiteY : y.isFinite = true) :
    (x + y).Rounds (x.value + y.value) := by
  show (x.add y).Rounds _
  rw [add, reading_of_isFinite finiteX, reading_of_isFinite finiteY]
  exact rounds_roundedSum wide _ _ _ _ _ _

theorem rounds_sub {x y : Binary f} (finiteX : x.isFinite = true) (finiteY : y.isFinite = true) :
    (x - y).Rounds (x.value - y.value) := by
  rw [sub_eq_add_neg, ← value_flip y (isNaN_of_isFinite finiteY)]
  exact rounds_add wide finiteX ((isFinite_flip y).trans finiteY)

theorem rounds_fma {x y z : Binary f} (finiteX : x.isFinite = true) (finiteY : y.isFinite = true)
    (finiteZ : z.isFinite = true) : (x.fma y z).Rounds (x.value * y.value + z.value) := by
  rw [fma, reading_of_isFinite finiteX, reading_of_isFinite finiteY, reading_of_isFinite finiteZ,
    value_mul_value]
  exact rounds_roundedSum wide _ _ _ _ _ _

end Operations

end Binary

end Boosting
