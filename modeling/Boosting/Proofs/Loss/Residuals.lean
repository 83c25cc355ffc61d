/- Pseudo-Huber losses of large residuals.
   The square of the residual over the scale overflows from two to the 64th on, and the root with
   it. The gradient is zero there, as it is for no other residual but zero. All results stay
   numbers, unless the square of the scale has vanished: then the metric is no number wherever
   the root is infinite. -/

import Boosting.Loss.PseudoHuber
import Boosting.Proofs.Loss.Root

set_option autoImplicit false
set_option relaxedAutoImplicit false

namespace Boosting

open Binary Format

namespace PseudoHuber

theorem ofDelta_eq_ok_iff {delta : Double} {h : PseudoHuber} :
    ofDelta delta = .ok h ↔ delta.isZero = false ∧ delta.isFinite = true ∧
      (squareOf delta).isFinite = true ∧ (inverseOf delta).isFinite = true ∧
      h = ⟨delta, inverseOf delta, squareOf delta⟩ := by
  rw [ofDelta]
  cases delta.isZero <;> cases delta.isFinite <;> cases (squareOf delta).isFinite <;>
    cases (inverseOf delta).isFinite <;> simp [eq_comm]

variable (h : PseudoHuber) (k : Lanes) (score target : Single)

def ratio : Single :=
  (score - target) * h.deltaInverted

def overflows : Bool :=
  (18446744073709551616 : Single).lessEq (h.ratio score target).abs

section Results

variable {h score target} (scale : h.deltaInverted.isFinite = true)
  (finite : (score - target).isFinite = true)

include scale finite

theorem rounds_ratio :
    (h.ratio score target).Rounds ((score - target).value * h.deltaInverted.value) :=
  rounds_mul single_fraction_pos finite scale

private theorem overflows_iff :
    h.overflows score target = true ↔ 2 ^ (64 : Int) ≤ (h.ratio score target).size := by
  have rounded : (18446744073709551616 : Single).Rounds ((18446744073709551616 : Nat) : ℝ) :=
    rounds_ofNat single_fraction_pos _
  have power : ((18446744073709551616 : Nat) : ℝ) = 2 ^ (64 : Int) := by norm_num
  rw [power] at rounded
  have positive : (0 : ℝ) < 2 ^ (64 : Int) := two_zpow_pos _
  have sign := rounded.isNegative_eq_false positive
  have number := (rounds_ratio scale finite).number
  rw [overflows, lessEq_iff_size_le rounded.number (by simp [number]) sign (by simp), size_abs,
    rounded.size_eq positive.le (single_holds_two_zpow (by decide))]

private theorem one_le_root : (k.rootOfSquare (h.ratio score target)).isNaN = false ∧
    1 ≤ (k.rootOfSquare (h.ratio score target)).size := by
  have number := (rounds_ratio scale finite).number
  rcases lt_or_ge (h.ratio score target).size (2 ^ (64 : Int)) with small | large
  · exact ⟨isNaN_of_isFinite (k.isFinite_rootOfSquare small), k.one_le_rootOfSquare small⟩
  · rw [k.rootOfSquare_of_large number large]
    refine ⟨rfl, ?_⟩
    rw [size_infinity, overflow_single]
    norm_num

/-- A root that is not infinite is less than the residual in units of half the least number. -/
private theorem root_lt_residual (small : (h.ratio score target).size < 2 ^ (64 : Int))
    (nonzero : ¬ (score - target).isZero = true) :
    (k.rootOfSquare (h.ratio score target)).size < 2 ^ (150 : Int) * (score - target).size := by
  obtain ⟨j, bottom, atLeast, below⟩ := exists_binade single_infinityCode_pos nonzero
  obtain ⟨i, steps⟩ : ∃ i : Nat, j + 149 = i := Int.eq_ofNat_of_zero_le (by
    have lowest : single.lowestPlace = -149 := rfl
    omega)
  have bounded : (h.ratio score target).size ≤ 2 ^ (i : Int) := by
    rcases Nat.lt_or_ge i 64 with low | high
    · refine (rounds_ratio scale finite).size_le (single_holds_two_zpow (by omega)) ?_
      have inverse := size_le_overflow h.deltaInverted
      rw [overflow_single] at inverse
      rw [abs_mul, abs_value, abs_value]
      calc (score - target).size * h.deltaInverted.size
        _ ≤ 2 ^ (j + 1) * 2 ^ (128 : Int) :=
          mul_le_mul below.le inverse h.deltaInverted.size_nonneg (two_zpow_pos _).le
        _ = 2 ^ (j + 1 + 128) := (two_zpow_add _ _).symm
        _ ≤ 2 ^ (i : Int) := two_zpow_le (by omega)
    · exact small.le.trans (two_zpow_le (by omega))
  calc (k.rootOfSquare (h.ratio score target)).size
    _ < 2 ^ ((i : Int) + 1) := k.rootOfSquare_lt small bounded
    _ = 2 ^ (150 : Int) * 2 ^ j := by
      rw [← two_zpow_add, ← steps]
      congr 1
      omega
    _ ≤ 2 ^ (150 : Int) * (score - target).size :=
      mul_le_mul_of_nonneg_left atLeast (two_zpow_pos _).le

private theorem isZero_gradient_iff : (h.gradient k score target).isZero = true ↔
    (score - target).isZero = true ∨ h.overflows score target = true := by
  have number := (rounds_ratio scale finite).number
  have quotient :
      h.gradient k score target = (score - target) / k.rootOfSquare (h.ratio score target) := rfl
  rw [overflows_iff scale finite, quotient]
  rcases lt_or_ge (h.ratio score target).size (2 ^ (64 : Int)) with small | large
  · have atLeast := k.one_le_rootOfSquare small
    have quotient := rounds_div single_fraction_pos single_infinityCode_pos finite
      (k.isFinite_rootOfSquare small) (not_isZero_of_one_le single_infinityCode_pos atLeast)
    have bottom : single.lowestPlace = -149 := rfl
    have positive : 0 < (k.rootOfSquare (h.ratio score target)).size := by linarith
    rw [or_iff_left small.not_ge, quotient.isZero_iff single_infinityCode_pos, abs_div, abs_value,
      abs_value, bottom, ← mul_div_assoc, div_le_iff₀ positive]
    refine ⟨fun tiny => ?_, fun zeros => ?_⟩
    · refine Classical.byContradiction fun nonzero => ?_
      have root := root_lt_residual k scale finite small nonzero
      norm_num at tiny root
      linarith
    · rw [(isZero_iff_size single_infinityCode_pos).mp zeros, mul_zero]
      positivity
  · rw [k.rootOfSquare_of_large number large, div_infinity _ finite]
    exact iff_of_true rfl (.inr large)

private theorem isNaN_metric_iff (square : h.deltaSquared.isFinite = true) :
    (h.metric k score target).isNaN = true ↔
    h.deltaSquared.isZero = true ∧ h.overflows score target = true := by
  have number := (rounds_ratio scale finite).number
  have product :
      h.metric k score target = h.deltaSquared * (k.rootOfSquare (h.ratio score target) - 1) := rfl
  rw [overflows_iff scale finite, product]
  rcases lt_or_ge (h.ratio score target).size (2 ^ (64 : Int)) with small | large
  · have product := rounds_mul single_fraction_pos square (k.isFinite_sub_one small)
    rw [product.number]
    exact iff_of_false Bool.false_ne_true fun both => small.not_ge both.2
  · rw [k.rootOfSquare_of_large number large, infinity_sub _ isFinite_one,
      mul_infinity _ single_infinityCode_pos square]
    cases h.deltaSquared.isZero with
    | true => exact iff_of_true rfl ⟨rfl, large⟩
    | false => exact iff_of_false Bool.false_ne_true fun both => Bool.false_ne_true both.1

private theorem isNaN_gradient_eq_false : (h.gradient k score target).isNaN = false := by
  obtain ⟨number, atLeast⟩ := one_le_root k scale finite
  exact isNaN_div_eq_false single_fraction_pos single_infinityCode_pos finite number atLeast

private theorem isNaN_hessian_eq_false : (h.gradientHessian k score target).2.isNaN = false := by
  obtain ⟨number, atLeast⟩ := one_le_root k scale finite
  obtain ⟨numberSquare, atLeastSquare⟩ :=
    one_le_mul single_fraction_pos single_infinityCode_pos single_holds_one number atLeast
      number atLeast
  obtain ⟨numberCube, atLeastCube⟩ :=
    one_le_mul single_fraction_pos single_infinityCode_pos single_holds_one numberSquare
      atLeastSquare number atLeast
  exact isNaN_div_eq_false single_fraction_pos single_infinityCode_pos isFinite_one numberCube
    atLeastCube

end Results

/-- On a finite residual the gradient and the hessian of an accepted scale are numbers, and the
metric is one too, unless the square of the scale has vanished and the square of the residual over
the scale overflows. The gradient is zero where the residual is, and where that square overflows. -/
theorem results_are_numbers {delta : Double} {h : PseudoHuber} (accepted : ofDelta delta = .ok h)
    (k : Lanes) {score target : Single} (finite : (score - target).isFinite = true) :
    (h.gradient k score target).isNaN = false ∧
      (h.gradientHessian k score target).1 = h.gradient k score target ∧
      (h.gradientHessian k score target).2.isNaN = false ∧
      ((h.metric k score target).isNaN = true ↔
        h.deltaSquared.isZero = true ∧ h.overflows score target = true) ∧
      ((h.gradient k score target).isZero = true ↔
        (score - target).isZero = true ∨ h.overflows score target = true) := by
  obtain ⟨-, -, square, inverse, rfl⟩ := ofDelta_eq_ok_iff.mp accepted
  exact ⟨isNaN_gradient_eq_false k inverse finite, rfl, isNaN_hessian_eq_false k inverse finite,
    isNaN_metric_iff k inverse finite square, isZero_gradient_iff k inverse finite⟩

theorem results_are_numbers_of_large_residual :
    ofDelta 1 = .ok ⟨1, 1, 1⟩ ∧ (100000000000000000000 - 0 : Single).isFinite = true ∧
      ((⟨1, 1, 1⟩ : PseudoHuber).gradient .packed 100000000000000000000 0).isZero = true := by
  have accepted : ofDelta 1 = .ok ⟨1, 1, 1⟩ := by decide +kernel
  have finite : (100000000000000000000 - 0 : Single).isFinite = true := by decide +kernel
  obtain ⟨-, -, -, -, zeros⟩ := results_are_numbers accepted .packed finite
  exact ⟨accepted, finite, zeros.mpr (.inr (by decide +kernel))⟩

/-- The gradient is not zero for zero residuals alone. -/
theorem not_isZero_sub_of_isZero_gradient :
    ¬ ∀ (delta : Double) (h : PseudoHuber) (k : Lanes) (score target : Single),
      ofDelta delta = .ok h →
      score.isFinite = true → target.isFinite = true → (score - target).isFinite = true →
      (h.gradient k score target).isNaN = false ∧
        (h.gradientHessian k score target).2.isNaN = false ∧
        (h.metric k score target).isNaN = false ∧
        ((h.gradient k score target).isZero = true → (score - target).isZero = true) := by
  intro usable
  have one : ofDelta 1 = .ok ⟨1, 1, 1⟩ := by decide +kernel
  obtain ⟨-, -, -, zeros⟩ := usable 1 _ .scalar 100000000000000000000 0 one (by decide +kernel)
    (by decide +kernel) (by decide +kernel)
  have vanished :
      ((⟨1, 1, 1⟩ : PseudoHuber).gradient .scalar 100000000000000000000 0).isZero = true := by
    decide +kernel
  have residual : (100000000000000000000 - 0 : Single).isZero = false := by decide +kernel
  rw [zeros vanished] at residual
  cases residual

end PseudoHuber

end Boosting
