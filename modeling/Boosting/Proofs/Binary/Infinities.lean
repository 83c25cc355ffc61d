/- Operations on infinities.
   An infinite operand makes a sum, a product or a root infinite and a quotient by it zero. Only
   a product with zero is no number then, so numbers from one on are closed under products,
   whatever overflows. -/

import Boosting.Proofs.Binary.Bounds

set_option autoImplicit false
set_option relaxedAutoImplicit false

namespace Boosting

namespace Binary

variable {f : Format}

private theorem significand_eq_zero_iff (wide : 0 < f.infinityCode) {x : Binary f} :
    significand f x.code = 0 ↔ x.isZero = true := by
  rw [isZero_iff_code wide]
  refine ⟨fun noBits => ?_, fun zero => ?_⟩
  · exact Classical.byContradiction fun nonzero => significand_ne_zero nonzero noBits
  · rw [zero]
    exact if_pos (twoPow_pos _)

private theorem code_infinity (negative : Bool) :
    (infinity negative : Binary f).code = f.infinityCode :=
  Nat.min_self _

theorem size_infinity (negative : Bool) : (infinity negative : Binary f).size = f.overflow := by
  rw [size, code_infinity]
  rfl

private theorem eq_infinity_of_overflow_le {x : Binary f} (number : x.isNaN = false)
    (large : f.overflow ≤ x.size) :
    x = infinity x.isNegative :=
  eq_infinity_of_not_isFinite number fun finite => (isFinite_iff_size.mp finite).not_ge large

private theorem overflow_pos (f : Format) (wide : 0 < f.infinityCode) : 0 < f.overflow :=
  f.magnitude_zero ▸ f.magnitude_strictMono wide

theorem Rounds.eq_infinity {x : Binary f} {v : ℝ} (rounded : x.Rounds v) (wide : 0 < f.infinityCode)
    (large : f.overflow ≤ v) : x = infinity false := by
  have positive : 0 < v := (overflow_pos f wide).trans_le large
  have overflows := rounded.le_size f.holds_overflow (large.trans (le_abs_self v))
  rw [eq_infinity_of_overflow_le rounded.number overflows, rounded.isNegative_eq_false positive]

section Finite

variable {x y : Binary f}

theorem infinity_add (s : Bool) (finite : y.isFinite = true) : infinity s + y = infinity s := by
  show (infinity s).add y = _
  rw [add, reading_infinity, reading_of_isFinite finite]

theorem infinity_sub (s : Bool) (finite : y.isFinite = true) : infinity s - y = infinity s :=
  infinity_add s ((isFinite_flip y).trans finite)

theorem infinity_mul_infinity (s t : Bool) :
    (infinity s * infinity t : Binary f) = infinity (s ^^ t) := by
  show (infinity s).mul (infinity t) = _
  rw [mul, reading_infinity, reading_infinity]

private theorem infinity_mul (s : Bool) (wide : 0 < f.infinityCode) (finite : y.isFinite = true)
    (nonzero : ¬ y.isZero = true) : infinity s * y = infinity (s ^^ y.isNegative) := by
  show (infinity s).mul y = _
  rw [mul, reading_infinity, reading_of_isFinite finite]
  exact if_neg (mt (significand_eq_zero_iff wide).mp nonzero)

theorem mul_infinity (t : Bool) (wide : 0 < f.infinityCode) (finite : x.isFinite = true) :
    x * infinity t = if x.isZero then nan else infinity (x.isNegative ^^ t) := by
  show x.mul (infinity t) = _
  rw [mul, reading_of_isFinite finite, reading_infinity]
  simp only [significand_eq_zero_iff wide]

theorem mul_of_isZero (bits : 0 < f.fraction) (wide : 0 < f.infinityCode)
    (zeros : x.isZero = true) :
    (x * y).isZero = true ∨ (x * y).isNaN = true := by
  have code := (isZero_iff_code wide).mp zeros
  have finite : x.isFinite = true := isFinite_iff_code.mpr (code.trans_lt wide)
  by_cases finiteY : y.isFinite = true
  · refine .inl (((rounds_mul bits finite finiteY).isZero_iff wide).mpr ?_)
    rw [abs_mul, abs_value, (isZero_iff_size wide).mp zeros, zero_mul, mul_zero]
    exact (two_zpow_pos _).le
  · refine .inr ?_
    cases y with
    | nan =>
      show (x.mul nan).isNaN = true
      rw [mul, reading_of_isFinite finite]
      rfl
    | signed negative magnitude =>
      rw [eq_infinity_of_not_isFinite rfl finiteY, mul_infinity _ wide finite, if_pos zeros]
      rfl

theorem div_infinity (t : Bool) (finite : x.isFinite = true) :
    x / infinity t = zero (x.isNegative ^^ t) := by
  show x.div (infinity t) = _
  rw [div, reading_of_isFinite finite, reading_infinity]

theorem sqrt_infinity : (infinity false : Binary f).sqrt = infinity false := by
  rw [sqrt, reading_infinity]
  rfl

theorem fma_infinity_infinity (s t : Bool) (finite : y.isFinite = true) :
    (infinity s).fma (infinity t) y = infinity (s ^^ t) := by
  rw [fma, reading_infinity, reading_infinity]
  show infinity s * infinity t + y = _
  rw [infinity_mul_infinity, infinity_add _ finite]

private theorem convert_infinity {g : Format} (s : Bool) :
    ((infinity s : Binary f).convert : Binary g) = infinity s := by
  rw [convert, reading_infinity]

theorem isFinite_of_isFinite_convert {g : Format} (number : x.isNaN = false)
    (finite : (x.convert : Binary g).isFinite = true) : x.isFinite = true := by
  refine Classical.byContradiction fun large => ?_
  rw [eq_infinity_of_not_isFinite number large, convert_infinity, isFinite_iff_code,
    code_infinity] at finite
  exact Nat.lt_irrefl _ finite

end Finite

section Large

variable (wide : 0 < f.fraction) (large : 0 < f.infinityCode) (one : f.Holds 1) {x y : Binary f}

include large

theorem not_isZero_of_one_le (atLeast : 1 ≤ x.size) : ¬ x.isZero = true :=
  not_isZero_of_size_pos large (one_pos.trans_le atLeast)

include wide one

theorem one_le_mul (numberX : x.isNaN = false) (atLeastX : 1 ≤ x.size) (numberY : y.isNaN = false)
    (atLeastY : 1 ≤ y.size) : (x * y).isNaN = false ∧ 1 ≤ (x * y).size := by
  have infinite : ∀ s : Bool, (infinity s : Binary f).isNaN = false ∧
      1 ≤ (infinity s : Binary f).size := by
    intro s
    refine ⟨rfl, ?_⟩
    rw [size_infinity]
    exact atLeastX.trans (size_le_overflow x)
  by_cases finiteX : x.isFinite = true
  · by_cases finiteY : y.isFinite = true
    · have rounded := rounds_mul wide finiteX finiteY
      refine ⟨rounded.number, rounded.le_size one ?_⟩
      rw [abs_mul, abs_value, abs_value]
      exact one_le_mul_of_one_le_of_one_le atLeastX atLeastY
    · rw [eq_infinity_of_not_isFinite numberY finiteY, mul_infinity _ large finiteX,
        if_neg (not_isZero_of_one_le large atLeastX)]
      exact infinite _
  · rw [eq_infinity_of_not_isFinite numberX finiteX]
    by_cases finiteY : y.isFinite = true
    · rw [infinity_mul _ large finiteY (not_isZero_of_one_le large atLeastY)]
      exact infinite _
    · rw [eq_infinity_of_not_isFinite numberY finiteY, infinity_mul_infinity]
      exact infinite _

omit one in
theorem isNaN_div_eq_false (finite : x.isFinite = true) (number : y.isNaN = false)
    (atLeast : 1 ≤ y.size) :
    (x / y).isNaN = false := by
  by_cases finiteY : y.isFinite = true
  · exact (rounds_div wide large finite finiteY (not_isZero_of_one_le large atLeast)).number
  · rw [eq_infinity_of_not_isFinite number finiteY, div_infinity _ finite]
    rfl

end Large

end Binary

end Boosting
