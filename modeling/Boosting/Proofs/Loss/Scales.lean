/- Scales of the pseudo-Huber loss.
   The constants of an accepted scale are finite, and its inverse is not zero. Its square
   vanishes for the scales up to two to the -75th, and then no residual has a metric other than
   zero; with any other square some residual has. -/

import Boosting.Proofs.Loss.Residuals

set_option autoImplicit false
set_option relaxedAutoImplicit false

namespace Boosting

open Binary Format

namespace PseudoHuber

section Constants

variable {delta : Double}

theorem rounds_square (finite : delta.isFinite = true) :
    (delta * delta).Rounds (delta.size ^ 2) := by
  rw [← value_mul_self]
  exact rounds_mul double_fraction_pos finite finite

private theorem rounds_squareOf (finite : delta.isFinite = true)
    (square : (squareOf delta).isFinite = true) :
    (squareOf delta).Rounds (delta * delta).size := by
  have product := rounds_square finite
  rw [← product.value_eq_size (sq_nonneg _)]
  exact rounds_convert single_fraction_pos (isFinite_of_isFinite_convert product.number square)

private theorem isZero_squareOf_iff (finite : delta.isFinite = true)
    (square : (squareOf delta).isFinite = true) :
    (squareOf delta).isZero = true ↔ delta.size ≤ 2 ^ (-75 : Int) := by
  have bottom : single.lowestPlace = -149 := rfl
  have product := rounds_square finite
  have known : |delta.size ^ 2| = delta.size ^ 2 := abs_of_nonneg (sq_nonneg _)
  rw [(rounds_squareOf finite square).isZero_iff single_infinityCode_pos,
    abs_of_nonneg (size_nonneg _), bottom]
  refine ⟨fun tiny => le_of_not_gt fun above => ?_, fun small => ?_⟩
  · have least : 4503599627370496 * 2 ^ (-127 : Int) < delta.size := by
      refine lt_of_eq_of_lt ?_ above
      norm_num
    have next := succ_le_size (m := 4503599627370496) (by decide) (by decide) (by decide) least
    have atLeast : 4503599627370497 * 2 ^ (-202 : Int) ≤ (delta * delta).size := by
      refine product.le_size (double_holds 4503599627370497 (-202) (by norm_num) (by decide)) ?_
      have whole := mul_le_mul next next (by positivity) delta.size_nonneg
      rw [known, sq]
      refine le_trans ?_ whole
      norm_num
    norm_num at tiny atLeast
    linarith
  · have atMost : (delta * delta).size ≤ 2 ^ (-150 : Int) := by
      refine product.size_le (double_holds 1 (-150) (by norm_num) (by decide)) ?_
      rw [known]
      exact sq_le_two_zpow delta.size_nonneg small
    norm_num at atMost ⊢
    linarith

private theorem size_lt_of_square (finite : delta.isFinite = true)
    (square : (squareOf delta).isFinite = true) :
    delta.size < 2 ^ (64 : Int) := by
  refine lt_of_not_ge fun large => ?_
  have atLeast : 2 ^ (128 : Int) ≤ (delta * delta).size := by
    refine (rounds_square finite).le_size (double_holds 1 128 (by norm_num) (by decide)) ?_
    rw [abs_of_nonneg (sq_nonneg _)]
    exact two_zpow_le_sq large
  have overflows := (rounds_squareOf finite square).le_size single.holds_overflow (by
    rw [overflow_single, abs_of_nonneg (size_nonneg _)]
    exact atLeast)
  exact (isFinite_iff_size.mp square).not_ge overflows

theorem rounds_inverse (finite : delta.isFinite = true) (nonzero : ¬ delta.isZero = true) :
    ((1 : Double) / delta).Rounds (1 / delta.value) := by
  have isFiniteOne : (1 : Double).isFinite = true := by decide
  have one : (1 : Double).value = 1 := by
    have held : double.Holds ((1 : Nat) : ℝ) := double_holds 1 0 (by norm_num) (by decide)
    exact (value_ofNat double_fraction_pos held).trans Nat.cast_one
  rw [← one]
  exact rounds_div double_fraction_pos double_infinityCode_pos isFiniteOne finite nonzero

theorem abs_inverse (delta : Double) : |1 / delta.value| = 1 / delta.size := by
  rw [abs_div, abs_one, abs_value]

private theorem inverseOf_ge (finite : delta.isFinite = true) (nonzero : ¬ delta.isZero = true)
    (square : (squareOf delta).isFinite = true) (inverse : (inverseOf delta).isFinite = true) :
    2 ^ (-64 : Int) ≤ (inverseOf delta).size := by
  have quotient := rounds_inverse finite nonzero
  have positive : 0 < delta.size :=
    (two_zpow_pos _).trans_le (least_le_size double_infinityCode_pos nonzero)
  have below := size_lt_of_square finite square
  have atLeast : 2 ^ (-64 : Int) ≤ ((1 : Double) / delta).size := by
    refine quotient.le_size (double_holds 1 (-64) (by norm_num) (by decide)) ?_
    rw [abs_inverse, le_div_iff₀ positive]
    norm_num at below ⊢
    linarith
  have finiteQuotient := isFinite_of_isFinite_convert quotient.number inverse
  refine (rounds_convert single_fraction_pos finiteQuotient).le_size
    (single_holds_two_zpow (by decide)) ?_
  rwa [abs_value]

end Constants

section Metric

variable {h : PseudoHuber} (k : Lanes)

private theorem exists_ratio (scale : h.deltaInverted.isFinite = true)
    (large : 2 ^ (-64 : Int) ≤ h.deltaInverted.size)
    {a : Int} (low : -2 ≤ a) (high : a ≤ 2) : ∃ score : Single, score.isFinite = true ∧
      (score - zero false).isFinite = true ∧
      2 ^ a ≤ (h.ratio score (zero false)).size ∧
      (h.ratio score (zero false)).size ≤ 2 ^ (a + 1) := by
  have nonzero := not_isZero_of_size_pos single_infinityCode_pos ((two_zpow_pos _).trans_le large)
  obtain ⟨j, -, atLeast, below⟩ := exists_binade single_infinityCode_pos nonzero
  have top : h.deltaInverted.size < 2 ^ (128 : Int) :=
    (isFinite_iff_size.mp scale).trans_eq overflow_single
  have bottom : -64 < j + 1 := (zpow_lt_zpow_iff_right₀ one_lt_two).mp (large.trans_lt below)
  have ceiling : j < 128 := (zpow_lt_zpow_iff_right₀ one_lt_two).mp (atLeast.trans_lt top)
  have held : single.Holds (2 ^ (a - j)) := single_holds_two_zpow (by omega)
  have positive := two_zpow_pos (a - j)
  have power : (2 : ℝ) ^ (a - j) < 2 ^ (128 : Int) := zpow_lt_zpow_right₀ one_lt_two (by omega)
  have score := rounds_two_zpow (f := single) single_fraction_pos (a - j)
  have size := score.size_eq positive.le held
  have finite : (ofDyadic false 1 (a - j) : Single).isFinite = true :=
    isFinite_of_size_lt (size.trans_lt power)
  have residual := rounds_sub single_fraction_pos finite (y := (zero false : Single)) (by decide)
  rw [score.value_eq_size positive.le, size, value_zero, sub_zero] at residual
  have sizeResidual := residual.size_eq positive.le held
  have finiteResidual := isFinite_of_size_lt (sizeResidual.trans_lt power)
  have ratio := rounds_ratio scale finiteResidual
  have exact : |(ofDyadic false 1 (a - j) - zero false : Single).value * h.deltaInverted.value| =
      2 ^ (a - j) * h.deltaInverted.size := by
    rw [abs_mul, abs_value, abs_value, sizeResidual]
  refine ⟨_, finite, finiteResidual, ?_, ?_⟩
  · refine ratio.le_size (single_holds_two_zpow (by omega)) ?_
    rw [exact]
    calc (2 : ℝ) ^ a
      _ = 2 ^ (a - j) * 2 ^ j := by rw [← two_zpow_add, Int.sub_add_cancel]
      _ ≤ 2 ^ (a - j) * h.deltaInverted.size := mul_le_mul_of_nonneg_left atLeast positive.le
  · refine ratio.size_le (single_holds_two_zpow (by omega)) ?_
    rw [exact]
    calc 2 ^ (a - j) * h.deltaInverted.size
      _ ≤ 2 ^ (a - j) * 2 ^ (j + 1) := mul_le_mul_of_nonneg_left below.le positive.le
      _ = 2 ^ (a + 1) := by
        rw [← two_zpow_add]
        congr 1
        omega

private theorem metric_between (square : h.deltaSquared.isFinite = true) {score target : Single}
    (small : (h.ratio score target).size < 2 ^ (64 : Int)) {low high b t : ℝ}
    (heldLow : single.Holds low) (heldHigh : single.Holds high) (heldB : single.Holds b)
    (heldT : single.Holds t) (nonneg : 0 ≤ low)
    (atLeast : low + 1 ≤ (k.rootOfSquare (h.ratio score target)).size)
    (atMost : (k.rootOfSquare (h.ratio score target)).size ≤ high + 1)
    (least : b ≤ h.deltaSquared.size * low) (most : h.deltaSquared.size * high ≤ t) :
    b ≤ (h.metric k score target).size ∧ (h.metric k score target).size ≤ t := by
  obtain ⟨lower, upper⟩ := k.size_sub_one_between small heldLow heldHigh nonneg atLeast atMost
  have product := rounds_mul single_fraction_pos square (k.isFinite_sub_one small)
  have exact : |h.deltaSquared.value * (k.rootOfSquare (h.ratio score target) - 1).value| =
      h.deltaSquared.size * (k.rootOfSquare (h.ratio score target) - 1).size := by
    rw [abs_mul, abs_value, abs_value]
  refine ⟨product.le_size heldB ?_, product.size_le heldT ?_⟩
  · rw [exact]
    exact least.trans (mul_le_mul_of_nonneg_left lower (size_nonneg _))
  · rw [exact]
    exact (mul_le_mul_of_nonneg_left upper (size_nonneg _)).trans most

private theorem finite_nonzero_of_between {x : Single} {b t : ℝ} (positive : 0 < b)
    (top : t < 2 ^ (128 : Int))
    (between : b ≤ x.size ∧ x.size ≤ t) : x.isFinite = true ∧ ¬ x.isZero = true :=
  ⟨isFinite_of_size_lt (between.2.trans_lt top),
    not_isZero_of_size_pos single_infinityCode_pos (positive.trans_le between.1)⟩

private theorem exists_metric (scale : h.deltaInverted.isFinite = true)
    (large : 2 ^ (-64 : Int) ≤ h.deltaInverted.size)
    (square : h.deltaSquared.isFinite = true) (nonzero : ¬ h.deltaSquared.isZero = true) :
    ∃ score target : Single, score.isFinite = true ∧ target.isFinite = true ∧
      (score - target).isFinite = true ∧ (h.metric k score target).isFinite = true ∧
      ¬ (h.metric k score target).isZero = true := by
  have positive : 0 < h.deltaSquared.size :=
    (two_zpow_pos _).trans_le (least_le_size single_infinityCode_pos nonzero)
  have top : h.deltaSquared.size < 2 ^ (128 : Int) :=
    (isFinite_iff_size.mp square).trans_eq overflow_single
  -- A small square must not make the metric vanish, and a large one must not make it overflow.
  rcases le_total h.deltaSquared.size 1 with light | heavy
  · obtain ⟨score, finite, residual, atLeast, atMost⟩ :=
      exists_ratio (a := 1) scale large (by decide) (by decide)
    norm_num at atLeast atMost
    have small : (h.ratio score (zero false)).size < 2 ^ (64 : Int) := atMost.trans_lt (by norm_num)
    have four : single.Holds 4 := single_holds_sixteenths 64 (by norm_num)
    obtain ⟨lower, upper⟩ := k.rootOfSquare_of_two_le small atLeast atMost
    refine ⟨score, zero false, finite, by decide, residual,
      finite_nonzero_of_between positive (t := 4) (by norm_num) ?_⟩
    exact metric_between k square small single_holds_one four (holds_size _) four zero_le_one lower
      upper (by linarith) (by linarith)
  · obtain ⟨score, finite, residual, atLeast, atMost⟩ :=
      exists_ratio (a := -1) scale large (by decide) (by decide)
    norm_num at atLeast atMost
    have small : (h.ratio score (zero false)).size < 2 ^ (64 : Int) := atMost.trans_lt (by norm_num)
    have least : single.Holds (1 / 16) := single_holds_sixteenths 1 (by norm_num)
    have half : single.Holds (1 / 2) := single_holds_sixteenths 8 (by norm_num)
    obtain ⟨lower, upper⟩ := k.rootOfSquare_of_le_one small atLeast atMost
    refine ⟨score, zero false, finite, by decide, residual,
      finite_nonzero_of_between (b := 1 / 16) (by norm_num) top ?_⟩
    exact metric_between k square small least half least (holds_size _) (by norm_num) lower
      upper (by linarith) (by linarith)

end Metric

/-- The largest scale whose square rounds to zero. -/
def vanishing : Double :=
  ofDyadic false 1 (-75)

private theorem isZero_squareOf_iff_lessEq {delta : Double} (finite : delta.isFinite = true)
    (square : (squareOf delta).isFinite = true) :
    (squareOf delta).isZero = true ↔ delta.abs.lessEq vanishing = true := by
  have rounded : vanishing.Rounds (2 ^ (-75 : Int)) := rounds_two_zpow double_fraction_pos (-75)
  have positive : (0 : ℝ) < 2 ^ (-75 : Int) := two_zpow_pos _
  have held : double.Holds (2 ^ (-75 : Int)) := double_holds 1 (-75) (by norm_num) (by decide)
  have sign := rounded.isNegative_eq_false positive
  have number := isNaN_of_isFinite finite
  rw [isZero_squareOf_iff finite square,
    lessEq_iff_size_le (by simp [number]) rounded.number (by simp) sign,
    size_abs, rounded.size_eq positive.le held]

/-- The constants of an accepted scale are finite and its inverse is not zero. Its square is zero
exactly up to two to the -75th; every metric is zero or no number then, and otherwise some residual
has a finite metric that is not zero. -/
theorem constants_of_accepted {delta : Double} {h : PseudoHuber}
    (accepted : ofDelta delta = .ok h) :
    h.deltaSquared.isFinite = true ∧ h.deltaInverted.isFinite = true ∧
      h.deltaInverted.isZero = false ∧
      (h.deltaSquared.isZero = true ↔ delta.abs.lessEq vanishing = true) ∧
      ∀ k : Lanes,
        (h.deltaSquared.isZero = true → ∀ score target : Single,
          (h.metric k score target).isZero = true ∨ (h.metric k score target).isNaN = true) ∧
        (h.deltaSquared.isZero = false → ∃ score target : Single, score.isFinite = true ∧
          target.isFinite = true ∧ (score - target).isFinite = true ∧
          (h.metric k score target).isFinite = true ∧
          (h.metric k score target).isZero = false) := by
  obtain ⟨nonzero, finite, square, inverse, rfl⟩ := ofDelta_eq_ok_iff.mp accepted
  have large := inverseOf_ge finite (ne_true_of_eq_false nonzero) square inverse
  refine ⟨square, inverse, ?_, isZero_squareOf_iff_lessEq finite square,
    fun k => ⟨fun zeros score target => ?_,
    fun nonzero => ?_⟩⟩
  · exact eq_false_of_ne_true
      (not_isZero_of_size_pos single_infinityCode_pos ((two_zpow_pos _).trans_le large))
  · exact mul_of_isZero single_fraction_pos single_infinityCode_pos zeros
  · obtain ⟨score, target, finiteScore, finiteTarget, residual, bounded, positive⟩ :=
      exists_metric (h := ⟨delta, inverseOf delta, squareOf delta⟩) k inverse large square
        (ne_true_of_eq_false nonzero)
    exact ⟨score, target, finiteScore, finiteTarget, residual, bounded,
      eq_false_of_ne_true positive⟩

theorem constants_of_one : ofDelta 1 = .ok ⟨1, 1, 1⟩ ∧ (1 : Single).isZero = false ∧
    ¬ (1 : Double).abs.lessEq vanishing = true := by
  have accepted : ofDelta 1 = .ok ⟨1, 1, 1⟩ := by decide +kernel
  obtain ⟨-, -, nonzero, vanished, -⟩ := constants_of_accepted accepted
  refine ⟨accepted, nonzero, fun small => ?_⟩
  have zeros := vanished.mpr small
  rw [nonzero] at zeros
  cases zeros

/-- A scale of two to the -76th is accepted although its square vanishes. -/
theorem not_constants_ne_zero :
    ¬ ∀ (delta : Double) (h : PseudoHuber), ofDelta delta = .ok h →
      (h.deltaSquared.isFinite = true ∧ h.deltaSquared.isZero = false) ∧
        (h.deltaInverted.isFinite = true ∧ h.deltaInverted.isZero = false) ∧
        ∀ k : Lanes, ¬ ∀ score target : Single,
          (h.metric k score target).isZero = true ∨ (h.metric k score target).isNaN = true := by
  intro usable
  have accepted : ofDelta (ofDyadic false 1 (-76)) =
      .ok ⟨ofDyadic false 1 (-76), ofDyadic false 1 76, zero false⟩ := by decide +kernel
  obtain ⟨⟨-, nonzero⟩, -⟩ := usable _ _ accepted
  cases nonzero

end PseudoHuber

end Boosting
