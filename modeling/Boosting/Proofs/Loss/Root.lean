/- The root of one plus a square.
   The pseudo-Huber loss divides by the root of one plus the square of a ratio. Below a ratio of
   two to the 64th everything stays finite, and the root lies between every two numbers of the
   format that the exact one lies between; from there on the square overflows and the root is
   infinite. Rounding the square on its own, as packed lanes do, changes neither. -/

import Boosting.Lanes.Basic
import Boosting.Proofs.Binary.Overflow

set_option autoImplicit false
set_option relaxedAutoImplicit false

namespace Boosting

open Binary Format

theorem isFinite_one : (1 : Single).isFinite = true := by decide

theorem single_holds_one : single.Holds 1 :=
  single_holds 1 0 (by norm_num) (by decide)

private theorem value_one : (1 : Single).value = 1 := by
  have held : single.Holds ((1 : Nat) : ℝ) := by
    rw [Nat.cast_one]
    exact single_holds_one
  exact (value_ofNat single_fraction_pos held).trans Nat.cast_one

namespace Lanes

variable (k : Lanes) {ratio : Single}

def rootOfSquare (ratio : Single) : Single :=
  (k.fma ratio ratio 1).sqrt

section Small

variable (small : ratio.size < 2 ^ (64 : Int))

include small

private theorem size_le_of_lt : ratio.size ≤ 16777215 * 2 ^ (40 : Int) := by
  refine le_of_not_gt fun above => ?_
  have next := succ_le_size (m := 16777215) (by decide) (by decide) (by decide) above
  norm_num at next small
  linarith

private theorem square_le_largest : ratio.size ^ 2 ≤ 16777215 * 2 ^ (104 : Int) := by
  have root := size_le_of_lt small
  have square := mul_le_mul root root ratio.size_nonneg (by positivity)
  norm_num at square ⊢
  linarith

private theorem isFinite_of_small : ratio.isFinite = true :=
  isFinite_of_size_lt (small.trans_le (two_zpow_le (by decide)))

/-- The sum is that of one and a square, which on packed lanes is a rounded one. -/
private theorem exists_square : ∃ w : ℝ, 0 ≤ w ∧ (k.fma ratio ratio 1).Rounds (w + 1) ∧
    ∀ b, single.Holds b → (ratio.size ^ 2 ≤ b → w ≤ b) ∧ (b ≤ ratio.size ^ 2 → b ≤ w) := by
  have finite := isFinite_of_small small
  cases k with
  | scalar =>
    refine ⟨ratio.size ^ 2, sq_nonneg _, ?_, fun b _ => ⟨id, id⟩⟩
    rw [← value_mul_self, ← value_one]
    exact rounds_fma single_fraction_pos finite finite isFinite_one
  | packed =>
    have product := rounds_mul single_fraction_pos finite finite
    rw [value_mul_self] at product
    have sized := product.value_eq_size (sq_nonneg _)
    have known : |ratio.size ^ 2| = ratio.size ^ 2 := abs_of_nonneg (sq_nonneg _)
    have inside : (ratio * ratio).isFinite = true := by
      refine product.isFinite_single_iff.mpr
        ((known.trans_le (square_le_largest small)).trans_lt ?_)
      norm_num
    refine ⟨(ratio * ratio).size, size_nonneg _, ?_, fun b held => ⟨fun le => ?_, fun le => ?_⟩⟩
    · rw [← sized, ← value_one]
      exact rounds_add single_fraction_pos inside isFinite_one
    · exact product.size_le held (known.trans_le le)
    · exact product.le_size held (le.trans_eq known.symm)

private theorem sum_of_small : (k.fma ratio ratio 1).isFinite = true ∧
    (k.fma ratio ratio 1).isNegative = false ∧ 1 ≤ (k.fma ratio ratio 1).size := by
  obtain ⟨w, nonneg, rounded, between⟩ := k.exists_square small
  have positive : 0 < w + 1 := by linarith
  have known : |w + 1| = w + 1 := abs_of_pos positive
  have largest : single.Holds (16777215 * 2 ^ (104 : Int)) :=
    single_holds 16777215 104 (by norm_num) (by decide)
  have atMost := (between _ largest).1 (square_le_largest small)
  refine ⟨?_, rounded.isNegative_eq_false positive, rounded.le_size single_holds_one ?_⟩
  · rw [rounded.isFinite_single_iff, known]
    norm_num at atMost ⊢
    linarith
  · rw [known]
    linarith

private theorem rounds_rootOfSquare :
    (k.rootOfSquare ratio).Rounds √(k.fma ratio ratio 1).size := by
  obtain ⟨finite, sign, -⟩ := k.sum_of_small small
  have rounded := rounds_sqrt single_fraction_pos finite sign
  rwa [value, sign] at rounded

/-- What bounds the exact root from above bounds the root. -/
private theorem rootOfSquare_le {u t b : ℝ} (heldU : single.Holds u) (heldT : single.Holds t)
    (heldB : single.Holds b)
    (nonneg : 0 ≤ b) (square : ratio.size ^ 2 ≤ u) (sum : u + 1 ≤ t) (root : t ≤ b ^ 2) :
    (k.rootOfSquare ratio).size ≤ b := by
  obtain ⟨w, positive, rounded, between⟩ := k.exists_square small
  have atMost := (between u heldU).1 square
  have whole : (k.fma ratio ratio 1).size ≤ t := by
    refine rounded.size_le heldT ?_
    rw [abs_of_nonneg (by linarith)]
    linarith
  refine (k.rounds_rootOfSquare small).size_le heldB ?_
  rw [abs_of_nonneg (Real.sqrt_nonneg _)]
  exact (Real.sqrt_le_left nonneg).mpr (whole.trans root)

private theorem le_rootOfSquare {u t b : ℝ} (heldU : single.Holds u) (heldT : single.Holds t)
    (heldB : single.Holds b) (square : u ≤ ratio.size ^ 2) (sum : t ≤ u + 1) (root : b ^ 2 ≤ t) :
    b ≤ (k.rootOfSquare ratio).size := by
  obtain ⟨w, positive, rounded, between⟩ := k.exists_square small
  have atLeast := (between u heldU).2 square
  have whole : t ≤ (k.fma ratio ratio 1).size := by
    refine rounded.le_size heldT ?_
    rw [abs_of_nonneg (by linarith)]
    linarith
  refine (k.rounds_rootOfSquare small).le_size heldB ?_
  rw [abs_of_nonneg (Real.sqrt_nonneg _)]
  exact Real.le_sqrt_of_sq_le (root.trans whole)

theorem one_le_rootOfSquare : 1 ≤ (k.rootOfSquare ratio).size := by
  refine (k.rounds_rootOfSquare small).le_size single_holds_one ?_
  obtain ⟨-, -, atLeast⟩ := k.sum_of_small small
  rw [abs_of_nonneg (Real.sqrt_nonneg _)]
  exact Real.one_le_sqrt.mpr atLeast

private theorem rootOfSquare_le_of_small : (k.rootOfSquare ratio).size ≤ 2 ^ (64 : Int) := by
  refine (k.rounds_rootOfSquare small).size_le (single_holds_two_zpow (by decide)) ?_
  have atMost := size_le_overflow (k.fma ratio ratio 1)
  rw [overflow_single] at atMost
  rw [abs_of_nonneg (Real.sqrt_nonneg _)]
  refine (Real.sqrt_le_left (by positivity)).mpr (atMost.trans ?_)
  norm_num

theorem isFinite_rootOfSquare : (k.rootOfSquare ratio).isFinite = true :=
  isFinite_of_size_lt
    ((k.rootOfSquare_le_of_small small).trans_lt (zpow_lt_zpow_right₀ one_lt_two (by decide)))

private theorem value_rootOfSquare : (k.rootOfSquare ratio).value = (k.rootOfSquare ratio).size :=
  (k.rounds_rootOfSquare small).value_eq_size (Real.sqrt_nonneg _)

theorem rootOfSquare_lt {i : Nat} (bounded : ratio.size ≤ 2 ^ (i : Int)) :
    (k.rootOfSquare ratio).size < 2 ^ ((i : Int) + 1) := by
  rcases Nat.lt_or_ge i 64 with low | high
  · have one : (1 : ℝ) ≤ 2 ^ ((i : Int) + i) := one_le_zpow₀ one_le_two (by omega)
    have half : (2 : ℝ) ^ (i : Int) = 2 * 2 ^ ((i : Int) - 1) := by
      rw [← two_zpow_succ, Int.sub_add_cancel]
    have positive := two_zpow_pos ((i : Int) - 1)
    have root : (k.rootOfSquare ratio).size ≤ 3 * 2 ^ ((i : Int) - 1) := by
      refine k.rootOfSquare_le small (u := 2 ^ ((i : Int) + i)) (t := 2 ^ ((i : Int) + i + 1))
        (single_holds_two_zpow (by omega)) (single_holds_two_zpow (by omega))
        (single_holds 3 ((i : Int) - 1) (by norm_num) (by omega)) (by positivity)
        (sq_le_two_zpow ratio.size_nonneg bounded) ?_ ?_
      · rw [two_zpow_succ]
        linarith
      · rw [two_zpow_succ, two_zpow_add, half]
        nlinarith
    refine root.trans_lt ?_
    rw [two_zpow_succ, half]
    linarith
  · exact (k.rootOfSquare_le_of_small small).trans_lt (zpow_lt_zpow_right₀ one_lt_two (by omega))

theorem size_sub_one_between {low high : ℝ} (heldLow : single.Holds low)
    (heldHigh : single.Holds high)
    (nonneg : 0 ≤ low) (atLeast : low + 1 ≤ (k.rootOfSquare ratio).size)
    (atMost : (k.rootOfSquare ratio).size ≤ high + 1) :
    low ≤ (k.rootOfSquare ratio - 1).size ∧ (k.rootOfSquare ratio - 1).size ≤ high := by
  have difference := rounds_sub single_fraction_pos (k.isFinite_rootOfSquare small) isFinite_one
  rw [k.value_rootOfSquare small, value_one] at difference
  have known : |(k.rootOfSquare ratio).size - 1| = (k.rootOfSquare ratio).size - 1 :=
    abs_of_nonneg (by linarith)
  exact ⟨difference.le_size heldLow (by linarith), difference.size_le heldHigh (by linarith)⟩

theorem isFinite_sub_one : (k.rootOfSquare ratio - 1).isFinite = true := by
  have atLeast := k.one_le_rootOfSquare small
  have atMost := k.rootOfSquare_le_of_small small
  obtain ⟨-, bounded⟩ := k.size_sub_one_between small single.holds_zero
    (single_holds_two_zpow (e := 64) (by decide)) le_rfl (by linarith) (by linarith)
  exact isFinite_of_size_lt (bounded.trans_lt (zpow_lt_zpow_right₀ one_lt_two (by decide)))

theorem rootOfSquare_of_two_le (atLeast : 2 ≤ ratio.size) (atMost : ratio.size ≤ 4) :
    1 + 1 ≤ (k.rootOfSquare ratio).size ∧ (k.rootOfSquare ratio).size ≤ 4 + 1 := by
  constructor
  · refine k.le_rootOfSquare small (u := 4) (t := 5) ?_ ?_ ?_ (by nlinarith) (by norm_num)
      (by norm_num)
    · exact single_holds_sixteenths 64 (by norm_num)
    · exact single_holds_sixteenths 80 (by norm_num)
    · exact single_holds_sixteenths 32 (by norm_num)
  · refine k.rootOfSquare_le small (u := 16) (t := 17) ?_ ?_ ?_ (by norm_num) (by nlinarith)
      (by norm_num) (by norm_num)
    · exact single_holds_sixteenths 256 (by norm_num)
    · exact single_holds_sixteenths 272 (by norm_num)
    · exact single_holds_sixteenths 80 (by norm_num)

theorem rootOfSquare_of_le_one (atLeast : 1 / 2 ≤ ratio.size) (atMost : ratio.size ≤ 1) :
    1 / 16 + 1 ≤ (k.rootOfSquare ratio).size ∧ (k.rootOfSquare ratio).size ≤ 1 / 2 + 1 := by
  constructor
  · refine k.le_rootOfSquare small (u := 1 / 4) (t := 5 / 4) ?_ ?_ ?_ (by nlinarith) (by norm_num)
      (by norm_num)
    · exact single_holds_sixteenths 4 (by norm_num)
    · exact single_holds_sixteenths 20 (by norm_num)
    · exact single_holds_sixteenths 17 (by norm_num)
  · refine k.rootOfSquare_le small (u := 1) (t := 2) single_holds_one ?_ ?_ (by norm_num)
      (by nlinarith) (by norm_num) (by norm_num)
    · exact single_holds_sixteenths 32 (by norm_num)
    · exact single_holds_sixteenths 24 (by norm_num)

end Small

private theorem sum_of_large (number : ratio.isNaN = false) (large : 2 ^ (64 : Int) ≤ ratio.size) :
    k.fma ratio ratio 1 = infinity false := by
  by_cases finite : ratio.isFinite = true
  · have overflows : single.overflow ≤ ratio.size ^ 2 := by
      rw [overflow_single]
      exact two_zpow_le_sq large
    cases k with
    | scalar =>
      have sum := rounds_fma single_fraction_pos finite finite isFinite_one
      rw [value_mul_self, value_one] at sum
      exact sum.eq_infinity single_infinityCode_pos (by linarith)
    | packed =>
      have product := rounds_mul single_fraction_pos finite finite
      rw [value_mul_self] at product
      show ratio * ratio + 1 = _
      rw [product.eq_infinity single_infinityCode_pos overflows, infinity_add _ isFinite_one]
  · rw [eq_infinity_of_not_isFinite number finite]
    have noSign := Bool.xor_self ratio.isNegative
    cases k with
    | scalar =>
      show Binary.fma (infinity _) (infinity _) (1 : Single) = _
      rw [fma_infinity_infinity _ _ isFinite_one, noSign]
    | packed =>
      show infinity _ * infinity _ + (1 : Single) = _
      rw [infinity_mul_infinity, noSign, infinity_add _ isFinite_one]

theorem rootOfSquare_of_large (number : ratio.isNaN = false) (large : 2 ^ (64 : Int) ≤ ratio.size) :
    k.rootOfSquare ratio = infinity false := by
  rw [rootOfSquare, k.sum_of_large number large, sqrt_infinity]

end Lanes

end Boosting
