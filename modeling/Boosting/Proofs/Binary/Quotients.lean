/- Quotients and roots.
   Quotients and square roots are cut to a few more bits than the format has before they are
   rounded, so they are the exact quotient and the exact root rounded to nearest. -/

import Mathlib.Data.Nat.Cast.Order.Field
import Boosting.Proofs.Binary.Results

set_option autoImplicit false
set_option relaxedAutoImplicit false

namespace Boosting

private theorem floorSqrt_eq_sqrt {digits n : Nat} (small : n < 4 ^ digits) :
    floorSqrt digits n = n.sqrt := by
  induction digits generalizing n with
  | zero =>
    obtain rfl : n = 0 := Nat.lt_one_iff.mp small
    rfl
  | succ digits ih =>
    have quarter : n / 4 < 4 ^ digits := by
      rw [Nat.pow_succ] at small
      omega
    have low := Nat.sqrt_le' (n / 4)
    have high := Nat.lt_succ_sqrt' (n / 4)
    have grown : (2 * (n / 4).sqrt) ^ 2 = 4 * (n / 4).sqrt ^ 2 := by ring
    have next : (2 * (n / 4).sqrt + 1 + 1) ^ 2 = 4 * ((n / 4).sqrt + 1) ^ 2 := by ring
    rw [floorSqrt, ih quarter]
    simp only [Nat.succ_eq_add_one, ← Nat.pow_two] at high ⊢
    split
    · rename_i reached
      exact Nat.eq_sqrt'.mpr ⟨reached, by omega⟩
    · rename_i missed
      exact Nat.eq_sqrt'.mpr ⟨by omega, Nat.lt_of_not_le missed⟩

private theorem lt_four_pow_log2 (n : Nat) : n < 4 ^ (n.log2 / 2 + 1) := by
  have power : 4 ^ (n.log2 / 2 + 1) = 2 ^ (2 * (n.log2 / 2 + 1)) := by rw [Nat.pow_mul]
  rw [power]
  exact Nat.lt_of_lt_of_le Nat.lt_log2_self (Nat.pow_le_pow_right Nat.two_pos (by omega))

private theorem cut_quotient (m : Nat) {n : Nat} (positive : 0 < n) :
    ((m / n : Nat) : ℝ) ≤ m / n ∧ (m / n : ℝ) < (m / n : Nat) + 1 ∧
      (m % n = 0 ↔ (m / n : ℝ) = (m / n : Nat)) := by
  have real : (0 : ℝ) < n := Nat.cast_pos.mpr positive
  have whole : ((m / n : Nat) * n + (m % n : Nat) : ℝ) = m := by
    exact_mod_cast Nat.div_add_mod' m n
  have rest : ((m % n : Nat) : ℝ) < n := Nat.cast_lt.mpr (Nat.mod_lt _ positive)
  refine ⟨Nat.cast_div_le, ?_, ?_⟩
  · rw [div_lt_iff₀ real]
    linarith
  · rw [div_eq_iff real.ne', ← whole, add_eq_left, Nat.cast_eq_zero]

namespace Binary

variable {f : Format}

private theorem binade_le_quotient {m n spare : Nat} (nonzero : m ≠ 0) (positive : 0 < n)
    (room : f.fraction + 2 + n.log2 ≤ m.log2 + spare) : 2 * f.binade ≤ m <<< spare / n := by
  rw [Nat.le_div_iff_mul_le positive, Nat.shiftLeft_eq, Format.binade, twoPow, Nat.one_shiftLeft]
  calc 2 * 2 ^ f.fraction * n
    _ ≤ 2 * 2 ^ f.fraction * 2 ^ (n.log2 + 1) := Nat.mul_le_mul_left _ Nat.lt_log2_self.le
    _ = 2 ^ (f.fraction + 2 + n.log2) := by ring
    _ ≤ 2 ^ (m.log2 + spare) := Nat.pow_le_pow_right Nat.two_pos room
    _ = 2 ^ m.log2 * 2 ^ spare := Nat.pow_add _ _ _
    _ ≤ m * 2 ^ spare := Nat.mul_le_mul_right _ (Nat.log2_self_le nonzero)

private theorem binade_le_root {m spare : Nat} (nonzero : m ≠ 0)
    (room : 2 * f.fraction + 2 ≤ spare) :
    2 * f.binade ≤ (m <<< spare).sqrt := by
  rw [Nat.le_sqrt', Nat.shiftLeft_eq, Format.binade, twoPow, Nat.one_shiftLeft]
  calc (2 * 2 ^ f.fraction) ^ 2
    _ = 2 ^ (2 * f.fraction + 2) := by ring
    _ ≤ 2 ^ spare := Nat.pow_le_pow_right Nat.two_pos room
    _ ≤ m * 2 ^ spare := Nat.le_mul_of_pos_left _ (Nat.pos_of_ne_zero nonzero)

variable (wide : 0 < f.fraction)

include wide

private theorem rounds_ofQuotient (negative : Bool) (m : Nat) {n : Nat} (nonzero : n ≠ 0)
    (e : Int) :
    (ofQuotient negative m n e : Binary f).Rounds (withSign negative (m / n * 2 ^ e)) := by
  have positive : 0 < n := Nat.pos_of_ne_zero nonzero
  rw [ofQuotient]
  generalize size : f.fraction + 3 + n.log2 - m.log2 = spare
  by_cases none : m = 0
  · subst none
    have value : withSign negative (((0 : Nat) : ℝ) / n * 2 ^ e) = 0 := by
      rw [Nat.cast_zero, zero_div, zero_mul, withSign_zero]
    have nothing : (2 * (0 <<< spare / n) + if 0 <<< spare % n == 0 then 0 else 1) = 0 := by
      rw [Nat.zero_shiftLeft, Nat.zero_div, Nat.zero_mod]
      rfl
    rw [value, nothing]
    exact rounds_zero wide negative
  have bits : 2 * f.binade ≤ m <<< spare / n := binade_le_quotient none positive (by omega)
  have unit := two_zpow_pos (e - spare)
  have value : (m / n * 2 ^ e : ℝ) = (m <<< spare : Nat) / n * 2 ^ (e - spare) := by
    have back : (2 : ℝ) ^ e = 2 ^ spare * 2 ^ (e - spare) := by
      rw [← zpow_natCast, ← two_zpow_add, add_sub_cancel]
    rw [back, Nat.shiftLeft_eq]
    push_cast
    ring
  generalize m <<< spare = scaled at bits value ⊢
  obtain ⟨atLeast, below, whole⟩ := cut_quotient scaled positive
  rw [value]
  refine rounds_ofCode negative (by positivity) (nearestCode_cut_le_iff wide bits ?_ ?_ ?_)
  · exact mul_le_mul_of_nonneg_right atLeast unit.le
  · exact mul_lt_mul_of_pos_right below unit
  · rw [beq_iff_eq, whole, mul_left_inj' unit.ne']

theorem rounds_div {x y : Binary f} (large : 0 < f.infinityCode) (finiteX : x.isFinite = true)
    (finiteY : y.isFinite = true) (nonzero : ¬ y.isZero = true) :
    (x / y).Rounds (x.value / y.value) := by
  have divisor : significand f y.code ≠ 0 :=
    significand_ne_zero (mt (isZero_iff_code large).mpr nonzero)
  have exact : x.value / y.value = withSign (x.isNegative ^^ y.isNegative)
      (significand f x.code / significand f y.code * 2 ^ (place f x.code - place f y.code)) := by
    rw [value, value, withSign_div_withSign, size, size, Format.magnitude, Format.magnitude,
      zpow_sub₀ two_ne_zero, mul_div_mul_comm]
  show (x.div y).Rounds _
  rw [div, reading_of_isFinite finiteX, reading_of_isFinite finiteY, exact]
  simp only
  rw [if_neg divisor]
  exact rounds_ofQuotient wide _ _ divisor _

theorem rounds_sqrt {x : Binary f} (finite : x.isFinite = true) (sign : x.isNegative = false) :
    x.sqrt.Rounds (√x.value) := by
  have value : x.value = significand f x.code * 2 ^ place f x.code := by
    rw [Binary.value, sign]
    rfl
  rw [sqrt, reading_of_isFinite finite, value, sign]
  generalize significand f x.code = m
  generalize place f x.code = e
  simp only
  split
  · rename_i none
    rw [none, Nat.cast_zero, zero_mul, Real.sqrt_zero]
    exact rounds_zero wide false
  rename_i some
  rw [if_neg Bool.false_ne_true]
  generalize size : 2 * (f.fraction + 3) + (e % 2).toNat = spare
  have even : e - spare = 2 * ((e - spare) / 2) := by omega
  rw [floorSqrt_eq_sqrt (lt_four_pow_log2 _)]
  generalize (e - spare) / 2 = g at even ⊢
  have bits : 2 * f.binade ≤ (m <<< spare).sqrt := binade_le_root some (by omega)
  have unit := two_zpow_pos g
  have root : √(m * 2 ^ e : ℝ) = √(m <<< spare : Nat) * 2 ^ g := by
    have place : e = spare + (g + g) := by omega
    have inside : (m * 2 ^ e : ℝ) = (m <<< spare : Nat) * (2 ^ g * 2 ^ g) := by
      rw [place, two_zpow_add, two_zpow_add, Nat.shiftLeft_eq, zpow_natCast]
      push_cast
      ring
    rw [inside, Real.sqrt_mul (Nat.cast_nonneg _), Real.sqrt_mul_self unit.le]
  generalize m <<< spare = scaled at bits root ⊢
  have whole : (scaled.sqrt * scaled.sqrt == scaled) = true ↔ √(scaled : ℝ) = scaled.sqrt := by
    rw [beq_iff_eq, Real.sqrt_eq_iff_mul_self_eq (Nat.cast_nonneg _) (Nat.cast_nonneg _)]
    exact_mod_cast eq_comm
  rw [root]
  refine rounds_ofCode false (by positivity) (nearestCode_cut_le_iff wide bits ?_ ?_ ?_)
  · exact mul_le_mul_of_nonneg_right Real.nat_sqrt_le_real_sqrt unit.le
  · exact mul_lt_mul_of_pos_right Real.real_sqrt_lt_nat_sqrt_succ unit
  · rw [whole, mul_left_inj' unit.ne']

end Binary

end Boosting
