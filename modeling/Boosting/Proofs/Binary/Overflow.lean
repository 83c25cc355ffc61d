/- Results that are too large.
   A result is infinite from the middle between the largest number of its format and the next
   power of two on. A double result is taken to the single format by a second rounding, and still
   its exact value decides whether the single one is finite, unless that value lies in the last
   gap of doubles below the middle. -/

import Boosting.Proofs.Binary.Infinities

set_option autoImplicit false
set_option relaxedAutoImplicit false

namespace Boosting

namespace Format

variable {f : Format}

private theorem infinityCode_mod_two (wide : 0 < f.fraction) : f.infinityCode % 2 = 0 := by
  obtain ⟨n, bits⟩ := Nat.exists_eq_succ_of_ne_zero (Nat.ne_of_gt wide)
  rw [infinityCode, binade, bits, twoPow_succ, Nat.mul_left_comm, Nat.mul_mod_right]

private theorem overflow_middle_single :
    single.magnitude (single.infinityCode - 1) + single.overflow = 2 * (2 ^ 128 - 2 ^ 103) := by
  have last : single.infinityCode - 1 = 253 * single.binade + 16777215 := by decide
  have largest := single.magnitude_binades_add 253 16777215 (by decide) (.inr (by decide))
  have place : single.lowestPlace + (253 : Nat) = 104 := by decide
  rw [last, largest, place, overflow_single]
  norm_num

end Format

namespace Binary

open Format

variable {f : Format}

/-- Finite are the results below that middle. The largest number is odd, so the middle itself goes
to infinity. -/
private theorem Rounds.isFinite_iff {x : Binary f} {v : ℝ} (rounded : x.Rounds v)
    (wide : 0 < f.fraction) (large : 0 < f.infinityCode) :
    x.isFinite = true ↔ 2 * |v| < f.magnitude (f.infinityCode - 1) + f.overflow := by
  have even := f.infinityCode_mod_two wide
  have last : f.infinityCode - 1 + 1 = f.infinityCode := by omega
  have odd : ¬ (f.infinityCode - 1) % 2 = 0 := by omega
  rw [isFinite_iff_code, ← Nat.le_sub_one_iff_lt large, rounded.code_le_iff _ (by omega),
    RoundsWithin, last, or_iff_left fun middle => odd middle.2, overflow]

theorem Rounds.isFinite_single_iff {x : Single} {v : ℝ} (rounded : x.Rounds v) :
    x.isFinite = true ↔ |v| < 2 ^ 128 - 2 ^ 103 := by
  rw [rounded.isFinite_iff single_fraction_pos single_infinityCode_pos, overflow_middle_single]
  exact mul_lt_mul_iff_right₀ two_pos

/-- Whether a rounded value is finite in the single format too is decided by the value itself, if it
does not lie between the middle that overflows there and the double before. -/
theorem isFinite_convert_iff {x : Double} {v : ℝ} (rounded : x.Rounds v)
    (gap : |v| < 2 ^ 128 - 2 ^ 103 → |v| ≤ 2 ^ 128 - 2 ^ 103 - 2 ^ 75) :
    (x.convert : Single).isFinite = true ↔ |v| < 2 ^ 128 - 2 ^ 103 := by
  have converted (finite : x.isFinite = true) :
      (x.convert : Single).isFinite = true ↔ x.size < 2 ^ 128 - 2 ^ 103 := by
    have rounds := rounds_convert single_fraction_pos finite
    rw [rounds.isFinite_single_iff, abs_value]
  constructor
  · intro finite
    have inside := isFinite_of_isFinite_convert rounded.number finite
    refine lt_of_not_ge fun above => ((converted inside).mp finite).not_ge ?_
    refine rounded.le_size (double_holds 9007198986305536 75 ?_ (by decide)) above
    norm_num
  · intro below
    have held : double.Holds (2 ^ 128 - 2 ^ 103 - 2 ^ 75) :=
      double_holds 9007198986305535 75 (by norm_num) (by decide)
    have atMost := rounded.size_le held (gap below)
    have inside : x.isFinite = true := by
      rw [isFinite_iff_size]
      have small : (2 ^ 128 - 2 ^ 103 - 2 ^ 75 : ℝ) < 2 ^ (128 : Int) := by norm_num
      have room : (2 : ℝ) ^ (128 : Int) ≤ double.overflow :=
        (two_zpow_le (by decide)).trans_eq overflow_double.symm
      exact (atMost.trans_lt small).trans_le room
    refine (converted inside).mpr (atMost.trans_lt ?_)
    norm_num

end Binary

end Boosting
