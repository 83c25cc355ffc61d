/- Magnitudes of codes.
   A magnitude code stands for its significand at its place. The next code stands for one unit in
   the last place more, so codes are ordered as their magnitudes, and this goes on past the code
   of infinity as if there were larger exponents: that code stands for the least power of two
   that is too large for the format. A value rounds to the code whose magnitude is the nearest,
   which the middles between neighbouring codes tell. -/

import Mathlib.Algebra.Order.Field.Power
import Mathlib.Analysis.Real.Sqrt
import Mathlib.Tactic.Linarith
import Mathlib.Tactic.Positivity
import Mathlib.Tactic.Ring
import Boosting.Proofs.Binary.Exactness

set_option autoImplicit false
set_option relaxedAutoImplicit false

namespace Boosting

private theorem cast_twoPow (n : Nat) : ((twoPow n : Nat) : ℝ) = 2 ^ (n : Int) := by
  rw [twoPow, Nat.one_shiftLeft]
  simp

theorem two_zpow_pos (p : Int) : (0 : ℝ) < 2 ^ p :=
  zpow_pos (by norm_num) p

theorem two_zpow_add (p q : Int) : (2 : ℝ) ^ (p + q) = 2 ^ p * 2 ^ q :=
  zpow_add₀ (by norm_num) p q

theorem two_zpow_succ (p : Int) : (2 : ℝ) ^ (p + 1) = 2 * 2 ^ p := by
  rw [two_zpow_add, zpow_one, mul_comm]

theorem two_zpow_le {p q : Int} (le : p ≤ q) : (2 : ℝ) ^ p ≤ 2 ^ q :=
  zpow_le_zpow_right₀ (by norm_num) le

theorem Format.cast_binade (f : Format) : (f.binade : ℝ) = 2 ^ (f.fraction : Int) :=
  cast_twoPow f.fraction

theorem two_zpow_le_sq {p : Int} {v : ℝ} (le : 2 ^ p ≤ v) : 2 ^ (p + p) ≤ v ^ 2 := by
  have pos := two_zpow_pos p
  rw [two_zpow_add, sq]
  exact mul_le_mul le le pos.le (pos.le.trans le)

theorem sq_le_two_zpow {p : Int} {v : ℝ} (nonneg : 0 ≤ v) (le : v ≤ 2 ^ p) :
    v ^ 2 ≤ 2 ^ (p + p) := by
  rw [two_zpow_add, sq]
  exact mul_le_mul le le nonneg (two_zpow_pos p).le

namespace Binary

variable {f : Format}

theorem significand_lt (f : Format) (code : Nat) : significand f code < 2 * f.binade := by
  have pos : 0 < f.binade := twoPow_pos _
  have inside : code % f.binade < f.binade := Nat.mod_lt _ pos
  rw [significand]
  split <;> omega

private theorem binade_le_significand {code : Nat} (above : f.lowestPlace < place f code) :
    f.binade ≤ significand f code := by
  have normal : ¬ code < f.binade := by
    intro subnormal
    rw [place_of_subnormal subnormal] at above
    exact Int.lt_irrefl _ above
  rw [significand, if_neg normal]
  omega

end Binary

namespace Format

variable {f : Format}

/-- The magnitude that a code stands for. Past the largest finite number the codes go on as if there
were more exponents, so the code of infinity stands for the next power of two. -/
noncomputable def magnitude (f : Format) (code : Nat) : ℝ :=
  Binary.significand f code * 2 ^ Binary.place f code

/-- A significand on top of the binades below it, which may be a full binade too large. -/
theorem magnitude_binades_add (f : Format) (binades significand : Nat)
    (small : significand ≤ 2 * f.binade) (full : binades = 0 ∨ f.binade ≤ significand) :
    f.magnitude (binades * f.binade + significand) =
      significand * 2 ^ (f.lowestPlace + binades) := by
  have pos : 0 < f.binade := twoPow_pos _
  rcases Nat.lt_or_ge significand f.binade with subnormal | normal
  · obtain rfl : binades = 0 := by omega
    have code : 0 * f.binade + significand = significand := by omega
    rw [code, magnitude, Binary.significand, if_pos subnormal, Binary.place_of_subnormal subnormal]
    simp
  · rcases Nat.lt_or_ge significand (2 * f.binade) with inside | carried
    · have code : binades * f.binade + significand =
          (significand - f.binade) + f.binade * (binades + 1) := by
        rw [Nat.mul_comm, Nat.mul_succ]
        omega
      have low : significand - f.binade < f.binade := by omega
      have rest : (binades * f.binade + significand) % f.binade = significand - f.binade := by
        rw [code, Nat.add_mul_mod_self_left, Nat.mod_eq_of_lt low]
      have whole : (binades * f.binade + significand) / f.binade = binades + 1 := by
        rw [code, Nat.add_mul_div_left _ _ pos, Nat.div_eq_of_lt low, Nat.zero_add]
      have back : f.binade + (significand - f.binade) = significand := by omega
      rw [magnitude, Binary.significand, if_neg (by omega), Binary.place, rest, whole, back]
      rfl
    · obtain rfl : significand = 2 * f.binade := by omega
      have code : binades * f.binade + 2 * f.binade = (binades + 2) * f.binade := by ring
      have large : ¬ (binades + 2) * f.binade < f.binade :=
        Nat.not_lt.mpr (Nat.le_mul_of_pos_left _ (Nat.succ_pos _))
      have place :
          f.lowestPlace + ((binades + 2 - 1 : Nat) : Int) = f.lowestPlace + binades + 1 := by
        omega
      rw [code, magnitude, Binary.significand, if_neg large, Binary.place, Nat.mul_mod_left,
        Nat.mul_div_cancel _ pos, place, two_zpow_succ]
      push_cast
      ring

theorem magnitude_zero (f : Format) : f.magnitude 0 = 0 := by
  have least : Binary.significand f 0 = 0 := if_pos (twoPow_pos _)
  rw [magnitude, least, Nat.cast_zero, zero_mul]

theorem magnitude_succ (f : Format) (code : Nat) :
    f.magnitude (code + 1) = f.magnitude code + 2 ^ Binary.place f code := by
  have lowest := Binary.lowestPlace_le_place f code
  have place :
      f.lowestPlace + ((Binary.place f code - f.lowestPlace).toNat : Int) =
        Binary.place f code := by
    omega
  have full : (Binary.place f code - f.lowestPlace).toNat = 0 ∨
      f.binade ≤ Binary.significand f code + 1 := by
    rcases Nat.eq_zero_or_pos (Binary.place f code - f.lowestPlace).toNat with bottom | above
    · exact .inl bottom
    · exact .inr (Nat.le_succ_of_le (Binary.binade_le_significand (by omega)))
  have next := f.magnitude_binades_add _ (Binary.significand f code + 1)
    (Binary.significand_lt f code) full
  rw [← Nat.add_assoc, Binary.binades_add_significand, place] at next
  rw [next, magnitude]
  push_cast
  ring

theorem magnitude_strictMono (f : Format) : StrictMono f.magnitude := by
  refine strictMono_nat_of_lt_succ fun code => ?_
  rw [magnitude_succ]
  have unit := two_zpow_pos (Binary.place f code)
  linarith

theorem lt_first_code {code : Nat} {p : Int} (lower : Binary.place f code < p) :
    code < (p - f.lowestPlace).toNat * f.binade + f.binade := by
  have whole := Binary.binades_add_significand f code
  have small := Binary.significand_lt f code
  have bottom := Binary.lowestPlace_le_place f code
  have binades : ((Binary.place f code - f.lowestPlace).toNat + 1) * f.binade ≤
      (p - f.lowestPlace).toNat * f.binade := Nat.mul_le_mul_right _ (by omega)
  rw [Nat.succ_mul] at binades
  omega

theorem last_code_lt {code : Nat} {p : Int} (lowest : f.lowestPlace ≤ p)
    (higher : p < Binary.place f code) :
    (p - f.lowestPlace).toNat * f.binade + 2 * f.binade ≤ code := by
  have whole := Binary.binades_add_significand f code
  have full := Binary.binade_le_significand (lowest.trans_lt higher)
  have binades : ((p - f.lowestPlace).toNat + 1) * f.binade ≤
      (Binary.place f code - f.lowestPlace).toNat * f.binade := Nat.mul_le_mul_right _ (by omega)
  rw [Nat.succ_mul] at binades
  omega

theorem magnitude_nonneg (f : Format) (code : Nat) : 0 ≤ f.magnitude code := by
  have unit := two_zpow_pos (Binary.place f code)
  exact mul_nonneg (Nat.cast_nonneg _) unit.le

/-- Whether a magnitude is nearer to a code, or to codes below it, than to the next code. The middle
between both is left to the even one of them. -/
def RoundsWithin (f : Format) (v : ℝ) (code : Nat) : Prop :=
  2 * v < f.magnitude code + f.magnitude (code + 1) ∨
    2 * v = f.magnitude code + f.magnitude (code + 1) ∧ code % 2 = 0

theorem middle_eq (f : Format) (code : Nat) :
    f.magnitude code + f.magnitude (code + 1) =
      (2 * Binary.significand f code + 1) * 2 ^ Binary.place f code := by
  rw [magnitude_succ, magnitude]
  ring

theorem roundsWithin_of_le {v : ℝ} {code : Nat} (le : v ≤ f.magnitude code) :
    f.RoundsWithin v code := by
  have next := f.magnitude_strictMono (Nat.lt_succ_self code)
  exact .inl (by linarith)

theorem not_roundsWithin_of_le {v : ℝ} {code : Nat} (le : f.magnitude (code + 1) ≤ v) :
    ¬ f.RoundsWithin v code := by
  have next := f.magnitude_strictMono (Nat.lt_succ_self code)
  rintro (less | ⟨equal, -⟩) <;> linarith

end Format

end Boosting
