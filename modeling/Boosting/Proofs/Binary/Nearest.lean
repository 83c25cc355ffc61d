/- The nearest code.
   Rounding is told by the codes it stays at or below: it stays at or below a code exactly if the
   value lies below the middle between the code and the next, or in the middle and the code is
   even. An exact value that was cut to a few more bits than the format has, with a last bit that
   tells whether anything was cut off, lies on the same side of every middle. -/

import Boosting.Proofs.Binary.Magnitude

set_option autoImplicit false
set_option relaxedAutoImplicit false

namespace Boosting

namespace Format

variable {f : Format}

private theorem middle_outside_unit {q : Nat} (bits : 2 * f.binade ≤ q) (g : Int) (code : Nat) :
    f.magnitude code + f.magnitude (code + 1) ≤ 2 * (q * 2 ^ g) ∨
      2 * ((q + 1) * 2 ^ g) ≤ f.magnitude code + f.magnitude (code + 1) := by
  rw [middle_eq]
  have small := Binary.significand_lt f code
  have unit := two_zpow_pos g
  rcases le_or_gt (Binary.place f code) g with lower | higher
  · refine .inl ?_
    have count : (2 * Binary.significand f code + 1 : ℝ) ≤ 2 * q := by
      norm_cast
      omega
    calc ((2 * Binary.significand f code + 1) * 2 ^ Binary.place f code : ℝ)
      _ ≤ 2 * q * 2 ^ g := mul_le_mul count (two_zpow_le lower) (two_zpow_pos _).le (by positivity)
      _ = 2 * (q * 2 ^ g) := mul_assoc _ _ _
  · obtain ⟨n, steps⟩ := Int.le.dest higher
    have whole : ((2 * Binary.significand f code + 1) * 2 ^ Binary.place f code : ℝ) =
        2 * (((2 * Binary.significand f code + 1) * 2 ^ n : Nat) * 2 ^ g) := by
      rw [← steps, two_zpow_add, two_zpow_succ, zpow_natCast]
      push_cast
      ring
    rw [whole]
    rcases Nat.lt_or_ge q ((2 * Binary.significand f code + 1) * 2 ^ n) with above | within
    · have count : (q + 1 : ℝ) ≤ ((2 * Binary.significand f code + 1) * 2 ^ n : Nat) := by
        exact_mod_cast above
      exact .inr (mul_le_mul_of_nonneg_left (mul_le_mul_of_nonneg_right count unit.le) zero_le_two)
    · have count : (((2 * Binary.significand f code + 1) * 2 ^ n : Nat) : ℝ) ≤ q := by
        exact_mod_cast within
      exact .inl (mul_le_mul_of_nonneg_left (mul_le_mul_of_nonneg_right count unit.le) zero_le_two)

end Format

private theorem nearestEven_succ_le_iff (m d n : Nat) :
    nearestEven m ((d + 1 : Nat) : Int) ≤ n ↔
      m < (2 * n + 1) * 2 ^ d ∨ m = (2 * n + 1) * 2 ^ d ∧ n % 2 = 0 := by
  have half : 2 ^ (d + 1) = 2 * 2 ^ d := by rw [Nat.pow_succ, Nat.mul_comm]
  have whole : 2 * 2 ^ d * (m / 2 ^ (d + 1)) + m % 2 ^ (d + 1) = m := by
    rw [← half]
    exact Nat.div_add_mod _ _
  have inside : m % 2 ^ (d + 1) < 2 * 2 ^ d := by
    rw [← half]
    exact Nat.mod_lt _ (Nat.two_pow_pos _)
  have step : nearestEven m ((d + 1 : Nat) : Int) =
      if m % 2 ^ (d + 1) > 2 ^ d || (m % 2 ^ (d + 1) == 2 ^ d && m / 2 ^ (d + 1) % 2 == 1) then
        m / 2 ^ (d + 1) + 1 else m / 2 ^ (d + 1) := by
    show (if m % twoPow (d + 1) > twoPow d || (m % twoPow (d + 1) == twoPow d &&
      m >>> (d + 1) % 2 == 1) then m >>> (d + 1) + 1 else m >>> (d + 1)) = _
    simp only [twoPow, Nat.one_shiftLeft, Nat.shiftRight_eq_div_pow]
  rw [step]
  generalize m / 2 ^ (d + 1) = kept at *
  generalize m % 2 ^ (d + 1) = rest at *
  have pos : 0 < 2 ^ d := Nat.two_pow_pos d
  generalize 2 ^ d = unit at *
  subst whole
  have middle : (2 * n + 1) * unit = 2 * (unit * n) + unit := by ring
  have front : 2 * unit * kept = 2 * (unit * kept) := by ring
  rw [middle, front]
  simp only [Bool.or_eq_true, Bool.and_eq_true, decide_eq_true_eq, beq_iff_eq]
  rcases Nat.lt_trichotomy kept n with below | rfl | above
  · have next : unit * kept + unit ≤ unit * n := by
      rw [← Nat.mul_succ]
      exact Nat.mul_le_mul_left unit below
    refine iff_of_true ?_ (.inl (by omega))
    split <;> omega
  · split <;> omega
  · have next : unit * n + unit ≤ unit * kept := by
      rw [← Nat.mul_succ]
      exact Nat.mul_le_mul_left unit above
    refine iff_of_false ?_ (by omega)
    split <;> omega

private theorem nearestEven_le_iff (m : Nat) (drop : Int) (n : Nat) :
    nearestEven m drop ≤ n ↔
      (2 * m : ℝ) < (2 * n + 1) * 2 ^ drop ∨ (2 * m : ℝ) = (2 * n + 1) * 2 ^ drop ∧ n % 2 = 0 := by
  rcases drop with (_ | d) | d
  · have kept : nearestEven m (Int.ofNat 0) = m := rfl
    have unit : (2 : ℝ) ^ (Int.ofNat 0) = 1 := zpow_zero 2
    rw [kept, unit, mul_one]
    norm_cast
    omega
  · have unit : (2 : ℝ) ^ (Int.ofNat (d + 1)) = 2 * ((2 ^ d : Nat) : ℝ) := by
      show (2 : ℝ) ^ ((d + 1 : Nat) : Int) = _
      rw [zpow_natCast, pow_succ]
      push_cast
      ring
    have halves :
        (2 * n + 1 : ℝ) * (2 * ((2 ^ d : Nat) : ℝ)) = 2 * (((2 * n + 1) * 2 ^ d : Nat) : ℝ) := by
      push_cast
      ring
    show nearestEven m ((d + 1 : Nat) : Int) ≤ n ↔ _
    rw [nearestEven_succ_le_iff, unit, halves]
    norm_cast
    omega
  · have unit : (2 : ℝ) ^ (Int.negSucc d) = ((2 ^ (d + 1) : Nat) : ℝ)⁻¹ := by
      rw [zpow_negSucc]
      push_cast
      rfl
    have pos : (0 : ℝ) < ((2 ^ (d + 1) : Nat) : ℝ) := Nat.cast_pos.mpr (Nat.two_pow_pos _)
    have appended : nearestEven m (Int.negSucc d) = m * 2 ^ (d + 1) := Nat.shiftLeft_eq _ _
    rw [appended, unit, ← div_eq_mul_inv, lt_div_iff₀ pos, eq_div_iff pos.ne']
    norm_cast
    rw [Nat.mul_assoc]
    omega

private theorem nearestEven_le {m : Nat} {drop : Int} {n : Nat} (atMost : (m : ℝ) ≤ n * 2 ^ drop) :
    nearestEven m drop ≤ n := by
  have unit := two_zpow_pos drop
  refine (nearestEven_le_iff m drop n).mpr (.inl ?_)
  linarith

private theorem le_nearestEven {m : Nat} {drop : Int} {n : Nat} (atLeast : n * 2 ^ drop ≤ (m : ℝ)) :
    n ≤ nearestEven m drop := by
  cases n with
  | zero => exact Nat.zero_le _
  | succ n =>
    have unit := two_zpow_pos drop
    push_cast at atLeast
    refine Nat.lt_of_not_le fun below => ?_
    rcases (nearestEven_le_iff m drop n).mp below with lt | ⟨eq, -⟩ <;> linarith

namespace Binary

variable {f : Format}

theorem two_zpow_log2_le {m : Nat} (nonzero : m ≠ 0) : (2 : ℝ) ^ (m.log2 : Int) ≤ m := by
  rw [zpow_natCast]
  exact_mod_cast Nat.log2_self_le nonzero

theorem lt_two_zpow_log2 (m : Nat) : (m : ℝ) < 2 ^ ((m.log2 : Int) + 1) := by
  rw [← Nat.cast_succ, zpow_natCast]
  exact_mod_cast Nat.lt_log2_self

private theorem code_mod_two (wide : 0 < f.fraction) (code : Nat) :
    code % 2 = significand f code % 2 := by
  have whole := binades_add_significand f code
  obtain ⟨n, bits⟩ := Nat.exists_eq_succ_of_ne_zero (Nat.ne_of_gt wide)
  have doubled : (place f code - f.lowestPlace).toNat * f.binade =
      2 * ((place f code - f.lowestPlace).toNat * twoPow n) := by
    rw [Format.binade, bits, twoPow_succ]
    ring
  omega

private theorem roundsWithin_place_iff (wide : 0 < f.fraction) (m : Nat) (e : Int) (code : Nat) :
    f.RoundsWithin (m * 2 ^ e) code ↔ nearestEven m (place f code - e) ≤ significand f code := by
  have positive := two_zpow_pos e
  have back : (2 : ℝ) ^ place f code = 2 ^ (place f code - e) * 2 ^ e := by
    rw [← two_zpow_add, Int.sub_add_cancel]
  rw [Format.RoundsWithin, Format.middle_eq, nearestEven_le_iff, code_mod_two wide, back,
    ← mul_assoc, ← mul_assoc, mul_lt_mul_iff_of_pos_right positive, mul_left_inj' positive.ne']

/-- Rounding an exact value gives the code that it is nearest to. -/
theorem nearestCode_le_iff (wide : 0 < f.fraction) (m : Nat) (e : Int) (code : Nat) :
    nearestCode f m e ≤ code ↔ f.RoundsWithin (m * 2 ^ e) code := by
  by_cases zero : m = 0
  · subst zero
    have nothing : nearestCode f 0 e = 0 := if_pos rfl
    rw [nothing, Nat.cast_zero, zero_mul]
    exact iff_of_true (Nat.zero_le _) (Format.roundsWithin_of_le (f.magnitude_nonneg code))
  rw [nearestCode, if_neg zero]
  simp only
  generalize known : max ((m.log2 : Int) + e - f.fraction) f.lowestPlace = last
  have lowest : f.lowestPlace ≤ last := by omega
  have place_eq : f.lowestPlace + ((last - f.lowestPlace).toNat : Int) = last := by omega
  have back : (2 : ℝ) ^ last = 2 ^ (last - e) * 2 ^ e := by rw [← two_zpow_add, Int.sub_add_cancel]
  have positive := two_zpow_pos e
  -- The codes at the last place that is kept decide; those at other places lie on one side.
  rcases lt_trichotomy (place f code) last with below | rfl | above
  · have full : f.binade * 2 ^ last ≤ (m * 2 ^ e : ℝ) :=
      calc (f.binade * 2 ^ last : ℝ)
        _ = 2 ^ (m.log2 : Int) * 2 ^ e := by
          rw [Format.cast_binade, ← two_zpow_add, ← two_zpow_add]
          congr 1
          have bottom := lowestPlace_le_place f code
          omega
        _ ≤ m * 2 ^ e := mul_le_mul_of_nonneg_right (two_zpow_log2_le zero) positive.le
    have kept : f.binade ≤ nearestEven m (last - e) := by
      refine le_nearestEven (le_of_mul_le_mul_right ?_ positive)
      rwa [mul_assoc, ← back]
    have before := Format.lt_first_code below
    have first :=
      f.magnitude_binades_add (last - f.lowestPlace).toNat f.binade (by omega) (.inr le_rfl)
    have next := f.magnitude_strictMono.monotone before
    rw [first, place_eq] at next
    exact iff_of_false (by omega) (Format.not_roundsWithin_of_le (next.trans full))
  · have whole := binades_add_significand f code
    rw [roundsWithin_place_iff wide]
    omega
  · have room : (m * 2 ^ e : ℝ) ≤ (2 * f.binade : Nat) * 2 ^ last :=
      calc (m * 2 ^ e : ℝ)
        _ ≤ 2 ^ ((m.log2 : Int) + 1) * 2 ^ e :=
          mul_le_mul_of_nonneg_right (lt_two_zpow_log2 m).le positive.le
        _ = 2 ^ ((m.log2 : Int) + 1 + e) := (two_zpow_add _ _).symm
        _ ≤ 2 ^ ((f.fraction : Int) + last + 1) := two_zpow_le (by omega)
        _ = (2 * f.binade : Nat) * 2 ^ last := by
          rw [two_zpow_succ, two_zpow_add, Nat.cast_mul, Format.cast_binade, Nat.cast_ofNat,
            mul_assoc]
    have kept : nearestEven m (last - e) ≤ 2 * f.binade := by
      refine nearestEven_le (le_of_mul_le_mul_right ?_ positive)
      rwa [mul_assoc, ← back]
    have after := Format.last_code_lt lowest above
    have past :=
      f.magnitude_binades_add (last - f.lowestPlace).toNat (2 * f.binade) le_rfl (.inr (by omega))
    have here := f.magnitude_strictMono.monotone after
    rw [past, place_eq] at here
    exact iff_of_true (by omega) (Format.roundsWithin_of_le (room.trans here))

/-- Rounding a value that was cut, with a last bit for what was cut off, is rounding the value. -/
theorem nearestCode_cut_le_iff (wide : 0 < f.fraction) {q : Nat} (bits : 2 * f.binade ≤ q) {g : Int}
    {v : ℝ} (atLeast : q * 2 ^ g ≤ v) (below : v < (q + 1) * 2 ^ g) {exact : Bool}
    (whole : exact = true ↔ v = q * 2 ^ g) (code : Nat) :
    nearestCode f (2 * q + if exact then 0 else 1) (g - 1) ≤ code ↔ f.RoundsWithin v code := by
  have half : (2 : ℝ) ^ g = 2 * 2 ^ (g - 1) := by rw [← two_zpow_succ, Int.sub_add_cancel]
  rw [nearestCode_le_iff wide]
  cases exact with
  | true =>
    have value : v = ((2 * q + 0 : Nat) : ℝ) * 2 ^ (g - 1) := by
      rw [whole.mp rfl, half]
      push_cast
      ring
    rw [value]
    rfl
  | false =>
    have value : (((2 * q + 1 : Nat) : ℝ) * 2 ^ (g - 1)) = (q + 1 / 2) * 2 ^ g := by
      rw [half]
      push_cast
      ring
    have unit := two_zpow_pos g
    have above : q * 2 ^ g < v :=
      lt_of_le_of_ne atLeast fun equal => by simpa using whole.mpr equal.symm
    show f.RoundsWithin (((2 * q + 1 : Nat) : ℝ) * 2 ^ (g - 1)) code ↔ _
    rw [value, Format.RoundsWithin, Format.RoundsWithin]
    rcases Format.middle_outside_unit bits g code with lower | higher
    · refine iff_of_false ?_ ?_ <;> rintro (less | ⟨equal, -⟩) <;> linarith
    · refine iff_of_true (.inl ?_) (.inl ?_) <;> linarith

end Binary

end Boosting
