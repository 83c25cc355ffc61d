/- Bounds on results.
   Rounding keeps to the same side of every magnitude that the format holds, so an exact value
   that lies between two of them gives a result between them. The results that are zero or
   infinite are told by the first and the last middle. -/

import Boosting.Proofs.Binary.Quotients

set_option autoImplicit false
set_option relaxedAutoImplicit false

namespace Boosting

theorem single_fraction_pos : 0 < Format.single.fraction := by decide

theorem single_infinityCode_pos : 0 < Format.single.infinityCode := by decide

theorem double_fraction_pos : 0 < Format.double.fraction := by decide

theorem double_infinityCode_pos : 0 < Format.double.infinityCode := by decide

namespace Format

variable {f : Format}

/-- The least power of two that is too large for the format. -/
noncomputable def overflow (f : Format) : ℝ :=
  f.magnitude f.infinityCode

/-- Whether a magnitude is that of a number of the format, or the one infinity stands for. -/
def Holds (f : Format) (w : ℝ) : Prop :=
  ∃ code ≤ f.infinityCode, f.magnitude code = w

theorem holds_zero (f : Format) : f.Holds 0 :=
  ⟨0, Nat.zero_le _, f.magnitude_zero⟩

private theorem exists_magnitude_eq (f : Format) (n : Nat) {m : Nat} (bits : m < 2 * f.binade) :
    ∃ code, f.magnitude code = m * 2 ^ (f.lowestPlace + n) := by
  induction n generalizing m with
  | zero => exact ⟨_, f.magnitude_binades_add 0 m bits.le (.inl rfl)⟩
  | succ n ih =>
    rcases Nat.lt_or_ge m f.binade with short | full
    · obtain ⟨code, exact⟩ := ih (m := 2 * m) (by omega)
      refine ⟨code, ?_⟩
      have up : f.lowestPlace + ((n + 1 : Nat) : Int) = f.lowestPlace + n + 1 := by omega
      rw [exact, up, two_zpow_succ]
      push_cast
      ring
    · exact ⟨_, f.magnitude_binades_add (n + 1) m bits.le (.inr full)⟩

private theorem holds_of_bits {m : Nat} {e : Int} (bits : m < 2 * f.binade)
    (lowest : f.lowestPlace ≤ e) (inside : (m * 2 ^ e : ℝ) ≤ f.overflow) : f.Holds (m * 2 ^ e) := by
  obtain ⟨n, rfl⟩ := Int.le.dest lowest
  obtain ⟨code, exact⟩ := f.exists_magnitude_eq n bits
  rw [← exact] at inside
  exact ⟨code, f.magnitude_strictMono.le_iff_le.mp inside, exact⟩

theorem holds_overflow (f : Format) : f.Holds f.overflow :=
  ⟨f.infinityCode, Nat.le_refl _, rfl⟩

private theorem holds_of_place {top : Int} (ceiling : f.overflow = 2 ^ top) {m : Nat} {e : Int}
    (bits : m < 2 * f.binade) (lowest : f.lowestPlace ≤ e) (high : f.fraction + 1 + e ≤ top) :
    f.Holds (m * 2 ^ e) := by
  refine holds_of_bits bits lowest ?_
  have count : (m : ℝ) ≤ 2 ^ ((f.fraction : Int) + 1) := by
    rw [two_zpow_succ, ← cast_binade]
    exact_mod_cast bits.le
  calc (m * 2 ^ e : ℝ)
    _ ≤ 2 ^ ((f.fraction : Int) + 1) * 2 ^ e := mul_le_mul_of_nonneg_right count (two_zpow_pos e).le
    _ = 2 ^ ((f.fraction : Int) + 1 + e) := (two_zpow_add _ _).symm
    _ ≤ 2 ^ top := two_zpow_le high
    _ = f.overflow := ceiling.symm

private theorem overflow_eq (f : Format) (exponents : 2 ≤ twoPow f.exponent) :
    f.overflow = 2 ^ ((f.fraction : Int) + (f.lowestPlace + (twoPow f.exponent - 2 : Nat))) := by
  have code : f.infinityCode = (twoPow f.exponent - 2) * f.binade + f.binade := by
    rw [← Nat.succ_mul, infinityCode]
    congr 1
    omega
  have whole :=
    f.magnitude_binades_add (twoPow f.exponent - 2) f.binade (by omega) (.inr (Nat.le_refl _))
  rw [overflow, code, whole, cast_binade, ← two_zpow_add]

theorem overflow_single : single.overflow = 2 ^ (128 : Int) :=
  overflow_eq .single (by decide)

theorem overflow_double : double.overflow = 2 ^ (1024 : Int) :=
  overflow_eq .double (by decide)

theorem single_holds {w : ℝ} (m : Nat) (e : Int) (exact : w = m * 2 ^ e)
    (fits : m < 16777216 ∧ -149 ≤ e ∧ e ≤ 104) : single.Holds w := by
  rw [exact]
  exact holds_of_place overflow_single fits.1 fits.2.1 (Int.add_le_add_left fits.2.2 24)

theorem single_holds_two_zpow {e : Int} (fits : -149 ≤ e ∧ e ≤ 127) : single.Holds (2 ^ e) := by
  rcases Int.lt_or_le e 105 with small | large
  · exact single_holds 1 e (by rw [Nat.cast_one, one_mul]) (by omega)
  · refine single_holds 8388608 (e - 23) ?_ (by omega)
    have power : ((8388608 : Nat) : ℝ) = 2 ^ (23 : Int) := by norm_num
    rw [power, ← two_zpow_add]
    congr 1
    omega

theorem single_holds_sixteenths {w : ℝ} (n : Nat) (exact : w = n * 2 ^ (-4 : Int) ∧ n < 16777216) :
    single.Holds w :=
  single_holds n (-4) exact.1 (by omega)

theorem double_holds {w : ℝ} (m : Nat) (e : Int) (exact : w = m * 2 ^ e)
    (fits : m < 9007199254740992 ∧ -1074 ≤ e ∧ e ≤ 971) : double.Holds w := by
  rw [exact]
  exact holds_of_place overflow_double fits.1 fits.2.1 (Int.add_le_add_left fits.2.2 53)

end Format

namespace Binary

variable {f : Format}

theorem holds_size (x : Binary f) : f.Holds x.size :=
  ⟨x.code, x.code_le_infinityCode, rfl⟩

theorem size_le_overflow (x : Binary f) : x.size ≤ f.overflow :=
  f.magnitude_strictMono.monotone x.code_le_infinityCode

theorem exists_binade (wide : 0 < f.infinityCode) {x : Binary f} (nonzero : ¬ x.isZero = true) :
    ∃ j, f.lowestPlace ≤ j ∧ 2 ^ j ≤ x.size ∧ x.size < 2 ^ (j + 1) := by
  have nonzeroBits := significand_ne_zero (f := f) (mt (isZero_iff_code wide).mpr nonzero)
  have place := lowestPlace_le_place f x.code
  have unit := two_zpow_pos (Binary.place f x.code)
  refine ⟨(significand f x.code).log2 + Binary.place f x.code, by omega, ?_, ?_⟩
  · rw [two_zpow_add]
    exact mul_le_mul_of_nonneg_right (two_zpow_log2_le nonzeroBits) unit.le
  · have next : ((significand f x.code).log2 + Binary.place f x.code + 1 : Int) =
        (significand f x.code).log2 + 1 + Binary.place f x.code := by omega
    rw [next, two_zpow_add]
    exact mul_lt_mul_of_pos_right (lt_two_zpow_log2 _) unit

theorem least_le_size (wide : 0 < f.infinityCode) {x : Binary f} (nonzero : ¬ x.isZero = true) :
    2 ^ f.lowestPlace ≤ x.size := by
  obtain ⟨j, lowest, atLeast, -⟩ := exists_binade wide nonzero
  exact (two_zpow_le lowest).trans atLeast

theorem succ_le_size {x : Binary f} {m : Nat} {e : Int} (full : f.binade ≤ m)
    (bits : m < 2 * f.binade)
    (lowest : f.lowestPlace ≤ e) (above : m * 2 ^ e < x.size) : (m + 1) * 2 ^ e ≤ x.size := by
  have place : f.lowestPlace + ((e - f.lowestPlace).toNat : Int) = e := by omega
  have here := f.magnitude_binades_add (e - f.lowestPlace).toNat m bits.le (.inr full)
  have next := f.magnitude_binades_add (e - f.lowestPlace).toNat (m + 1) bits (.inr (by omega))
  rw [place] at here next
  rw [← here, size, f.magnitude_strictMono.lt_iff_lt] at above
  have after := f.magnitude_strictMono.monotone (Nat.succ_le_of_lt above)
  rw [Nat.succ_eq_add_one, Nat.add_assoc, next] at after
  exact_mod_cast after

theorem lessEq_iff_size_le {x y : Binary f} (numberX : x.isNaN = false) (numberY : y.isNaN = false)
    (signX : x.isNegative = false) (signY : y.isNegative = false) :
    x.lessEq y = true ↔ x.size ≤ y.size := by
  rw [size, size, f.magnitude_strictMono.le_iff_le]
  cases x with
  | nan => cases numberX
  | signed s m =>
    cases y with
    | nan => cases numberY
    | signed t n =>
      obtain rfl : s = false := signX
      obtain rfl : t = false := signY
      simp [lessEq, rank, code]

namespace Rounds

variable {x : Binary f} {v : ℝ}

theorem size_le (rounded : x.Rounds v) {w : ℝ} (held : f.Holds w) (le : |v| ≤ w) : x.size ≤ w := by
  obtain ⟨code, inside, rfl⟩ := held
  refine f.magnitude_strictMono.le_iff_le.mpr ?_
  rcases Nat.lt_or_eq_of_le inside with below | rfl
  · exact (rounded.code_le_iff code below).mpr (Format.roundsWithin_of_le le)
  · exact x.code_le_infinityCode

theorem le_size (rounded : x.Rounds v) {w : ℝ} (held : f.Holds w) (le : w ≤ |v|) : w ≤ x.size := by
  obtain ⟨code, inside, rfl⟩ := held
  refine f.magnitude_strictMono.le_iff_le.mpr ?_
  cases code with
  | zero => exact Nat.zero_le _
  | succ code =>
    exact Nat.lt_of_not_le
      (mt (rounded.code_le_iff code inside).mp (Format.not_roundsWithin_of_le le))

theorem size_eq (rounded : x.Rounds v) (nonneg : 0 ≤ v) (held : f.Holds v) : x.size = v := by
  have known := abs_of_nonneg nonneg
  exact le_antisymm (rounded.size_le held known.le) (rounded.le_size held known.ge)

theorem value_eq (rounded : x.Rounds v) (held : f.Holds |v|) : x.value = v := by
  have size : x.size = |v| :=
    le_antisymm (rounded.size_le held le_rfl) (rounded.le_size held le_rfl)
  rcases lt_trichotomy v 0 with negative | rfl | positive
  · rw [value, (rounded.sign negative.ne).mpr negative, size, abs_of_neg negative]
    exact neg_neg v
  · rw [value, size, abs_zero, withSign_zero]
  · have sign := mt (rounded.sign positive.ne').mp positive.not_gt
    rw [value, eq_false_of_ne_true sign, size, abs_of_pos positive]
    rfl

theorem isNegative_eq_false (rounded : x.Rounds v) (positive : 0 < v) : x.isNegative = false := by
  have sign := rounded.sign positive.ne'
  rw [iff_false_intro positive.not_gt, iff_false] at sign
  exact Bool.eq_false_of_not_eq_true sign

theorem value_eq_size (rounded : x.Rounds v) (nonneg : 0 ≤ v) : x.value = x.size := by
  rcases lt_or_eq_of_le nonneg with positive | rfl
  · rw [value, rounded.isNegative_eq_false positive]
    rfl
  · rw [value, rounded.size_eq le_rfl f.holds_zero, withSign_zero]

/-- Zero are the results up to the middle of zero and the least number. -/
theorem isZero_iff (rounded : x.Rounds v) (wide : 0 < f.infinityCode) :
    x.isZero = true ↔ 2 * |v| ≤ 2 ^ f.lowestPlace := by
  have least : f.magnitude 0 + f.magnitude (0 + 1) = 2 ^ f.lowestPlace := by
    rw [f.magnitude_succ, f.magnitude_zero, place_of_subnormal (twoPow_pos _), zero_add, zero_add]
  rw [isZero_iff_code wide, ← Nat.le_zero, rounded.code_le_iff 0 wide, Format.RoundsWithin, least,
    le_iff_lt_or_eq]
  simp

end Rounds

theorem value_ofNat (wide : 0 < f.fraction) {n : Nat} (held : f.Holds n) :
    (ofNat n : Binary f).value = n := by
  have rounded := rounds_ofNat (f := f) wide n
  rw [rounded.value_eq_size (Nat.cast_nonneg n), rounded.size_eq (Nat.cast_nonneg n) held]

end Binary

theorem isFinite_of_size_lt {x : Single} (below : x.size < 2 ^ (128 : Int)) :
    x.isFinite = true := by
  rw [Binary.isFinite_iff_size]
  exact below.trans_eq Format.overflow_single.symm

end Boosting
