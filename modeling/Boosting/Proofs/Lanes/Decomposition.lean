/- Mantissa and exponent.
   The word of a positive normal number is its exponent field, in steps of 8388608, and a
   fraction below one step. The mantissa keeps the fraction and puts the field of one half above
   it, the exponent is the field less its bias. Both are exact, so the number is its mantissa
   times a power of two, and no other positive normal number has the same two parts. -/

import Mathlib.Analysis.SpecialFunctions.Log.Base
import Boosting.Lanes.Bits
import Boosting.Proofs.Binary.Bounds

set_option autoImplicit false
set_option relaxedAutoImplicit false

namespace Boosting

open Binary Format

/-- The word of a positive normal number: a sign bit of zero, and an exponent field that is neither
the least nor the largest. -/
structure NormalWord (w : BitVec 32) : Prop where
  sign : w.msb = false
  least : 1 ≤ (w.extractLsb' 23 8).toNat
  most : (w.extractLsb' 23 8).toNat ≤ 254

instance (w : BitVec 32) : Decidable (NormalWord w) :=
  decidable_of_iff
    (w.msb = false ∧ 1 ≤ (w.extractLsb' 23 8).toNat ∧ (w.extractLsb' 23 8).toNat ≤ 254)
    ⟨fun ⟨sign, least, most⟩ => ⟨sign, least, most⟩, fun ⟨sign, least, most⟩ => ⟨sign, least, most⟩⟩

private theorem single_binade : single.binade = 8388608 := rfl

namespace NormalWord

variable {w : BitVec 32}

private theorem field_eq (w : BitVec 32) :
    (w.extractLsb' 23 8).toNat = w.toNat / 8388608 % 256 := by
  rw [BitVec.extractLsb'_toNat, Nat.shiftRight_eq_div_pow]

private theorem toNat_lt (normal : NormalWord w) : w.toNat < 255 * 8388608 := by
  have sign := BitVec.msb_eq_false_iff_two_mul_lt.mp normal.sign
  have most := normal.most
  rw [field_eq] at most
  omega

private theorem le_toNat (normal : NormalWord w) : 8388608 ≤ w.toNat := by
  have least := normal.least
  rw [field_eq] at least
  omega

end NormalWord

namespace Single

private theorem toNat_mantissaWord (w : BitVec 32) :
    ((w &&& 0x007FFFFF#32) ||| 0x3F000000#32).toNat = 126 * 8388608 + w.toNat % 8388608 := by
  have fraction : w.toNat &&& 8388607 = w.toNat % 8388608 :=
    Nat.and_two_pow_sub_one_eq_mod w.toNat 23
  have small : w.toNat % 8388608 < 2 ^ 23 := Nat.mod_lt _ (by decide)
  have joined : 126 * 8388608 + w.toNat % 8388608 = 1056964608 ||| w.toNat % 8388608 :=
    Nat.shiftLeft_add_eq_or_of_lt small 126
  rw [joined, Nat.or_comm, ← fraction, BitVec.toNat_or, BitVec.toNat_and]
  rfl

private theorem toNat_exponentWord {w : BitVec 32} (sign : w.msb = false) :
    (w.sshiftRight 23 &&& 0xFF#32).toNat = w.toNat / 8388608 % 256 := by
  rw [BitVec.sshiftRight_eq_of_msb_false sign, BitVec.toNat_and, BitVec.toNat_ushiftRight,
    Nat.shiftRight_eq_div_pow]
  exact Nat.and_two_pow_sub_one_eq_mod _ 8

private theorem cast_fraction_lt (w : BitVec 32) : ((w.toNat % 8388608 : Nat) : ℝ) < 8388608 := by
  exact_mod_cast Nat.mod_lt w.toNat (by decide)

private theorem ofBits_of_lt {n : Nat} (small : n < 255 * 8388608) :
    (ofBits n : Single) = ofCode false n := by
  have bit : single.signBit = 256 * 8388608 := by decide
  have infinite : single.infinityCode = 255 * 8388608 := by decide
  have code : n % single.signBit = n := Nat.mod_eq_of_lt (by omega)
  have sign : n / single.signBit = 0 := Nat.div_eq_of_lt (by omega)
  simp only [ofBits, code, sign, infinite]
  rw [if_pos small.le]
  rfl

private theorem toWord_ofCode {n : Nat} (small : n < 255 * 8388608) :
    toWord (ofCode false n) = BitVec.ofNat 32 n := by
  have code : min n single.infinityCode = n := Nat.min_eq_left small.le
  simp only [toWord, toBits, ofCode, code]
  rfl

private theorem value_ofCode {n : Nat} (normal : 8388608 ≤ n) (small : n < 255 * 8388608) :
    (ofCode false n : Single).value =
      (8388608 + (n % 8388608 : Nat)) * 2 ^ ((n / 8388608 : Nat) - 150 : Int) := by
  have code : min n single.infinityCode = n := Nat.min_eq_left small.le
  have bits : significand single n = 8388608 + n % 8388608 := if_neg (Nat.not_lt.mpr normal)
  have lowest : single.lowestPlace = -149 := rfl
  have place : place single n = (n / 8388608 : Nat) - 150 := by
    rw [Binary.place, lowest, single_binade]
    omega
  show single.magnitude (min n single.infinityCode) = _
  rw [code, magnitude, bits, place]
  push_cast
  rfl

private theorem exact_of_rounds {x : Single} {i : Int} (rounded : x.Rounds i)
    (small : i.natAbs < 16777216) :
    x.isFinite = true ∧ x.value = i := by
  have known : |(i : ℝ)| = i.natAbs := by rw [← Int.cast_abs, Int.abs_eq_natAbs, Int.cast_natCast]
  have held : single.Holds |(i : ℝ)| :=
    single_holds i.natAbs 0 (by rw [known, zpow_zero, mul_one]) (by omega)
  have below : |(i : ℝ)| < 2 ^ (128 : Int) := by
    calc |(i : ℝ)|
      _ = i.natAbs := known
      _ < 16777216 := by exact_mod_cast small
      _ < 2 ^ (128 : Int) := by norm_num
  exact ⟨isFinite_of_size_lt ((rounded.size_le held le_rfl).trans_lt below), rounded.value_eq held⟩

section Parts

variable {w : BitVec 32} (normal : NormalWord w)

include normal

private theorem ofWord_eq : ofWord w = ofCode false w.toNat :=
  ofBits_of_lt normal.toNat_lt

private theorem toWord_ofWord : (ofWord w).toWord = w := by
  rw [ofWord_eq normal, toWord_ofCode normal.toNat_lt, BitVec.ofNat_toNat, BitVec.setWidth_eq]

private theorem value_ofWord : (ofWord w).value =
    (8388608 + (w.toNat % 8388608 : Nat)) * 2 ^ ((w.toNat / 8388608 : Nat) - 150 : Int) := by
  rw [ofWord_eq normal]
  exact value_ofCode normal.le_toNat normal.toNat_lt

private theorem mantissa_ofWord :
    (ofWord w).mantissa = ofCode false (126 * 8388608 + w.toNat % 8388608) := by
  have small : w.toNat % 8388608 < 8388608 := Nat.mod_lt _ (by decide)
  rw [mantissa, toWord_ofWord normal, ofWord, toNat_mantissaWord]
  exact ofBits_of_lt (by omega)

private theorem value_mantissa : (ofWord w).mantissa.value =
    (8388608 + (w.toNat % 8388608 : Nat)) * 2 ^ (-24 : Int) := by
  have small : w.toNat % 8388608 < 8388608 := Nat.mod_lt _ (by decide)
  have fraction : (126 * 8388608 + w.toNat % 8388608) % 8388608 = w.toNat % 8388608 := by omega
  have field : (126 * 8388608 + w.toNat % 8388608) / 8388608 = 126 := by omega
  rw [mantissa_ofWord normal, value_ofCode (by omega) (by omega), fraction, field]
  norm_num

private theorem exponent_ofWord : (ofWord w).exponent = ofNat (w.toNat / 8388608) - 127 := by
  have sign := BitVec.msb_eq_false_iff_two_mul_lt.mp normal.sign
  have field : (w.sshiftRight 23 &&& 0xFF#32).toNat = w.toNat / 8388608 := by
    rw [toNat_exponentWord normal.sign]
    omega
  have integer : (w.sshiftRight 23 &&& 0xFF#32).toInt = (w.toNat / 8388608 : Nat) := by
    rw [BitVec.toInt_eq_toNat_of_lt (by omega), field]
  rw [exponent, toWord_ofWord normal, ofSignedWord, integer]
  rfl

private theorem value_exponent : (ofWord w).exponent.isFinite = true ∧
    (ofWord w).exponent.value = ((w.toNat / 8388608 : Nat) - 127 : Int) := by
  have below : w.toNat / 8388608 < 255 := Nat.div_lt_of_lt_mul normal.toNat_lt
  rw [exponent_ofWord normal]
  generalize w.toNat / 8388608 = field at below ⊢
  have natural (n : Nat) (short : n < 16777216) :
      (ofNat n : Single).isFinite = true ∧ (ofNat n : Single).value = (n : Int) :=
    exact_of_rounds (by exact_mod_cast rounds_ofNat single_fraction_pos n) (by omega)
  obtain ⟨finite, value⟩ := natural field (by omega)
  obtain ⟨finiteBias, bias⟩ := natural 127 (by decide)
  have difference := rounds_sub single_fraction_pos finite finiteBias
  rw [value, bias, ← Int.cast_sub] at difference
  exact exact_of_rounds difference (by omega)

private theorem binade_of_field :
    2 ^ ((w.toNat / 8388608 : Nat) - 127 : Int) ≤ (ofWord w).value ∧
      (ofWord w).value < 2 ^ ((w.toNat / 8388608 : Nat) - 127 + 1 : Int) := by
  have fraction := cast_fraction_lt w
  have unit := two_zpow_pos ((w.toNat / 8388608 : Nat) - 150)
  have place :
      ((w.toNat / 8388608 : Nat) - 127 : Int) = 23 + ((w.toNat / 8388608 : Nat) - 150) := by omega
  have leading : (2 : ℝ) ^ (23 : Int) = 8388608 := by norm_num
  rw [value_ofWord normal, two_zpow_succ, place, two_zpow_add, leading, ← mul_assoc]
  constructor
  · exact mul_le_mul_of_nonneg_right (le_add_of_nonneg_right (Nat.cast_nonneg _)) unit.le
  · exact mul_lt_mul_of_pos_right (by linarith) unit

private theorem floor_logb_value :
    ⌊Real.logb 2 (ofWord w).value⌋ = ((w.toNat / 8388608 : Nat) - 127 : Int) := by
  obtain ⟨atLeast, below⟩ := binade_of_field normal
  have positive : 0 < (ofWord w).value := (two_zpow_pos _).trans_le atLeast
  have floor : ⌊Real.logb 2 (ofWord w).value⌋ = Int.log 2 (ofWord w).value :=
    mod_cast Real.floor_logb_natCast (b := 2) positive.le
  rw [floor]
  apply le_antisymm
  · exact Int.lt_add_one_iff.mp ((Int.lt_zpow_iff_log_lt one_lt_two positive).mp (mod_cast below))
  · exact (Int.zpow_le_iff_le_log one_lt_two positive).mp (mod_cast atLeast)

private theorem mantissa_between : (ofWord w).mantissa.isFinite = true ∧
    1 / 2 ≤ (ofWord w).mantissa.value ∧ (ofWord w).mantissa.value < 1 := by
  have fraction := cast_fraction_lt w
  have nonneg : (0 : ℝ) ≤ (w.toNat % 8388608 : Nat) := Nat.cast_nonneg _
  have unit : (2 : ℝ) ^ (-24 : Int) = 1 / 16777216 := by norm_num
  have value := value_mantissa normal
  rw [unit] at value
  have below : (ofWord w).mantissa.value < 1 := by linarith
  refine ⟨isFinite_of_size_lt ?_, by linarith, below⟩
  rw [← abs_value, abs_of_nonneg (by linarith)]
  exact below.trans_le (one_le_zpow₀ one_le_two (by decide))

private theorem value_eq_mantissa_mul : (ofWord w).value =
    (ofWord w).mantissa.value * 2 ^ ((w.toNat / 8388608 : Nat) - 127 + 1 : Int) := by
  have place : ((w.toNat / 8388608 : Nat) - 150 : Int) =
      -24 + ((w.toNat / 8388608 : Nat) - 127 + 1) := by omega
  rw [value_ofWord normal, value_mantissa normal, place, two_zpow_add, mul_assoc]

private theorem eq_of_value_eq {v : BitVec 32} (other : NormalWord v)
    (mantissas : (ofWord v).mantissa.value = (ofWord w).mantissa.value)
    (exponents : (ofWord v).exponent.value = (ofWord w).exponent.value) : v = w := by
  have fractions : v.toNat % 8388608 = w.toNat % 8388608 := by
    rw [value_mantissa other, value_mantissa normal] at mantissas
    exact_mod_cast add_left_cancel (mul_right_cancel₀ (two_zpow_pos _).ne' mantissas)
  have fields : v.toNat / 8388608 = w.toNat / 8388608 := by
    rw [(value_exponent other).2, (value_exponent normal).2, Int.cast_inj] at exponents
    omega
  apply BitVec.eq_of_toNat_eq
  omega

end Parts

end Single

namespace Lanes

/-- The unbiased exponent as lanes compute it, with their own right shift. The masks, and with them
the mantissa, are the same on both kinds. -/
def exponent? (k : Lanes) (x : Single) : Option Single :=
  (k.shiftRight? x.toWord 23).map fun word => Single.ofSignedWord (word &&& 0xFF#32) - 127

private theorem exponent?_eq (k : Lanes) (x : Single) : k.exponent? x = some x.exponent := by
  cases k <;> rfl

end Lanes

namespace Single

/-- The bit helpers take a positive normal number apart exactly: the mantissa lies in `[1/2, 1)`,
both kinds of lanes give the floor of the binary logarithm as exponent, the two make up the number,
and no other one has the same two. -/
theorem normal_words_decompose {w : BitVec 32} (normal : NormalWord w) :
    ((ofWord w).mantissa.isFinite = true ∧
      1 / 2 ≤ (ofWord w).mantissa.value ∧ (ofWord w).mantissa.value < 1) ∧
    (∀ k : Lanes, k.exponent? (ofWord w) = some (ofWord w).exponent) ∧
    (∃ e : Int, (ofWord w).exponent.isFinite = true ∧ (ofWord w).exponent.value = e ∧
      e = ⌊Real.logb 2 (ofWord w).value⌋ ∧
      (ofWord w).value = (ofWord w).mantissa.value * 2 ^ (e + 1)) ∧
    ∀ v : BitVec 32, NormalWord v → (ofWord v).mantissa = (ofWord w).mantissa →
      (ofWord v).exponent = (ofWord w).exponent → v = w := by
  obtain ⟨finite, integer⟩ := value_exponent normal
  refine ⟨mantissa_between normal, fun k => k.exponent?_eq _,
    ⟨_, finite, integer, (floor_logb_value normal).symm, value_eq_mantissa_mul normal⟩, ?_⟩
  intro v other mantissas exponents
  exact eq_of_value_eq normal other (congrArg Binary.value mantissas)
    (congrArg Binary.value exponents)

theorem normal_words_decompose_of_three_and_a_half :
    NormalWord 0x40600000#32 ∧ Lanes.packed.exponent? (ofWord 0x40600000#32) = some 1 ∧
      1 / 2 ≤ (ofWord 0x3F600000#32).value ∧
      ∀ v : BitVec 32, NormalWord v → (ofWord v).mantissa = ofWord 0x3F600000#32 →
        (ofWord v).exponent = 1 → v = 0x40600000#32 := by
  have normal : NormalWord 0x40600000#32 := by decide
  have mantissa : (ofWord 0x40600000#32).mantissa = ofWord 0x3F600000#32 := by decide
  have exponent : (ofWord 0x40600000#32).exponent = 1 := by decide
  obtain ⟨⟨-, half, -⟩, lanes, -, unique⟩ := normal_words_decompose normal
  rw [mantissa, exponent] at unique
  rw [mantissa] at half
  exact ⟨normal, exponent ▸ lanes .packed, half, unique⟩

end Single

end Boosting
