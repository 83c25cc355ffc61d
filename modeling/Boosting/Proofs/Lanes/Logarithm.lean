/- Which arguments of the logarithm are mended.
   The checks of the logarithm overwrite one another's results: the one for zeros sees all
   negative numbers, and one comparison finds `nan` and infinity together. What comes out depends
   on the kind and the sign of the argument and on the checks that are about it; a positive
   normal number is never mended. -/

import Boosting.Lanes.Logarithm
import Boosting.Proofs.Binary.Kinds
import Boosting.Proofs.Lanes.Negation

set_option autoImplicit false
set_option relaxedAutoImplicit false

namespace Boosting

namespace LogOptions

def unended (o : LogOptions) : LogOptions :=
  { o with nan := false, positiveInfinity := false }

def unchecked (o : LogOptions) : LogOptions :=
  { negateOutput := o.negateOutput
    nan := false
    negative := false
    zero := false
    positiveInfinity := false }

end LogOptions

namespace Lanes

variable (k : Lanes) (o : LogOptions)

private theorem wide_single : Format.single.binade ≤ Format.single.infinityCode := by decide

/-- The checks for `nan` and infinity come last. Whether one comparison stands for both or each has
its own, only these two arguments are mended. -/
theorem logWith_ends (x : Single) :
    k.logWith o x =
      if o.nan = true ∧ x.kind = .nan then .nan
      else if o.positiveInfinity = true ∧ x = .infinity false then .infinity o.negateOutput
      else k.logWith o.unended x := by
  have last : k.logWith o x =
      let real := k.logWith o.unended x
      if o.nan && o.positiveInfinity then
        choose (x.less (.infinity false)) real (if o.negateOutput then k.neg x else x)
      else if o.nan then choose x.isNaN x real
      else if o.positiveInfinity then choose (x.equal (.infinity false)) (.infinity o.negateOutput)
        real
      else real := rfl
  generalize k.logWith o.unended x = real at last ⊢
  rw [last]
  simp only [choose, Binary.isNaN_iff, Binary.less_infinity_iff wide_single,
    Binary.equal_infinity_iff wide_single, Binary.eq_infinity_iff]
  by_cases missing : x.kind = .nan
  · obtain rfl := (Binary.kind_eq_nan_iff x).mp missing
    cases o.nan <;> cases o.positiveInfinity <;> simp [missing, neg_nan]
  · by_cases infinite : x.kind = .infinite ∧ x.isNegative = false
    · obtain rfl := (Binary.eq_infinity_iff x false).mpr infinite
      cases o.nan <;> cases o.positiveInfinity <;> cases o.negateOutput <;>
        simp [infinite, neg_infinity]
    · simp [missing, infinite]

/-- Of the first two checks the one for zeros sees negative numbers too, and the one for these
overrides it. -/
theorem logWith_starts (x : Single) :
    k.logWith o.unended x =
      if o.negative = true ∧ x.isNegative = true ∧ x.kind ≠ .zero then .nan
      else if o.zero = true ∧ (x.isNegative = true ∨ x.kind = .zero ∨ x.kind = .subnormal) then
        .infinity !o.negateOutput
      else k.logWith o.unchecked x := by
  have first : k.logWith o.unended x =
      let plain := k.logWith o.unchecked x
      let grounded :=
        if o.zero then choose (x.less .leastNormal) (-.infinity o.negateOutput) plain else plain
      if o.negative then choose (x.less (.zero false)) .nan grounded else grounded := rfl
  have opposite : -(.infinity o.negateOutput : Single) = .infinity !o.negateOutput := rfl
  rw [first]
  simp only [choose, Binary.less_zero_iff wide_single, Binary.less_leastNormal_iff wide_single,
    opposite]
  cases o.negative <;> cases o.zero <;> simp

/-- Each check gives its result on the arguments that it is about, whatever the other checks are:
`nan`, the numbers below zero, the zeros with the positive subnormal numbers, and infinity. The
check for zeros is about the numbers below zero too, where these are not checked themselves. An
argument that no enabled check is about has the logarithm of the variant without checks, as positive
normal numbers always have. -/
theorem logWith_mends_ends (x : Single) :
    (x.kind = .nan → k.logWith o x = if o.nan then .nan else k.logWith o.unchecked x) ∧
    (x.isNegative = true → x.kind ≠ .zero →
      k.logWith o x =
        if o.negative then .nan else if o.zero then .infinity !o.negateOutput
        else k.logWith o.unchecked x) ∧
    (x.kind = .zero ∨ x.kind = .subnormal ∧ x.isNegative = false →
      k.logWith o x = if o.zero then .infinity !o.negateOutput else k.logWith o.unchecked x) ∧
    (x.kind = .infinite → x.isNegative = false →
      k.logWith o x =
        if o.positiveInfinity then .infinity o.negateOutput else k.logWith o.unchecked x) ∧
    (x.kind = .normal → x.isNegative = false → k.logWith o x = k.logWith o.unchecked x) := by
  rw [logWith_ends, logWith_starts]
  simp only [Binary.eq_infinity_iff]
  refine ⟨fun missing => ?_, fun sign nonzero => ?_, fun small => ?_, fun infinite sign => ?_,
    fun normal sign => ?_⟩
  · obtain rfl := (Binary.kind_eq_nan_iff x).mp missing
    simp [missing, Binary.isNegative]
  · have number : x.kind ≠ .nan := by
      intro missing
      obtain rfl := (Binary.kind_eq_nan_iff x).mp missing
      cases sign
    simp [sign, nonzero, number]
  · rcases small with zero | ⟨subnormal, sign⟩
    · simp [zero]
    · simp [subnormal, sign]
  · simp [infinite, sign]
  · simp [normal, sign]

theorem logWith_mends_ends_of_five_arguments :
    let o : LogOptions := ⟨true, true, true, true, true⟩
    let tiny : Single := .ofCode true 1
    packed.logWith o .nan = .nan ∧
      (tiny.isNegative = true ∧ tiny.kind ≠ .zero ∧ packed.logWith o tiny = .nan) ∧
      ((-0 : Single).kind = .zero ∧ packed.logWith o (-0) = .infinity false) ∧
      packed.logWith o (.infinity false) = .infinity true ∧
      (1.5 : Single).kind = .normal ∧ packed.logWith o 1.5 = packed.logWith o.unchecked 1.5 := by
  intro o tiny
  obtain ⟨missing, -, -, -, -⟩ := logWith_mends_ends packed o .nan
  obtain ⟨-, negative, -, -, -⟩ := logWith_mends_ends packed o tiny
  obtain ⟨-, -, small, -, -⟩ := logWith_mends_ends packed o (-0)
  obtain ⟨-, -, -, infinite, -⟩ := logWith_mends_ends packed o (.infinity false)
  obtain ⟨-, -, -, -, normal⟩ := logWith_mends_ends packed o 1.5
  have below : tiny.kind ≠ .zero := by decide
  have zero : (-0 : Single).kind = .zero := by decide
  have regular : (1.5 : Single).kind = .normal := by decide
  exact ⟨missing rfl, ⟨rfl, below, negative rfl below⟩, ⟨zero, small (.inl zero)⟩,
    infinite (by decide) rfl, regular, normal regular (by decide)⟩

end Lanes

end Boosting
