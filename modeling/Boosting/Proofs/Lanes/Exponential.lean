/- Which arguments of the exponential are mended.
   The checks compare the argument as it is given, with mirrored thresholds where the exponential
   is one of the negated argument. They agree with comparisons of the argument that the
   exponential is taken of, so what comes out depends on where this one lies and on the checks
   that are about it. -/

import Boosting.Lanes.Exponential
import Boosting.Proofs.Lanes.Negation

set_option autoImplicit false
set_option relaxedAutoImplicit false

namespace Boosting

def ExpOptions.unchecked (o : ExpOptions) : ExpOptions :=
  { negate := o.negate
    nan := false
    underflow := false
    overflow := false }

namespace Lanes

def expArgument (k : Lanes) (o : ExpOptions) (x : Single) : Single :=
  if o.negate then k.neg x else x

section Mending

variable (k : Lanes) (o : ExpOptions) (x : Single)

private theorem isNaN_expArgument : (k.expArgument o x).isNaN = x.isNaN := by
  rw [expArgument]
  split
  · exact isNaN_neg k x
  · rfl

private theorem less_expArgument (y : Single) :
    y.less (k.expArgument o x) = if o.negate then x.less (-y) else y.less x := by
  rw [expArgument]
  split
  · exact less_neg k x y
  · rfl

private theorem expArgument_less (y : Single) :
    (k.expArgument o x).less y = if o.negate then (-y).less x else x.less y := by
  rw [expArgument]
  split
  · exact neg_less k x y
  · rfl

theorem expWith_eq :
    k.expWith o x =
      let w := k.expArgument o x
      if o.nan = true ∧ w.isNaN = true then .nan
      else if o.underflow = true ∧ w.less (-87.25) = true then .zero false
      else if o.overflow = true ∧ (87.25 : Single).less w = true then .infinity false
      else k.expWith o.unchecked x := by
  have passes : ∀ y : Single, choose x.isNaN x y = if x.isNaN = true then .nan else y := by
    intro y
    cases x <;> rfl
  have checks : k.expWith o x =
      let w := k.expArgument o x
      let plain := k.expWith o.unchecked x
      let capped :=
        if o.overflow then choose ((87.25 : Single).less w) (.infinity false) plain else plain
      let floored := if o.underflow then choose (w.less (-87.25)) (.zero false) capped else capped
      if o.nan then choose x.isNaN x floored else floored := by
    simp only [less_expArgument, expArgument_less]
    rfl
  rw [checks]
  simp only [passes, isNaN_expArgument]
  simp only [choose]
  cases o.nan <;> cases o.underflow <;> cases o.overflow <;> simp

private theorem expWith_of_unmended
    (notAbove : ¬ (o.overflow = true ∧ (87.25 : Single).less (k.expArgument o x) = true))
    (notBelow : ¬ (o.underflow = true ∧ (k.expArgument o x).less (-87.25) = true))
    (number : ¬ (o.nan = true ∧ x.isNaN = true)) : k.expWith o x = k.expWith o.unchecked x := by
  rw [expWith_eq]
  simp only [isNaN_expArgument, if_neg number, if_neg notBelow, if_neg notAbove]

private theorem expWith_between (atLeast : Binary.lessEq (-87.25) (k.expArgument o x) = true)
    (atMost : (k.expArgument o x).lessEq 87.25 = true) :
    k.expWith o x = k.expWith o.unchecked x := by
  have number : (k.expArgument o x).isNaN = false := (Binary.isNaN_eq_false_of_lessEq atLeast).2
  have notAbove : (87.25 : Single).less (k.expArgument o x) = false :=
    Binary.less_eq_false_of_lessEq atMost
  have notBelow : (k.expArgument o x).less (-87.25) = false :=
    Binary.less_eq_false_of_lessEq atLeast
  apply expWith_of_unmended
  · simp [notAbove]
  · simp [notBelow]
  · simp [← isNaN_expArgument k o x, number]

end Mending

/-- Beyond a threshold the exponential overflows or underflows, and of `nan` it is `nan`, if this is
checked and whatever else is. An argument that no enabled check is about has the exponential of the
variant without checks, so between the thresholds the checks make no difference. -/
theorem expWith_mends_ends (k : Lanes) (o : ExpOptions) (x : Single) :
    let w := k.expArgument o x
    (o.overflow = true → (87.25 : Single).less w = true → k.expWith o x = .infinity false) ∧
    (o.underflow = true → w.less (-87.25) = true → k.expWith o x = .zero false) ∧
    (o.nan = true → x.isNaN = true → k.expWith o x = .nan) ∧
    (¬ (o.overflow = true ∧ (87.25 : Single).less w = true) →
      ¬ (o.underflow = true ∧ w.less (-87.25) = true) → ¬ (o.nan = true ∧ x.isNaN = true) →
        k.expWith o x = k.expWith o.unchecked x) ∧
    (Binary.lessEq (-87.25) w = true → w.lessEq 87.25 = true →
      ∀ o' : ExpOptions, o'.negate = o.negate → k.expWith o' x = k.expWith o x) := by
  intro w
  refine ⟨fun enabled above => ?_, fun enabled below => ?_, fun enabled missing => ?_,
    expWith_of_unmended k o x, fun atLeast atMost o' flags => ?_⟩
  · have number : w.isNaN = false := (Binary.isNaN_eq_false_of_less above).2
    have notBelow : ¬ w.less (-87.25) = true := fun below =>
      absurd (Binary.less_trans above below) (by decide)
    rw [expWith_eq]
    simp [w, number, notBelow, enabled, above]
  · have number : w.isNaN = false := (Binary.isNaN_eq_false_of_less below).1
    rw [expWith_eq]
    simp [w, number, enabled, below]
  · rw [expWith_eq]
    simp [isNaN_expArgument, enabled, missing]
  · have argument : k.expArgument o' x = w := by rw [expArgument, flags]; rfl
    have variant : o'.unchecked = o.unchecked := by rw [ExpOptions.unchecked, flags]; rfl
    have between :=
      expWith_between k o' x (by rw [argument]; exact atLeast) (by rw [argument]; exact atMost)
    rw [between, variant, expWith_between k o x atLeast atMost]

theorem expWith_mends_ends_of_four_arguments :
    let o : ExpOptions := .checkedNegated
    let o' : ExpOptions := { o with overflow := false }
    ((87.25 : Single).less (packed.expArgument o (-88)) = true ∧
        packed.expWith o (-88) = .infinity false ∧
        packed.expWith o' (-88) = packed.expWith o'.unchecked (-88)) ∧
      ((packed.expArgument o (.infinity false)).less (-87.25) = true ∧
        packed.expWith o (.infinity false) = .zero false) ∧
      packed.expWith o .nan = .nan ∧
      packed.expArgument o 87.25 = -87.25 ∧ packed.expWith o' 87.25 = packed.expWith o 87.25 := by
  intro o o'
  obtain ⟨overflows, -, -, -, -⟩ := expWith_mends_ends packed o (-88)
  obtain ⟨-, -, -, unmended, -⟩ := expWith_mends_ends packed o' (-88)
  obtain ⟨-, underflows, -, -, -⟩ := expWith_mends_ends packed o (.infinity false)
  obtain ⟨-, -, missing, -, -⟩ := expWith_mends_ends packed o .nan
  obtain ⟨-, -, -, -, between⟩ := expWith_mends_ends packed o 87.25
  have above : (87.25 : Single).less (packed.expArgument o (-88)) = true := by decide
  have below : (packed.expArgument o (.infinity false)).less (-87.25) = true := by decide
  have threshold : packed.expArgument o 87.25 = -87.25 := by decide
  refine ⟨⟨above, overflows rfl above, unmended ?_ ?_ ?_⟩, ⟨below, underflows rfl below⟩,
    missing rfl rfl, threshold, between ?_ ?_ o' rfl⟩
  all_goals decide

end Lanes

end Boosting
