/- The negated variants.
   The exponential of the negated argument never negates what it compares, and the negated
   logarithm negates its results one by one: the polynomial's as the lanes do, the infinities by
   their sign, and the argument where it passes through. Both are the plain variant with a
   negation before it or after it, on any lanes and whichever arguments are mended. -/

import Boosting.Proofs.Lanes.Exponential
import Boosting.Proofs.Lanes.Logarithm

set_option autoImplicit false
set_option relaxedAutoImplicit false

namespace Boosting

def ExpOptions.withNegate (o : ExpOptions) (negate : Bool) : ExpOptions :=
  { o with negate := negate }

def LogOptions.withNegateOutput (o : LogOptions) (negateOutput : Bool) : LogOptions :=
  { o with negateOutput := negateOutput }

namespace Lanes

variable (k : Lanes)

private theorem neg_infinite (negative : Bool) :
    k.neg (.infinity negative) = .infinity (!negative) := by
  cases negative with
  | false => exact neg_infinity k
  | true => exact neg_of_nonzero k rfl

private theorem expWith_unchecked (o : ExpOptions) (x : Single) :
    k.expWith o.unchecked x = Exponential.core k (k.expArgument o x) := by
  simp only [expWith, ExpOptions.unchecked, Bool.false_eq_true, if_false]
  rfl

private theorem expWith_withNegate (o : ExpOptions) (x : Single) :
    k.expWith (o.withNegate true) x = k.expWith (o.withNegate false) (k.neg x) := by
  have argument :
      k.expArgument (o.withNegate true) x = k.expArgument (o.withNegate false) (k.neg x) :=
    rfl
  rw [expWith_eq k (o.withNegate true) x, expWith_eq k (o.withNegate false) (k.neg x),
    expWith_unchecked, expWith_unchecked, argument]
  rfl

private theorem logWith_unended_withNegateOutput (o : LogOptions) (x : Single) :
    k.logWith (o.withNegateOutput true).unended x =
      k.neg (k.logWith (o.withNegateOutput false).unended x) := by
  have plain : k.logWith (o.withNegateOutput true).unchecked x =
      k.neg (k.logWith (o.withNegateOutput false).unchecked x) := rfl
  rw [logWith_starts, logWith_starts, plain, apply_ite k.neg, apply_ite k.neg, neg_nan,
    neg_infinite]
  rfl

private theorem logWith_withNegateOutput (o : LogOptions) (x : Single) :
    k.logWith (o.withNegateOutput true) x = k.neg (k.logWith (o.withNegateOutput false) x) := by
  rw [logWith_ends k (o.withNegateOutput true) x, logWith_ends k (o.withNegateOutput false) x,
    logWith_unended_withNegateOutput, apply_ite k.neg, apply_ite k.neg, neg_nan, neg_infinite]
  rfl

/-- The exponential of the negated argument is the exponential at the lanes' own negation of it, and
the negated logarithm is the lanes' own negation of the logarithm, for every argument and with the
same arguments mended. -/
theorem negated_variants_agree (e : ExpOptions) (l : LogOptions) (x : Single) :
    k.expWith (e.withNegate true) x = k.expWith (e.withNegate false) (k.neg x) ∧
    k.logWith (l.withNegateOutput true) x = k.neg (k.logWith (l.withNegateOutput false) x) :=
  ⟨expWith_withNegate k e x, logWith_withNegateOutput k l x⟩

end Lanes

end Boosting
