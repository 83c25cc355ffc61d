/- Two ways to compute on 32-bit numbers.
   Numeric kernels run over most samples in packed registers of eight lanes and over the last few
   one by one. The two ways agree on sums, differences, products, quotients, roots and
   comparisons, lane by lane. They differ where a packed register has no instruction of its own:
   a packed multiply-add rounds twice, a packed negation subtracts from zero, and packed rounding
   goes through 32-bit integers. -/

import Boosting.Binary.Arithmetic

set_option autoImplicit false
set_option relaxedAutoImplicit false

namespace Boosting

inductive Lanes where
  | scalar
  | packed
deriving DecidableEq

namespace Lanes

def width : Lanes → Nat
  | scalar => 1
  | packed => 8

/-- The widest lanes, used for the body of every loop. -/
def widest : Lanes := packed

/-- `x * y + z`: fused on scalars, in two roundings on packed lanes. -/
def fma : Lanes → Single → Single → Single → Single
  | scalar, x, y, z => Binary.fma x y z
  | packed, x, y, z => x * y + z

/-- Negation: a flipped sign on scalars, a difference from zero on packed lanes. -/
def neg : Lanes → Single → Single
  | scalar, x => -x
  | packed, x => Binary.zero false - x

def fnma (k : Lanes) (x y z : Single) : Single :=
  k.fma (k.neg x) y z

/-- Rounding to the nearest integer, ties to even. Packed lanes convert to a 32-bit integer and
back, which drops the sign of a zero, and keep values that have no such integer. -/
def roundEven : Lanes → Single → Single
  | scalar, x => x.roundEven
  | packed, x =>
    match x.nearestInt? with
    | some i => if -0x80000000 < i && i < 0x80000000 then Binary.ofInt i else x
    | none => x

/-- The sum of a register's lanes: a lone number as it is, packed lanes added from negative zero
on. -/
def sum : Lanes → List Single → Single
  | scalar, [x] => x
  | _, xs => xs.foldl (· + ·) (Binary.zero true)

end Lanes

def choose (condition : Bool) (held failed : Single) : Single :=
  if condition then held else failed

end Boosting
