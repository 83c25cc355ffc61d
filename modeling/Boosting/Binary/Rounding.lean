/- Rounding to nearest, ties to even.
   Every result of arithmetic is an exact value that is rounded once. An exact value comes as `m
   · 2 ^ e` (`Binary.ofDyadic`) or as a quotient `num / den · 2 ^ e` (`Binary.ofQuotient`), which
   is first cut to a dyadic value with a last bit that records whether anything was cut off. -/

import Boosting.Binary.Format

set_option autoImplicit false
set_option relaxedAutoImplicit false

namespace Boosting

/-- The integer nearest to `m / 2 ^ drop`, a tie going to the even one; a negative `drop`
multiplies. -/
def nearestEven (m : Nat) (drop : Int) : Nat :=
  match drop with
  | .ofNat 0 => m
  | .ofNat (d + 1) =>
    let kept := m >>> (d + 1)
    let rest := m % twoPow (d + 1)
    if rest > twoPow d || (rest == twoPow d && kept % 2 == 1) then kept + 1 else kept
  | .negSucc d => m <<< (d + 1)

namespace Binary

/-- The magnitude code nearest to `m · 2 ^ e`; it may exceed the code of infinity. A significand
that rounds up to the next power of two carries into the exponent field by itself. -/
def nearestCode (f : Format) (m : Nat) (e : Int) : Nat :=
  if m = 0 then
    0
  else
    let last := max ((m.log2 : Int) + e - f.fraction) f.lowestPlace
    (last - f.lowestPlace).toNat * f.binade + nearestEven m (last - e)

def ofDyadic {f : Format} (negative : Bool) (m : Nat) (e : Int) : Binary f :=
  ofCode negative (nearestCode f m e)

/-- The value nearest to `± num / den · 2 ^ e`, for a positive `den`. The quotient is taken with
more bits than the format holds, and its last bit is set if the division leaves a remainder. -/
def ofQuotient {f : Format} (negative : Bool) (num den : Nat) (e : Int) : Binary f :=
  let spare := f.fraction + 3 + den.log2 - num.log2
  let scaled := num <<< spare
  let exact := scaled % den == 0
  ofDyadic negative (2 * (scaled / den) + if exact then 0 else 1) (e - spare - 1)

def ofInt {f : Format} (i : Int) : Binary f :=
  ofDyadic (i < 0) i.natAbs 0

def ofNat {f : Format} (n : Nat) : Binary f :=
  ofDyadic false n 0

instance {f : Format} (n : Nat) : OfNat (Binary f) n :=
  ⟨ofNat n⟩

def convert {f g : Format} (x : Binary f) : Binary g :=
  match x.reading with
  | .nan => nan
  | .infinite negative => infinity negative
  | .finite negative m e => ofDyadic negative m e

/-- The integer nearest to a finite number, a tie going to the even one. -/
def nearestInt? {f : Format} (x : Binary f) : Option Int :=
  match x.reading with
  | .finite negative m e =>
    let magnitude : Int := nearestEven m (-e)
    some (if negative then -magnitude else magnitude)
  | _ => none

end Binary

end Boosting
