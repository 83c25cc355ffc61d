/- Arithmetic on binary interchange numbers.
   Each operation computes its exact result on significands and places, and rounds once. The
   fused `Binary.fma` rounds product and sum together. An exact zero sum is negative only if both
   terms are. -/

import Boosting.Binary.Rounding

set_option autoImplicit false
set_option relaxedAutoImplicit false

namespace Boosting

/-- The floor of the square root of `n`, for `n` below `4 ^ digits`: the binary digits of the root
one after another, from the highest. -/
def floorSqrt : Nat → Nat → Nat
  | 0, _ => 0
  | digits + 1, n =>
    let root := 2 * floorSqrt digits (n / 4)
    if (root + 1) * (root + 1) ≤ n then root + 1 else root

namespace Binary

variable {f : Format}

def signedShift (negative : Bool) (m : Nat) (up : Int) : Int :=
  if negative then -((m <<< up.toNat : Nat) : Int) else ((m <<< up.toNat : Nat) : Int)

/-- The rounded sum of `± m · 2 ^ e` and `± n · 2 ^ g`. -/
def roundedSum (s : Bool) (m : Nat) (e : Int) (t : Bool) (n : Nat) (g : Int) : Binary f :=
  let low := min e g
  let total := signedShift s m (e - low) + signedShift t n (g - low)
  if total = 0 then
    zero (s && t)
  else
    ofDyadic (total < 0) total.natAbs low

def add (x y : Binary f) : Binary f :=
  match x.reading, y.reading with
  | .nan, _ => nan
  | _, .nan => nan
  | .infinite s, .infinite t => if s = t then infinity s else nan
  | .infinite s, .finite _ _ _ => infinity s
  | .finite _ _ _, .infinite t => infinity t
  | .finite s m e, .finite t n g => roundedSum s m e t n g

def sub (x y : Binary f) : Binary f :=
  x.add y.flip

def mul (x y : Binary f) : Binary f :=
  match x.reading, y.reading with
  | .nan, _ => nan
  | _, .nan => nan
  | .infinite s, .infinite t => infinity (s ^^ t)
  | .infinite s, .finite t n _ => if n = 0 then nan else infinity (s ^^ t)
  | .finite s m _, .infinite t => if m = 0 then nan else infinity (s ^^ t)
  | .finite s m e, .finite t n g => ofDyadic (s ^^ t) (m * n) (e + g)

def div (x y : Binary f) : Binary f :=
  match x.reading, y.reading with
  | .nan, _ => nan
  | _, .nan => nan
  | .infinite _, .infinite _ => nan
  | .infinite s, .finite t _ _ => infinity (s ^^ t)
  | .finite s _ _, .infinite t => zero (s ^^ t)
  | .finite s m e, .finite t n g =>
    if n = 0 then
      if m = 0 then nan else infinity (s ^^ t)
    else
      ofQuotient (s ^^ t) m n (e - g)

/-- The sum of `z` and the product of `x` and `y`, rounded once. -/
def fma (x y z : Binary f) : Binary f :=
  match x.reading, y.reading, z.reading with
  | .finite s m e, .finite t n g, .finite u k h => roundedSum (s ^^ t) (m * n) (e + g) u k h
  | .finite _ _ _, .finite _ _ _, .infinite u => infinity u
  | _, _, _ => (x.mul y).add z

/-- The square root. It is taken of an integer with more than twice the bits of the result and an
even place, and its last bit is set if the root is not exact. -/
def sqrt (x : Binary f) : Binary f :=
  match x.reading with
  | .nan => nan
  | .infinite negative => if negative then nan else infinity false
  | .finite negative m e =>
    if m = 0 then
      zero negative
    else if negative then
      nan
    else
      let spare := 2 * (f.fraction + 3) + (e % 2).toNat
      let scaled := m <<< spare
      let root := floorSqrt (scaled.log2 / 2 + 1) scaled
      let exact := root * root == scaled
      ofDyadic false (2 * root + if exact then 0 else 1) ((e - spare) / 2 - 1)

/-- The nearest integer as a number of the format, a tie going to the even one; zeros keep the sign
of the argument. -/
def roundEven (x : Binary f) : Binary f :=
  match x.reading with
  | .nan => nan
  | .infinite negative => infinity negative
  | .finite negative m e => ofDyadic negative (nearestEven m (-e)) 0

instance : Add (Binary f) :=
  ⟨add⟩

instance : Sub (Binary f) :=
  ⟨sub⟩

instance : Mul (Binary f) :=
  ⟨mul⟩

instance : Div (Binary f) :=
  ⟨div⟩

end Binary

end Boosting
