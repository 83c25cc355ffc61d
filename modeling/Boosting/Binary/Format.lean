/- Binary interchange numbers.
   A number of a binary interchange format is a sign and a *magnitude code*: the encoding without
   its sign bit, read as a natural number. Codes grow with the magnitude, the code of infinity is
   the largest, and the neighbour of a number in its format is the neighbouring code. All
   encodings that are no number are one value, `nan`. The order on numbers is the order of their
   signed codes (`Binary.rank`), so comparisons need no case analysis on zeros, subnormals or
   infinities; `nan` has no rank and every comparison with it fails. -/

import Boosting.Power

set_option autoImplicit false
set_option relaxedAutoImplicit false

namespace Boosting

/-- A binary interchange format, given by the widths of its fraction and exponent fields. -/
structure Format where
  fraction : Nat
  exponent : Nat
deriving DecidableEq

namespace Format

@[inline] def single : Format := ⟨23, 8⟩

@[inline] def double : Format := ⟨52, 11⟩

/-- How many magnitude codes there are between two powers of two. -/
def binade (f : Format) : Nat :=
  twoPow f.fraction

def signBit (f : Format) : Nat :=
  twoPow (f.fraction + f.exponent)

/-- The magnitude code of infinity: all ones in the exponent field, zeros in the fraction. -/
def infinityCode (f : Format) : Nat :=
  (twoPow f.exponent - 1) * f.binade

/-- The binary place of the least subnormal, which is two to this power. -/
def lowestPlace (f : Format) : Int :=
  2 - twoPow (f.exponent - 1) - f.fraction

end Format

inductive Binary (f : Format) where
  /-- The value of every invalid operation. -/
  | nan
  /-- A finite or infinite number by its sign and magnitude code. -/
  | signed (negative : Bool) (magnitude : Fin (f.infinityCode + 1))
deriving DecidableEq

abbrev Single := Binary .single

abbrev Double := Binary .double

namespace Binary

variable {f : Format}

/-- The number with a given sign and magnitude code; a code past infinity is infinity. -/
def ofCode (negative : Bool) (code : Nat) : Binary f :=
  signed negative ⟨min code f.infinityCode, by omega⟩

def zero (negative : Bool) : Binary f :=
  ofCode negative 0

def infinity (negative : Bool) : Binary f :=
  ofCode negative f.infinityCode

def leastNormal : Binary f :=
  ofCode false f.binade

instance : Inhabited (Binary f) :=
  ⟨zero false⟩

def ofBits (bits : Nat) : Binary f :=
  let code := bits % f.signBit
  if code ≤ f.infinityCode then
    ofCode (bits / f.signBit % 2 == 1) code
  else
    nan

/-- The encoding of a value; `nan` has the quiet encoding with an empty payload. -/
def toBits : Binary f → Nat
  | nan => f.infinityCode + f.binade / 2
  | signed negative magnitude =>
    if negative then f.signBit + magnitude.val else magnitude.val

def isNaN : Binary f → Bool
  | nan => true
  | signed _ _ => false

def isInfinite : Binary f → Bool
  | nan => false
  | signed _ magnitude => magnitude.val == f.infinityCode

def isFinite : Binary f → Bool
  | nan => false
  | signed _ magnitude => magnitude.val < f.infinityCode

def isZero : Binary f → Bool
  | nan => false
  | signed _ magnitude => magnitude.val == 0

/-- The integer significand of a magnitude code, in units of `2 ^ place`. -/
def significand (f : Format) (code : Nat) : Nat :=
  if code < f.binade then code else f.binade + code % f.binade

/-- The binary place of the last bit of a magnitude code; subnormals share the place of the least
normal numbers. -/
def place (f : Format) (code : Nat) : Int :=
  f.lowestPlace + ((code / f.binade - 1 : Nat) : Int)

/-- How arithmetic sees a value: a finite one is `± significand · 2 ^ place`. -/
inductive Reading where
  | nan
  | infinite (negative : Bool)
  | finite (negative : Bool) (significand : Nat) (place : Int)
deriving DecidableEq

def reading : Binary f → Reading
  | nan => .nan
  | signed negative magnitude =>
    if magnitude.val = f.infinityCode then
      .infinite negative
    else
      .finite negative (significand f magnitude.val) (place f magnitude.val)

/-- The signed magnitude code, which orders all numbers and identifies the two zeros. -/
def rank : Binary f → Option Int
  | nan => none
  | signed negative magnitude =>
    some (if negative then -(magnitude.val : Int) else (magnitude.val : Int))

def less (x y : Binary f) : Bool :=
  match x.rank, y.rank with
  | some a, some b => a < b
  | _, _ => false

def lessEq (x y : Binary f) : Bool :=
  match x.rank, y.rank with
  | some a, some b => a ≤ b
  | _, _ => false

def equal (x y : Binary f) : Bool :=
  match x.rank, y.rank with
  | some a, some b => a = b
  | _, _ => false

/-- The next number toward negative infinity; `nan` and negative infinity stay. -/
def previous : Binary f → Binary f
  | nan => nan
  | signed true magnitude => ofCode true (magnitude.val + 1)
  | signed false magnitude =>
    if magnitude.val = 0 then ofCode true 1 else ofCode false (magnitude.val - 1)

def flip : Binary f → Binary f
  | nan => nan
  | signed negative magnitude => signed (!negative) magnitude

def abs : Binary f → Binary f
  | nan => nan
  | signed _ magnitude => signed false magnitude

instance : Neg (Binary f) :=
  ⟨flip⟩

end Binary

end Boosting
