/- JSON values.
   Values keep the members of an object in the order of the text, repeated keys included. A
   number without fraction and exponent is an integer if it fits in 64 bits, and any other number
   is rounded to 64-bit floating point. -/

import Boosting.Binary.Decimal

set_option autoImplicit false
set_option relaxedAutoImplicit false

namespace Boosting

namespace Json

inductive Number where
  /-- An integer from zero to `2 ^ 64 - 1`. -/
  | natural (n : Nat)
  /-- The integer `-n`, from `-2 ^ 63` to minus one. -/
  | negative (n : Nat)
  /-- Any other number. -/
  | real (x : Double)
deriving DecidableEq

namespace Number

/-- The number that an integer literal denotes; a negative zero is not an integer. -/
def ofInteger (negated : Bool) (n : Nat) : Number :=
  if negated then
    if n = 0 || n > 0x8000000000000000 then real (.ofDyadic true n 0) else negative n
  else if n < 0x10000000000000000 then
    natural n
  else
    real (.ofDyadic false n 0)

def toDouble : Number → Double
  | natural n => .ofDyadic false n 0
  | negative n => .ofDyadic true n 0
  | real x => x

def isFinite (n : Number) : Bool :=
  n.toDouble.isFinite

end Number

inductive Value where
  | null
  | boolean (b : Bool)
  | number (n : Number)
  | string (s : String)
  | array (items : List Value)
  | object (members : List (String × Value))

end Json

end Boosting
