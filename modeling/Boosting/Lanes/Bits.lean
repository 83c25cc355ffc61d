/- Bit patterns of 32-bit numbers.
   A 32-bit number taken apart at its encoding: `Single.mantissa` moves a positive normal number
   into `[1/2, 1)`, `Single.exponent` is its unbiased exponent, and `Single.powerTwo` builds a
   power of two from its exponent. For other arguments the three give what the bit operations
   give. -/

import Boosting.Lanes.Basic

set_option autoImplicit false
set_option relaxedAutoImplicit false

namespace Boosting

namespace Single

def toWord (x : Single) : BitVec 32 :=
  BitVec.ofNat 32 x.toBits

def ofWord (w : BitVec 32) : Single :=
  Binary.ofBits w.toNat

def ofSignedWord (w : BitVec 32) : Single :=
  Binary.ofInt w.toInt

/-- The number with the fraction of `x`, rescaled into `[1/2, 1)`. -/
def mantissa (x : Single) : Single :=
  ofWord ((x.toWord &&& 0x007FFFFF#32) ||| 0x3F000000#32)

def exponent (x : Single) : Single :=
  ofSignedWord (x.toWord.sshiftRight 23 &&& 0xFF#32) - 127

/-- The power of two with the integral exponent `x`. Adding `2 ^ 23 + 127` leaves the biased
exponent in the low fraction bits, and the shift moves it into the exponent field. -/
def powerTwo (x : Single) : Single :=
  ofWord ((x + 8388735).toWord <<< 23)

end Single

namespace Lanes

/-- Left shift of words: scalars take the amount modulo 32, packed lanes shift every bit out from 32
on. -/
def shiftLeft (k : Lanes) (w : BitVec 32) (amount : Int) : BitVec 32 :=
  match k with
  | scalar => w <<< (amount % 32).toNat
  | packed => if 0 ≤ amount && amount < 32 then w <<< amount.toNat else 0#32

/-- Right shift of signed words: scalars have none outside `0, …, 31`, packed lanes fill with the
sign from 31 on. -/
def shiftRight? (k : Lanes) (w : BitVec 32) (amount : Int) : Option (BitVec 32) :=
  if 0 ≤ amount && amount < 32 then
    some (w.sshiftRight amount.toNat)
  else
    match k with
    | scalar => none
    | packed => some (w.sshiftRight 31)

end Lanes

end Boosting
