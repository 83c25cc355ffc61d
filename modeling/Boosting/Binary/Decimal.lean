/- Decimal numbers read and written.
   `Binary.ofDecimal` rounds a decimal number once. `Binary.shortest` finds the fewest decimal
   digits that read back as the same value, and among those the nearest: it tries coarser decimal
   grids before finer ones, and on each grid the two neighbours of the value. `Binary.text`
   writes these digits positionally. -/

import Boosting.Binary.Rounding

set_option autoImplicit false
set_option relaxedAutoImplicit false

namespace Boosting

structure Decimal where
  digits : Nat
  exponent : Int
deriving DecidableEq

namespace Decimal

def digitChars (n : Nat) : List Char :=
  Nat.toDigits 10 n

/-- Positional notation: no exponent, no fraction part on an integer, one zero before a leading
point. -/
def positional (d : Decimal) : List Char :=
  let chars := digitChars d.digits
  match d.exponent with
  | .ofNat up => if d.digits = 0 then ['0'] else chars ++ List.replicate up '0'
  | .negSucc down =>
    let places := down + 1
    let padded := List.replicate (places + 1 - chars.length) '0' ++ chars
    padded.take (padded.length - places) ++ '.' :: padded.drop (padded.length - places)

end Decimal

namespace Binary

variable {f : Format}

/-- The value nearest to `± digits · 10 ^ exponent`. Beyond `2 ^ f.exponent` decimal orders the
result is infinity or zero whatever the digits are. -/
def ofDecimal (negative : Bool) (d : Decimal) : Binary f :=
  let order := d.exponent + (Decimal.digitChars d.digits).length
  if d.digits = 0 || order < -twoPow f.exponent then
    zero negative
  else if order > twoPow f.exponent then
    infinity negative
  else
    match d.exponent with
    | .ofNat up => ofDyadic negative (d.digits * tenPow up) 0
    | .negSucc down => ofQuotient negative d.digits (tenPow (down + 1)) 0

instance : OfScientific (Binary f) :=
  ⟨fun digits down exponent =>
    ofDecimal false ⟨digits, if down then -(exponent : Int) else (exponent : Int)⟩⟩

/-- The exact value of a positive number and the ends of the interval that rounds to it, over the
common unit `2 ^ (place - 2)`. -/
structure Interval where
  low : Nat
  value : Nat
  high : Nat
  /-- Whether the ends round to the number too. -/
  closed : Bool

/-- The rounding interval of the magnitude code `code`. Below the least number of a binade the
spacing is half as wide, except at the bottom of the format. -/
def interval (f : Format) (code : Nat) : Interval :=
  let m := significand f code
  let narrow := m = f.binade && code ≥ 2 * f.binade
  { low := if narrow then 4 * m - 1 else 4 * m - 2
    value := 4 * m
    high := 4 * m + 2
    closed := m % 2 = 0 }

/-- The two sides of the comparison of `n · 2 ^ place` with multiples of `10 ^ exponent`: the factor
on `n` and the factor on the multiple. -/
def gridFactors (place exponent : Int) : Nat × Nat :=
  (twoPow place.toNat * tenPow (-exponent).toNat, twoPow (-place).toNat * tenPow exponent.toNat)

/-- The multiple of `10 ^ exponent` that reads back and is nearest to the value, if one reads back;
of two equally near ones the upper. -/
def onGrid (i : Interval) (place exponent : Int) : Option Nat :=
  let (scale, unit) := gridFactors place exponent
  let below := i.value * scale / unit
  let inside (k : Nat) : Bool :=
    if i.closed then
      i.low * scale ≤ k * unit && k * unit ≤ i.high * scale
    else
      i.low * scale < k * unit && k * unit < i.high * scale
  let belowGap := i.value * scale - below * unit
  let aboveGap := (below + 1) * unit - i.value * scale
  match decide (0 < below) && inside below, inside (below + 1) with
  | true, true => some (if belowGap < aboveGap then below else below + 1)
  | true, false => some below
  | false, true => some (below + 1)
  | false, false => none

def firstOnGrid (i : Interval) (place : Int) : Nat → Int → Decimal
  | 0, exponent => ⟨i.value, exponent⟩
  | grids + 1, exponent =>
    match onGrid i place exponent with
    | some digits => ⟨digits, exponent⟩
    | none => firstOnGrid i place grids (exponent - 1)

/-- The shortest decimal number that reads back as the positive number with this magnitude code. The
first grid lies above the value; as many grids follow as the format has fraction bits, which is more
than the digits that tell its numbers apart. -/
def shortest (f : Format) (code : Nat) : Decimal :=
  let e := place f code
  let top := (significand f code).log2 + e
  firstOnGrid (interval f code) (e - 2) (f.fraction + 4) (top * 30103 / 100000 + 2)

/-- The positional text of a value in the fewest digits that read back. -/
def text : Binary f → String
  | nan => "NaN"
  | signed negative magnitude =>
    let sign := if negative then ['-'] else []
    let body :=
      if magnitude.val = f.infinityCode then ['i', 'n', 'f']
      else if magnitude.val = 0 then ['0']
      else (shortest f magnitude.val).positional
    String.ofList (sign ++ body)

end Binary

end Boosting
