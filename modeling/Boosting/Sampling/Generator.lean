/- A seeded random generator.
   Four 64-bit words of state, filled from a seed, and a step that mixes them and gives a word.
   Draws from ranges are functions of the words; a draw that may reject words tries a bounded
   number of them. -/

import Boosting.Binary.Arithmetic

set_option autoImplicit false
set_option relaxedAutoImplicit false

namespace Boosting

namespace Sampling

structure Generator where
  s0 : BitVec 64
  s1 : BitVec 64
  s2 : BitVec 64
  s3 : BitVec 64
deriving DecidableEq

def mixSeed (z : BitVec 64) : BitVec 64 :=
  let a := (z ^^^ z >>> 30) * 0xbf58476d1ce4e5b9#64
  let b := (a ^^^ a >>> 27) * 0x94d049bb133111eb#64
  b ^^^ b >>> 31

namespace Generator

def ofSeed (seed : Nat) : Generator :=
  let word (i : Nat) : BitVec 64 := mixSeed (BitVec.ofNat 64 (seed + i * 0x9e3779b97f4a7c15))
  ⟨word 1, word 2, word 3, word 4⟩

def next (g : Generator) : BitVec 64 × Generator :=
  let s2 := g.s2 ^^^ g.s0
  let s3 := g.s3 ^^^ g.s1
  ((g.s0 + g.s3).rotateLeft 23 + g.s0,
    { s0 := g.s0 ^^^ s3
      s1 := g.s1 ^^^ s2
      s2 := s2 ^^^ g.s1 <<< 17
      s3 := s3.rotateLeft 45 })

end Generator

/-- A draw from the generator; it may fail on arguments that describe no distribution. -/
abbrev Draw (α : Type) := StateT Generator Option α

def word : Draw (BitVec 64) := fun g =>
  some g.next

def refuse {α : Type} : Draw α := fun _ =>
  none

def attempts : Nat := 1000

def fractionOfWord (w : BitVec 64) : Double :=
  .ofDyadic false (w.toNat >>> 12) (-52)

def fraction : Draw Double := do
  return fractionOfWord (← word)

/-- A number from `low` to below `high`, drawn again if it rounds up to `high`, at most `tries`
times. -/
def belowWithin (low high : Double) : Nat → Draw Double
  | 0 => return low
  | tries + 1 => do
    let r := (← fraction) * (high - low) + low
    if r.less high then return r else belowWithin low high tries

def below (low high : Double) : Draw Double :=
  belowWithin low high attempts

def topFraction : Double :=
  1 - .ofDyadic false 1 (-52)

/-- The largest of the scales from `scale` down that keeps the top of the range at or below
`high`. -/
def fitScale (low high : Double) : Nat → Double → Double
  | 0, scale => scale
  | tries + 1, scale =>
    if high.less (scale * topFraction + low) then fitScale low high tries scale.previous else scale

def between (low high : Double) : Draw Double := do
  let widest := (high - low) / topFraction
  if low.lessEq high && widest.isFinite then
    return (← fraction) * fitScale low high attempts widest + low
  else
    refuse

def integerPart (x : Double) : Nat :=
  match x.reading with
  | .finite _ m (.ofNat up) => m <<< up
  | .finite _ m (.negSucc down) => m >>> (down + 1)
  | _ => 0

def chance (p : Double) : Draw Bool := do
  if p.equal 1 then
    return true
  else if (Binary.zero false).lessEq p && p.less 1 then
    return (← word).toNat < integerPart (p * .ofDyadic false 1 64)
  else
    refuse

/-- The last low half of a product with `n` that is accepted: beyond it the indices would not be
equally likely. -/
def acceptedRest (n : Nat) : Nat :=
  n <<< (63 - n.log2) - 1

/-- The high half of the product of a word and `n`, drawn again if the low half is not accepted, at
most `tries` times. -/
def indexWithin (n : Nat) : Nat → Draw Nat
  | 0 => return 0
  | tries + 1 => do
    let product := (← word).toNat * n
    if product % 0x10000000000000000 ≤ acceptedRest n then
      return product >>> 64
    else
      indexWithin n tries

def index (n : Nat) : Draw Nat :=
  indexWithin n attempts

end Sampling

end Boosting
