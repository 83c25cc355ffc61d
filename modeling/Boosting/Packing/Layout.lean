/- The layout of packed bins.
   Bins are packed into 64-bit words, a fixed number of items to a word, each in a field of `64 /
   items` bits. The first sample of a word sits in its highest used field. Only the first word
   may be partial, so it holds `(n - 1) % items + 1` of `n` samples and every later word is full. -/

set_option autoImplicit false
set_option relaxedAutoImplicit false

namespace Boosting

abbrev Word := BitVec 64

namespace Packing

def wordBits : Nat := 64

def fieldBits (items : Nat) : Nat :=
  wordBits / items

def lowMask (bits : Nat) : Word :=
  BitVec.allOnes 64 >>> (wordBits - bits)

def bitsForBins (bins : Nat) : Nat :=
  if bins ≤ 1 then 1 else (bins - 1).log2 + 1

/-- The most items to a word whose fields hold every index below `bins`. -/
def itemsForBins (bins : Nat) : Nat :=
  wordBits / min (bitsForBins bins) wordBits

def wordCount (samples items : Nat) : Nat :=
  (samples + (items - 1)) / items

def firstCount (samples items : Nat) : Nat :=
  (samples - 1) % items + 1

def fieldBits? (items : Nat) : Option Nat :=
  if items = 0 then none else some (fieldBits items)

def lowMask? (bits : Nat) : Option Word :=
  if 1 ≤ bits && bits ≤ wordBits then some (lowMask bits) else none

def wordCount? (samples items : Nat) : Option Nat :=
  if items = 0 then none else some (wordCount samples items)

inductive Error where
  | invalidItems (items : Nat)
  | binTooWide (bin bits : Nat)
deriving DecidableEq

def Error.message : Error → String
  | invalidItems items => s!"items per pack must be in 1..=64, got {items}"
  | binTooWide bin bits => s!"bin {bin} does not fit in {bits} bits"

def validItems (items : Nat) : Bool :=
  1 ≤ items && items ≤ wordBits

end Packing

end Boosting
