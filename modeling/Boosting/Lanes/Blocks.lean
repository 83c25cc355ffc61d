/- Lane functions over buffers.
   A function on lanes is applied to a buffer in blocks of the widest lanes, and to the samples
   that fill no block one by one. Only the positions that both buffers have are written. -/

import Boosting.Lanes.Logarithm
import Boosting.Segments

set_option autoImplicit false
set_option relaxedAutoImplicit false

namespace Boosting

namespace Lanes

/-- Writes the scalar function of each source value over the destination, as far as both reach. -/
def fillScalar (fn : Lanes → Single → Single) : List Single → List Single → List Single
  | x :: src, _ :: dst => fn scalar x :: fillScalar fn src dst
  | _, dst => dst

def fillBlocks (fn : Lanes → Single → Single) : Nat → List Single → List Single → List Single
  | 0, src, dst => fillScalar fn src dst
  | blocks + 1, src, dst =>
    (src.take widest.width).map (fn widest) ++
      fillBlocks fn blocks (src.drop widest.width) (dst.drop widest.width)

def fill (fn : Lanes → Single → Single) (src dst : List Single) : List Single :=
  fillBlocks fn (min src.length dst.length / widest.width) src dst

def fillExp (src dst : List Single) : List Single :=
  fill exp src dst

def fillLog (src dst : List Single) : List Single :=
  fill log src dst

def load? (k : Lanes) (src : List Single) : Option (List Single) :=
  if src.length < k.width then none else some (src.take k.width)

def store? (k : Lanes) (register dst : List Single) : Option (List Single) :=
  if dst.length < k.width then none else some (register ++ dst.drop k.width)

def registers (k : Lanes) (xs : List Single) : List (List Single) :=
  segments k.width xs

end Lanes

end Boosting
