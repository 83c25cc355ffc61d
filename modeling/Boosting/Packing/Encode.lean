/- Packing bins into words. -/

import Boosting.Packing.Layout
import Boosting.Segments

set_option autoImplicit false
set_option relaxedAutoImplicit false

namespace Boosting

namespace Packing

/-- The word with these items in its low fields, the first one highest. A shift by all 64 bits
leaves nothing of the word. -/
def packWord (bits : Nat) (items : List Nat) : Word :=
  items.foldl (fun word bin => word <<< bits ||| BitVec.ofNat 64 bin) 0#64

def packFields (items : Nat) (bins : List Nat) : List Word :=
  if bins.isEmpty then
    []
  else
    let first := firstCount bins.length items
    let bits := fieldBits items
    packWord bits (bins.take first) :: (segments items (bins.drop first)).map (packWord bits)

def pack (bins : List Nat) (items : Nat) : Except Error (List Word) :=
  if validItems items then
    let bits := fieldBits items
    match bins.find? (fun bin => (lowMask bits).toNat < bin) with
    | some bin => .error (.binTooWide bin bits)
    | none => .ok (packFields items bins)
  else
    .error (.invalidItems items)

end Packing

end Boosting
