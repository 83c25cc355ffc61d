/- Integer types of bin cells.
   Bins are stored as integers of eight types. A cell is an `Int`; `BinType.wrap` says which
   integer a type keeps of any integer. A type has room for the bins of `n` cuts if `n < max`,
   because bin `n + 1` must be one of its values. -/

set_option autoImplicit false
set_option relaxedAutoImplicit false

namespace Boosting

inductive Width where
  | w8
  | w16
  | w32
  | w64
deriving DecidableEq

namespace Width

def count : Width → Nat
  | w8 => 0x100
  | w16 => 0x10000
  | w32 => 0x100000000
  | w64 => 0x10000000000000000

def bytes : Width → Nat
  | w8 => 1
  | w16 => 2
  | w32 => 4
  | w64 => 8

end Width

inductive BinType where
  | unsigned (width : Width)
  | signed (width : Width)
deriving DecidableEq

namespace BinType

def bytes : BinType → Nat
  | unsigned w => w.bytes
  | signed w => w.bytes

def max : BinType → Nat
  | unsigned w => w.count - 1
  | signed w => w.count / 2 - 1

/-- The value of the type that has the same low bits as `i`. -/
def wrap : BinType → Int → Int
  | unsigned w, i => i % w.count
  | signed w, i => i.bmod w.count

def ofBin (t : BinType) (bin : Nat) : Int :=
  t.wrap bin

end BinType

/-- The bin that a cell stores; a negative cell is sign-extended to 64 bits. -/
def binOfCell (cell : Int) : Nat :=
  (cell % Width.w64.count).toNat

end Boosting
