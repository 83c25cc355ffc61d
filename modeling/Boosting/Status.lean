/- Status codes.
   The outcome of a call as foreign callers see it: zero for success and one for failure. -/

set_option autoImplicit false
set_option relaxedAutoImplicit false

namespace Boosting

inductive Status where
  | success
  | failure
deriving DecidableEq

namespace Status

def code : Status → Nat
  | success => 0
  | failure => 1

def isSuccess (s : Status) : Bool :=
  s = success

def text (s : Status) : String :=
  toString s.code

def ofExcept {ε α : Type} : Except ε α → Status
  | .ok _ => success
  | .error _ => failure

end Status

end Boosting
