/- Sessions.
   A session runs calls one after another in one process with a fresh journal. A call without a
   result has ended the process, so no call after it runs. -/

import Boosting.Journal

set_option autoImplicit false
set_option relaxedAutoImplicit false

namespace Boosting

structure Entry (α : Type) where
  lines : List Line
  result : Option α

structure Session (α : Type) where
  entries : List (Entry α)
  aborted : Bool

namespace Session

variable {α : Type}

def runFrom (j : Journal) : List (Noted (Option α)) → Session α
  | [] => ⟨[], false⟩
  | call :: calls =>
    let (lines, next) := j.record call.notices
    match call.result with
    | none => ⟨[⟨lines, none⟩], true⟩
    | some a =>
      let rest := runFrom next calls
      ⟨⟨lines, some a⟩ :: rest.entries, rest.aborted⟩

def run (calls : List (Noted (Option α))) : Session α :=
  runFrom .fresh calls

end Session

end Boosting
