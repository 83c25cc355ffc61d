/- The journal.
   Entry points that run once per training round announce themselves, and every failed call is
   reported. An announcement of each kind is made at `INFO` level for its first twenty-five times
   and at `TRACE` level afterwards, so that long runs do not flood the journal; failures are
   always at `ERROR` level. Entry points only list their notices. Levels depend on the history
   and are given out by a `Journal`, which holds what is left of each budget. -/

import Boosting.Status

set_option autoImplicit false
set_option relaxedAutoImplicit false

namespace Boosting

inductive Level where
  | error
  | info
  | trace
deriving DecidableEq

def Level.text : Level → String
  | error => "ERROR"
  | info => "INFO"
  | trace => "TRACE"

inductive Notice where
  | rawEntered (samples cuts : Int)
  | rawExited (status : Status)
  | updateEntered (objective : String) (samples : Nat)
  | updateExited (objective : String)
  | failure (reason : String)
deriving DecidableEq

/-- The announcements that have a budget of their own. -/
inductive Announcement where
  | rawEntered
  | rawExited
  | updateEntered
  | updateExited
deriving DecidableEq

namespace Notice

def text : Notice → String
  | rawEntered samples cuts =>
    s!"Entered discretize_raw: count_samples={samples}, count_cuts={cuts}"
  | rawExited status => s!"Exited discretize_raw: status={status.text}"
  | updateEntered objective samples =>
    s!"Entered apply_update: objective={objective}, samples={samples}"
  | updateExited objective => s!"Exited apply_update: objective={objective}"
  | failure reason => reason

def announcement? : Notice → Option Announcement
  | rawEntered _ _ => some .rawEntered
  | rawExited _ => some .rawExited
  | updateEntered _ _ => some .updateEntered
  | updateExited _ => some .updateExited
  | failure _ => none

end Notice

/-- What is left of the budgets of announcements at `INFO` level. -/
structure Journal where
  left : Announcement → Nat

namespace Journal

def budget : Nat := 25

def fresh : Journal :=
  ⟨fun _ => budget⟩

/-- The journal after one announcement of a kind: an exhausted budget stays exhausted. -/
def spend (j : Journal) (kind : Announcement) : Journal :=
  ⟨fun other => if other = kind then j.left other - 1 else j.left other⟩

def level (j : Journal) (n : Notice) : Level :=
  match n.announcement? with
  | none => .error
  | some kind => if 0 < j.left kind then .info else .trace

def after (j : Journal) (n : Notice) : Journal :=
  match n.announcement? with
  | none => j
  | some kind => j.spend kind

end Journal

structure Line where
  level : Level
  notice : Notice
deriving DecidableEq

namespace Journal

/-- The lines that a list of notices makes, and the journal after them. -/
def record (j : Journal) : List Notice → List Line × Journal
  | [] => ([], j)
  | n :: rest =>
    let (lines, last) := (j.after n).record rest
    (⟨j.level n, n⟩ :: lines, last)

end Journal

/-- A result with the notices made on the way to it. -/
structure Noted (α : Type) where
  notices : List Notice
  result : α

namespace Noted

variable {α β : Type}

def quiet (a : α) : Noted α :=
  ⟨[], a⟩

def map (fn : α → β) (a : Noted α) : Noted β :=
  ⟨a.notices, fn a.result⟩

def bind (a : Noted α) (fn : α → Noted β) : Noted β :=
  let b := fn a.result
  ⟨a.notices ++ b.notices, b.result⟩

def failures (a : Noted α) : List String :=
  a.notices.filterMap fun
    | .failure reason => some reason
    | _ => none

end Noted

end Boosting
