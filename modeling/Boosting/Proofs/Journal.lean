/- Levels in the journal.
   Budgets decide between two levels of announcements only. So the lines at `ERROR` level are the
   reported failures, one line each, whatever happened before. Among the lines of one kind of
   announcement, the level of a line depends on its place alone: announcements of other kinds and
   failures take nothing from the budget. -/

import Boosting.Journal

set_option autoImplicit false
set_option relaxedAutoImplicit false

namespace Boosting

namespace Journal

def errorLines (j : Journal) (notices : List Notice) : List Line :=
  (j.record notices).1.filter fun line => line.level = .error

private theorem record_cons (j : Journal) (n : Notice) (rest : List Notice) :
    (j.record (n :: rest)).1 = ⟨j.level n, n⟩ :: ((j.after n).record rest).1 := rfl

private theorem level_eq_error_iff (j : Journal) (n : Notice) :
    j.level n = .error ↔ n.announcement? = none := by
  rw [level]
  cases n.announcement? with
  | none => simp
  | some kind => by_cases left : 0 < j.left kind <;> simp [left]

theorem errorLines_eq (j : Journal) (notices : List Notice) :
    j.errorLines notices =
      (notices.filter fun n => n.announcement?.isNone).map fun n => ⟨.error, n⟩ := by
  induction notices generalizing j with
  | nil => rfl
  | cons n rest ih =>
    have tail := ih (j.after n)
    rw [errorLines] at tail ⊢
    rw [record_cons, List.filter_cons, List.filter_cons, tail]
    simp only [level_eq_error_iff, decide_eq_true_eq, Option.isNone_iff_eq_none]
    by_cases failure : n.announcement? = none
    · have atError := (level_eq_error_iff j n).mpr failure
      rw [if_pos failure, if_pos failure, List.map_cons, atError]
    · rw [if_neg failure, if_neg failure]

theorem map_notice_record (j : Journal) (notices : List Notice) :
    (j.record notices).1.map Line.notice = notices := by
  induction notices generalizing j with
  | nil => rfl
  | cons n rest ih => rw [record_cons, List.map_cons, ih]

theorem record_append (j : Journal) (first later : List Notice) :
    (j.record (first ++ later)).1 =
      (j.record first).1 ++ ((j.record first).2.record later).1 := by
  induction first generalizing j with
  | nil => rfl
  | cons n rest ih =>
    rw [List.cons_append, record_cons, record_cons, ih, List.cons_append]
    rfl

private theorem left_after (j : Journal) (n : Notice) (kind : Announcement) :
    (j.after n).left kind =
      if n.announcement? = some kind then j.left kind - 1 else j.left kind := by
  rw [after]
  cases n.announcement? with
  | none => rfl
  | some other =>
    by_cases equal : kind = other
    · simp [spend, equal]
    · have differs : ¬ other = kind := fun h => equal h.symm
      simp [spend, equal, differs]

end Journal

def Line.announces (kind : Announcement) (line : Line) : Bool :=
  line.notice.announcement? = some kind

namespace Journal

private theorem level_of_announcement {j : Journal} {n : Notice} {kind : Announcement}
    (announces : n.announcement? = some kind) :
    j.level n = if 0 < j.left kind then .info else .trace := by
  rw [level, announces]

theorem level_record {j : Journal} {notices : List Notice} {kind : Announcement} {i : Nat}
    {line : Line} (found : ((j.record notices).1.filter (Line.announces kind))[i]? = some line) :
    line.level = if i < j.left kind then .info else .trace := by
  induction notices generalizing j i with
  | nil => cases found
  | cons n rest ih =>
    have left := j.left_after n kind
    rw [record_cons] at found
    by_cases announces : n.announcement? = some kind
    · have counted : Line.announces kind ⟨j.level n, n⟩ = true := decide_eq_true announces
      rw [List.filter_cons_of_pos counted] at found
      rw [if_pos announces] at left
      cases i with
      | zero =>
        obtain rfl := Option.some.inj found
        exact level_of_announcement announces
      | succ i =>
        rw [ih found, left]
        have place : i < j.left kind - 1 ↔ i + 1 < j.left kind := by omega
        simp only [place]
    · have passed : ¬ Line.announces kind ⟨j.level n, n⟩ = true := by
        simpa [Line.announces] using announces
      rw [List.filter_cons_of_neg passed] at found
      rw [if_neg announces] at left
      rw [ih found, left]

theorem level_of_failure {j : Journal} {notices : List Notice} {line : Line}
    (member : line ∈ (j.record notices).1) (failure : line.notice.announcement? = none) :
    line.level = .error := by
  induction notices generalizing j with
  | nil => cases member
  | cons n rest ih =>
    rcases List.mem_cons.mp member with rfl | later
    · exact (level_eq_error_iff j n).mpr failure
    · exact ih later

end Journal

end Boosting
