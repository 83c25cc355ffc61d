/- Announcements over a session.
   A session writes the notices of its calls into one journal. So the level of an announcement
   depends on how many of its kind came before, in whatever calls, and each call writes the lines
   that its own outcome asks for. Entering and leaving are counted apart: calls that are
   rejected, have nothing to do or are stopped by malformed cuts enter without leaving. -/

import Boosting.Binning.Columns
import Boosting.Binning.Raw
import Boosting.Loss.Config
import Boosting.Probability
import Boosting.Proofs.Journal
import Boosting.Proofs.Update.Acceptance
import Boosting.Session

set_option autoImplicit false
set_option relaxedAutoImplicit false

namespace Boosting

namespace Session

variable {α : Type}

def lines (s : Session α) : List Line :=
  s.entries.flatMap Entry.lines

private theorem lines_runFrom (j : Journal) (calls : List (Noted (Option α))) :
    (runFrom j calls).lines =
      (j.record ((calls.take (runFrom j calls).entries.length).flatMap Noted.notices)).1 := by
  induction calls generalizing j with
  | nil => rfl
  | cons call calls ih =>
    rw [runFrom]
    cases call.result with
    | none => simp [lines]
    | some _ =>
      have rest := ih (j.record call.notices).2
      simp only [List.length_cons, List.take_succ_cons, List.flatMap_cons]
      rw [Journal.record_append, ← rest]
      rfl

private theorem exists_call_of_entry {j : Journal} {calls : List (Noted (Option α))} {k : Nat}
    {entry : Entry α} (shown : (runFrom j calls).entries[k]? = some entry) :
    ∃ call, calls[k]? = some call ∧ entry.lines.map Line.notice = call.notices ∧
      entry.result = call.result := by
  induction calls generalizing j k with
  | nil => cases shown
  | cons call calls ih =>
    have written := j.map_notice_record call.notices
    rw [runFrom] at shown
    cases result : call.result with
    | none =>
      rw [result] at shown
      cases k with
      | zero =>
        obtain rfl := Option.some.inj shown
        exact ⟨call, rfl, written, result.symm⟩
      | succ k => cases shown
    | some a =>
      rw [result] at shown
      cases k with
      | zero =>
        obtain rfl := Option.some.inj shown
        exact ⟨call, rfl, written, result.symm⟩
      | succ k => exact ih shown

private theorem length_entries_of_not_aborted {j : Journal} {calls : List (Noted (Option α))}
    (survived : (runFrom j calls).aborted = false) :
    (runFrom j calls).entries.length = calls.length := by
  induction calls generalizing j with
  | nil => rfl
  | cons call calls ih =>
    rw [runFrom] at survived ⊢
    cases result : call.result with
    | none =>
      rw [result] at survived
      cases survived
    | some _ =>
      rw [result] at survived
      exact congrArg Nat.succ (ih survived)

private theorem aborted_iff (j : Journal) (calls : List (Noted (Option α))) :
    (runFrom j calls).aborted = true ↔ ∃ call ∈ calls, call.result = none := by
  induction calls generalizing j with
  | nil => simp [runFrom]
  | cons call calls ih =>
    rw [runFrom]
    cases result : call.result with
    | none => simp [result]
    | some _ => simpa [result] using ih _

end Session

inductive Outcome where
  | succeeded
  | failed
  | stopped
deriving DecidableEq

def BinningResult.outcome {Cells : Type} (r : BinningResult Cells) : Outcome :=
  match Binning.rawStatus? r with
  | none => .stopped
  | some .success => .succeeded
  | some .failure => .failed

def UpdateResult.outcome (r : UpdateResult) : Outcome :=
  match r.ending with
  | .ok _ => .succeeded
  | .error _ => .failed

inductive Call where
  | discretize (t : BinType) (values cuts : List Double) (bins : List Int)
  | discretizeBy (regime : Regime) (t : BinType) (values cuts : List Double) (bins : List Int)
  | discretizeInTasks (t : BinType) (values cuts : List Double) (bins : List Int)
    (workers : Workers) (minChunk : Nat) (order : List Binning.Task → List Binning.Task)
  | discretizeColumns (t : BinType) (features : Matrix Double) (cutSets : List (List Double))
    (bins : Matrix Int) (workers : Workers) (order : List Binning.Task → List Binning.Task)
  | discretizeRaw (t : BinType) (r : Binning.RawRequest)
  | update (b : Batch) (path : UpdatePath) (loss : Loss)
  | softmax (classes : Nat) (logits probabilities : List Double)
  | configure (config : LossConfig)
  | other (outcome : Outcome)

namespace Call

def binning {Cells : Type} (r : BinningResult Cells) : Noted (Option Outcome) :=
  r.noted.map fun r => some r.outcome

def run : Call → Noted (Option Outcome)
  | discretize t values cuts bins => binning (Binning.discretize t values cuts bins)
  | discretizeBy regime t values cuts bins =>
    binning (Binning.discretizeBy regime t values cuts bins)
  | discretizeInTasks t values cuts bins workers minChunk order =>
    binning (Binning.discretizeInTasks t values cuts bins workers minChunk order)
  | discretizeColumns t features cutSets bins workers order =>
    binning (Binning.discretizeColumns t features cutSets bins workers order)
  | discretizeRaw t r => (Binning.discretizeRaw t r).map fun r => some r.outcome
  | update b path loss => (b.applyBy path loss).map fun r => some r.outcome
  | softmax classes logits probabilities =>
    (Boosting.softmax classes logits probabilities).map fun done =>
      match done.1 with
      | .ok () => some .succeeded
      | .error (.lengthMismatch _ _) => some .failed
      | .error (.unsupportedClasses _) => none
  | configure config =>
    match Loss.ofConfig config with
    | .ok _ => .quiet (some .succeeded)
    | .error (.delta _) => .quiet (some .failed)
    | .error (.unsupportedClasses classes) =>
      ⟨[.failure (LossError.unsupportedClasses classes).message], none⟩
  | other outcome => .quiet (some outcome)

/-- What a call has to report for its outcome: announcements by their kinds, and `none` for a
failure. -/
def outline (call : Call) (outcome : Option Outcome) : List (Option Announcement) :=
  let report : List (Option Announcement) := if outcome = some .failed then [none] else []
  match call with
  | discretizeRaw _ _ =>
    some .rawEntered :: report ++ if outcome = some .stopped then [] else [some .rawExited]
  | update b _ _ =>
    (if b.validate.isOk then [some .updateEntered] else []) ++ report ++
      if outcome = some .succeeded ∧ b.samples ≠ 0 then [some .updateExited] else []
  | softmax _ _ _ => if outcome = some .succeeded then [] else [none]
  | configure _ => if outcome = none then [none] else []
  | other _ => []
  | _ => report

end Call

def Noted.kinds {α : Type} (a : Noted α) : List (Option Announcement) :=
  a.notices.map Notice.announcement?

private theorem Call.kinds_binning {Cells : Type} (r : BinningResult Cells) :
    (binning r).kinds = if (binning r).result = some .failed then [none] else [] := by
  obtain ⟨ending, bins⟩ := r
  cases ending with
  | ok _ => rfl
  | error stop => cases stop <;> rfl

private theorem Call.kinds_discretizeRaw (t : BinType) (r : Binning.RawRequest) :
    (run (discretizeRaw t r)).kinds =
      (discretizeRaw t r).outline (run (discretizeRaw t r)).result := by
  rw [run, Binning.discretizeRaw]
  obtain ⟨ending, bins⟩ := r.run t
  cases ending with
  | ok _ => rfl
  | error stop => cases stop <;> rfl

private theorem Call.kinds_applyWith (b : Batch) (path : UpdatePath) (loss : Loss)
    (move : Batch → UpdateResult) :
    (b.applyWith loss move).kinds =
      (update b path loss).outline (some (b.applyWith loss move).result.outcome) := by
  rw [Batch.applyWith, outline]
  cases b.validate with
  | error e => rfl
  | ok _ =>
    by_cases empty : b.samples = 0
    · simp only [empty]
      rfl
    · simp only [if_neg empty]
      obtain ⟨ending, buffers⟩ := move b
      cases ending with
      | error e => rfl
      | ok metric =>
        simp only [ne_eq, empty]
        rfl

private theorem Call.kinds_run (call : Call) : call.run.kinds = call.outline call.run.result := by
  cases call with
  | discretizeRaw t r => exact kinds_discretizeRaw t r
  | update b path loss =>
    rcases Batch.squared_or_general path loss with ⟨-, -, applied⟩ | ⟨-, -, applied⟩
    · rw [run, applied]
      exact kinds_applyWith b path .squared _
    · rw [run, applied]
      exact kinds_applyWith b path loss _
  | softmax classes logits probabilities =>
    rw [run, Boosting.softmax]
    split
    · rfl
    · split <;> rfl
  | configure config =>
    rw [run]
    split <;> rfl
  | other _ => rfl
  | discretize => exact kinds_binning _
  | discretizeBy => exact kinds_binning _
  | discretizeInTasks => exact kinds_binning _
  | discretizeColumns => exact kinds_binning _

/-- Over any calls in one process, the first twenty-five announcements of each kind are at `INFO`
level and all later ones at `TRACE` level, whatever else is reported; failures are at `ERROR` level.
Each call reports what its outcome asks for, and every call runs unless one ends the process. -/
theorem announcements_within_budget (calls : List Call) :
    let session := Session.run (calls.map Call.run)
    (∀ kind (i : Nat) (line : Line), (session.lines.filter (Line.announces kind))[i]? = some line →
        line.level = if i < 25 then .info else .trace) ∧
      (∀ line ∈ session.lines, line.notice.announcement? = none → line.level = .error) ∧
      (∀ (k : Nat) (entry : Entry Outcome), session.entries[k]? = some entry →
        ∃ call, calls[k]? = some call ∧ entry.result = call.run.result ∧
          (entry.lines.map Line.notice).map Notice.announcement? = call.outline entry.result) ∧
      (session.aborted = false → session.entries.length = calls.length) ∧
      (session.aborted = true ↔ ∃ call ∈ calls, call.run.result = none) := by
  intro session
  have written := Session.lines_runFrom .fresh (calls.map Call.run)
  refine ⟨?_, ?_, ?_, ?_, ?_⟩
  · intro kind i line found
    rw [show session.lines = _ from written] at found
    exact Journal.level_record found
  · intro line member failure
    rw [show session.lines = _ from written] at member
    exact Journal.level_of_failure member failure
  · intro k entry shown
    obtain ⟨noted, found, notices, result⟩ := Session.exists_call_of_entry shown
    rw [List.getElem?_map] at found
    obtain ⟨call, hasCall, rfl⟩ := Option.map_eq_some_iff.mp found
    refine ⟨call, hasCall, result, ?_⟩
    rw [notices, result]
    exact call.kinds_run
  · intro survived
    rw [← List.length_map (f := Call.run)]
    exact Session.length_entries_of_not_aborted survived
  · have aborted := Session.aborted_iff .fresh (calls.map Call.run)
    simp only [List.mem_map, exists_exists_and_eq_and] at aborted
    exact aborted

example :
    let idle : Batch := ⟨.scalar, [], ⟨[], none, none⟩, none, none, false⟩
    let busy : Batch := ⟨.scalar, [1], ⟨[0], none, none⟩, none, none, false⟩
    let calls : List Call :=
      List.replicate 25 (.update idle .squared .squared) ++ [.update busy .squared .squared]
    (((Session.run (calls.map Call.run)).lines.drop 25).map Line.level) = [.trace, .info] := by
  decide

end Boosting
