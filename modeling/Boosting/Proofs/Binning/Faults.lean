/- Where malformed cuts stop a request.
   The scan over cuts finds the first one that is not finite or, if all are, the first that is
   not below its successor; it finds nothing exactly if the cuts are valid. A request is stopped
   by that fault if no check refuses it, with its cells as they were, whichever regime or tasks
   it asks for. Requests in tasks and requests by counts look at their cuts only if they have
   samples. -/

import Boosting.Proofs.Binning.Refusals

set_option autoImplicit false
set_option relaxedAutoImplicit false

namespace Boosting

structure FirstFailing {α : Type} (passes : α → Bool) (xs : List α) (i : Nat) (x : α) : Prop where
  stands : xs[i]? = some x
  fails : passes x = false
  before : ∀ j < i, ∀ y, xs[j]? = some y → passes y = true

def firstFailing? {α : Type} (passes : α → Bool) (index : Nat) (xs : List α) : Option (α × Nat) :=
  (xs.zipIdx index).find? fun entry => !passes entry.1

section FirstFailing

variable {α : Type} {passes : α → Bool} {x : α}

private theorem firstFailing?_eq_some_iff {xs : List α} {i : Nat} :
    firstFailing? passes 0 xs = some (x, i) ↔ FirstFailing passes xs i x := by
  rw [firstFailing?, List.find?_eq_some_iff_getElem]
  constructor
  · rintro ⟨fails, j, inside, found, before⟩
    rw [List.getElem_zipIdx, Nat.zero_add] at found
    obtain ⟨rfl, rfl⟩ := Prod.mk.inj found
    rw [List.length_zipIdx] at inside
    refine ⟨List.getElem?_eq_getElem inside, by simpa using fails, fun k lt y yAt => ?_⟩
    obtain ⟨_, rfl⟩ := List.getElem?_eq_some_iff.mp yAt
    simpa using before k lt
  · rintro ⟨stands, fails, before⟩
    obtain ⟨inside, rfl⟩ := List.getElem?_eq_some_iff.mp stands
    refine ⟨by simpa using fails, i, by simpa using inside, by simp, fun j lt => ?_⟩
    simpa using before j lt _ (List.getElem?_eq_getElem (Nat.lt_trans lt inside))

private theorem firstFailing?_cons (passes : α → Bool) (index : Nat) (x : α) (xs : List α) :
    firstFailing? passes index (x :: xs) =
      if passes x then firstFailing? passes (index + 1) xs else some (x, index) := by
  rw [firstFailing?, List.zipIdx_cons]
  cases passed : passes x with
  | true => exact List.find?_cons_of_neg (by simp [passed])
  | false => exact List.find?_cons_of_pos (by simp [passed])

end FirstFailing

def adjacent {α : Type} (xs : List α) : List (α × α) :=
  xs.zip xs.tail

/-- The fault of a cut list: its first cut that is not finite or, if all are, its first cut that is
not below its successor. -/
inductive FirstFault (cuts : List Double) : CutFault → Prop where
  | notFinite {i : Nat} {cut : Double} (first : FirstFailing Binary.isFinite cuts i cut) :
    FirstFault cuts (.notFinite i cut)
  | notIncreasing {i : Nat} {left right : Double} (finite : ∀ cut ∈ cuts, cut.isFinite = true)
    (first : FirstFailing (fun pair => pair.1.less pair.2) (adjacent cuts) i (left, right)) :
    FirstFault cuts (.notIncreasing i left right)

/-- A text that names the first fault: a cut with its index, or two cuts with the index of the
first. -/
inductive NamesFirstFault (cuts : List Double) : String → Prop where
  | notFinite {i : Nat} {cut : Double} (first : FirstFailing Binary.isFinite cuts i cut) :
    NamesFirstFault cuts s!"cut {i} is not finite: {cut.text}"
  | notIncreasing {i : Nat} {left right : Double} (finite : ∀ cut ∈ cuts, cut.isFinite = true)
    (first : FirstFailing (fun pair => pair.1.less pair.2) (adjacent cuts) i (left, right)) :
    NamesFirstFault cuts s!"cuts not strictly increasing at {i}: {left.text} >= {right.text}"

private theorem FirstFault.namesFirstFault {cuts : List Double} {fault : CutFault}
    (first : FirstFault cuts fault) : NamesFirstFault cuts fault.message := by
  cases first with
  | notFinite first => exact .notFinite first
  | notIncreasing finite first => exact .notIncreasing finite first

private theorem notFinite?_eq (index : Nat) (cuts : List Double) :
    notFinite? index cuts =
      (firstFailing? Binary.isFinite index cuts).map fun (cut, i) => .notFinite i cut := by
  induction cuts generalizing index with
  | nil => rfl
  | cons cut cuts ih =>
    rw [notFinite?, firstFailing?_cons, ih]
    split <;> rfl

private theorem notIncreasing?_eq (index : Nat) (cuts : List Double) :
    notIncreasing? index cuts =
      (firstFailing? (fun pair => pair.1.less pair.2) index (adjacent cuts)).map
        fun ((left, right), i) => .notIncreasing i left right := by
  induction cuts generalizing index with
  | nil => rfl
  | cons left cuts ih =>
    cases cuts with
    | nil => rfl
    | cons right cuts =>
      have pairs : adjacent (left :: right :: cuts) = (left, right) :: adjacent (right :: cuts) :=
        rfl
      rw [notIncreasing?, pairs, firstFailing?_cons, ih]
      split <;> rfl

private theorem cutFault?_eq_some_iff (cuts : List Double) (fault : CutFault) :
    cutFault? cuts = some fault ↔ FirstFault cuts fault := by
  constructor
  · intro found
    rw [cutFault?] at found
    split at found
    · rename_i fault' infinite
      obtain rfl := Option.some.inj found
      rw [notFinite?_eq, Option.map_eq_some_iff] at infinite
      obtain ⟨⟨cut, i⟩, first, rfl⟩ := infinite
      exact .notFinite (firstFailing?_eq_some_iff.mp first)
    · rename_i finite
      rw [notIncreasing?_eq, Option.map_eq_some_iff] at found
      obtain ⟨⟨⟨left, right⟩, i⟩, first, rfl⟩ := found
      exact .notIncreasing ((notFinite?_eq_none_iff 0 cuts).mp finite)
        (firstFailing?_eq_some_iff.mp first)
  · intro fault
    rw [cutFault?]
    cases fault with
    | notFinite first => rw [notFinite?_eq, firstFailing?_eq_some_iff.mpr first, Option.map_some]
    | notIncreasing finite first =>
      rw [(notFinite?_eq_none_iff 0 cuts).mpr finite, notIncreasing?_eq,
        firstFailing?_eq_some_iff.mpr first, Option.map_some]

private theorem exists_firstFault_iff (cuts : List Double) :
    (∃ fault, FirstFault cuts fault) ↔ ¬ ValidCuts cuts := by
  rw [← cutFault?_eq_none_iff, ← ne_eq, Option.ne_none_iff_exists']
  simp only [cutFault?_eq_some_iff]

namespace Binning

def sliceCauses (t : BinType) (values cuts bins : Nat) : List Cause :=
  [⟨values ≠ bins, .lengthMismatch values bins⟩, ⟨t.max ≤ cuts, .noRoomForMissingBin cuts⟩]

private theorem checkLengths_eq_judge (t : BinType) {values cuts : Nat} (bins : Nat)
    (fitsValues : FitsMemory 8 values) (fitsCuts : FitsMemory 8 cuts) :
    checkLengths t values cuts bins = judge (sliceCauses t values cuts bins) () := by
  rw [checkLengths_eq t fitsValues fitsCuts, sliceCauses, judge_cons, judge_cons]
  simp only [decide_eq_true_eq]
  rfl

/-- A request that is refused for its first cause, or else stopped by the first fault of the cuts
that it uses, or else answered, and that leaves its cells as they were unless it is answered. -/
structure Guarded {Cells : Type} (causes : List Cause) (cuts : List Double) (before : Cells)
    (r : BinningResult Cells) : Prop where
  refused : ∀ e, r.ending = .error (.rejected e) ↔ firstCause causes = some e
  stopped : (∃ fault, r.ending = .error (.malformed fault)) ↔
    firstCause causes = none ∧ ¬ ValidCuts cuts
  first : ∀ fault, r.ending = .error (.malformed fault) ↔
    firstCause causes = none ∧ FirstFault cuts fault
  named : ∀ fault, r.ending = .error (.malformed fault) → NamesFirstFault cuts fault.message
  untouched : r.ending ≠ .ok () → r.bins = before

/-- The cuts that a request looks at if it looks at them only for its samples. -/
def cutsFor (samples : Int) (cuts : List Double) : List Double :=
  if 0 < samples then cuts else []

private theorem cutFault?_cutsFor {samples : Int} {cuts : List Double} {fault : CutFault}
    (found : cutFault? (cutsFor samples cuts) = some fault) :
    0 < samples ∧ cutFault? cuts = some fault := by
  rw [cutsFor] at found
  split at found
  · exact ⟨‹_›, found⟩
  · cases found

section Guarded

variable {Cells : Type} {causes : List Cause} {cuts : List Double} {before : Cells}
  {r : BinningResult Cells}

private theorem Guarded.of_outcomes
    (refused : ∀ e, firstCause causes = some e → r = ⟨.error (.rejected e), before⟩)
    (stopped : ∀ fault, firstCause causes = none → cutFault? cuts = some fault →
      r = ⟨.error (.malformed fault), before⟩)
    (answered : firstCause causes = none → ValidCuts cuts → r.ending = .ok ()) :
    Guarded causes cuts before r := by
  cases cause : firstCause causes with
  | some e =>
    rw [refused e cause]
    exact ⟨by simp [cause], by simp [cause], by simp [cause], nofun, fun _ => rfl⟩
  | none =>
    cases found : cutFault? cuts with
    | some fault =>
      have first := (cutFault?_eq_some_iff cuts fault).mp found
      have invalid := (exists_firstFault_iff cuts).mp ⟨fault, first⟩
      rw [stopped fault cause found]
      refine ⟨by simp [cause], by simp [cause, invalid], fun other => ?_, fun other given => ?_,
        fun _ => rfl⟩
      · rw [← cutFault?_eq_some_iff, found]
        simp [cause]
      · obtain rfl : fault = other := by simpa using given
        exact first.namesFirstFault
    | none =>
      have valid := (cutFault?_eq_none_iff cuts).mp found
      have ending := answered cause valid
      have noFault : ∀ fault, ¬ FirstFault cuts fault := by
        intro fault first
        exact (exists_firstFault_iff cuts).mp ⟨fault, first⟩ valid
      exact ⟨by simp [ending, cause], by simp [ending, valid], by simp [ending, noFault],
        by simp [ending], absurd ending⟩

end Guarded

private theorem cellsBy_of_fault {cuts : List Double} {fault : CutFault}
    (found : cutFault? cuts = some fault) (regime : Regime) (t : BinType) (values : List Double) :
    cellsBy regime t values cuts = .error fault := by
  rw [cellsBy, found]

private theorem cellsBy_of_valid {cuts : List Double} (valid : ValidCuts cuts) (regime : Regime)
    (t : BinType) (values : List Double) :
    cellsBy regime t values cuts = .ok ((regime.bins values cuts).map t.ofBin) := by
  rw [cellsBy, cutFault?_of_valid valid]

section Slices

variable {t : BinType} {values cuts : List Double}

private theorem guarded_of_judge (causes : List Cause) (regime : Regime) (t : BinType)
    (values cuts : List Double) (bins : List Int) :
    Guarded causes cuts bins (.settle bins
      (match judge causes () with
      | .error e => .error (.rejected e)
      | .ok () => conclude (cellsBy regime t values cuts))) := by
  rw [judge]
  refine .of_outcomes (fun e cause => ?_) (fun fault noCause found => ?_) (fun noCause valid => ?_)
  · rw [cause]
    rfl
  · rw [noCause, cellsBy_of_fault found]
    rfl
  · rw [noCause, cellsBy_of_valid valid]
    rfl

private theorem discretize_guarded (bins : List Int) (fitsValues : FitsMemory 8 values.length)
    (fitsCuts : FitsMemory 8 cuts.length) :
    Guarded (sliceCauses t values.length cuts.length bins.length) cuts bins
      (discretize t values cuts bins) := by
  rw [discretize, checkLengths_eq_judge t bins.length fitsValues fitsCuts]
  exact guarded_of_judge _ _ t values cuts bins

def regimeCauses (regime : Regime) (t : BinType) (values cuts bins : Nat) : List Cause :=
  sliceCauses t values cuts bins ++ [⟨!regime.supports cuts, .unsupportedRegime regime cuts⟩]

private theorem discretizeBy_guarded (bins : List Int) (fitsValues : FitsMemory 8 values.length)
    (fitsCuts : FitsMemory 8 cuts.length) (regime : Regime) :
    Guarded (regimeCauses regime t values.length cuts.length bins.length) cuts bins
      (discretizeBy regime t values cuts bins) := by
  have guarded := guarded_of_judge (regimeCauses regime t values.length cuts.length bins.length)
    regime t values cuts bins
  rw [regimeCauses, judge, firstCause_append] at guarded
  rw [discretizeBy, checkLengths_eq_judge t bins.length fitsValues fitsCuts, judge, regimeCauses]
  cases first : firstCause (sliceCauses t values.length cuts.length bins.length) with
  | some e =>
    rw [first] at guarded
    exact guarded
  | none =>
    rw [first, Option.none_or] at guarded
    cases supported : regime.supports cuts.length <;> rw [supported] at guarded <;> exact guarded

end Slices

section Tasks

variable {t : BinType} {values cuts : List Double} {fault : CutFault}

private theorem Task.run_of_fault {task : Task} (found : cutFault? task.cuts = some fault)
    (cells : List Int) :
    task.run t cells = .error fault := by
  rw [Task.run, Binning.cells, cellsBy_of_fault found]

private theorem runTasks_of_fault {tasks : List Task} (nonempty : tasks ≠ [])
    (found : ∀ task ∈ tasks, cutFault? task.cuts = some fault) (cells : List Int) :
    runTasks t tasks cells = ⟨.error (.malformed fault), cells⟩ := by
  cases tasks with
  | nil => exact absurd rfl nonempty
  | cons task rest =>
    have stopped := Task.run_of_fault (t := t) (found task List.mem_cons_self) cells
    rw [runTasks, stopped]

private theorem dispatch_of_fault {tasks : List Task} (nonempty : tasks ≠ [])
    (found : ∀ task ∈ tasks, cutFault? task.cuts = some fault) {order : List Task → List Task}
    (each : ∀ tasks, (order tasks).Perm tasks) (workers : Workers) (cells : List Int) :
    dispatch t workers order tasks cells = ⟨.error (.malformed fault), cells⟩ := by
  rw [dispatch]
  split
  · refine runTasks_of_fault (fun empty => ?_) (fun task member => ?_) cells
    · have unchanged := each tasks
      rw [empty] at unchanged
      exact nonempty unchanged.nil_eq.symm
    · exact found task ((each tasks).mem_iff.mp member)
  · exact runTasks_of_fault nonempty found cells

private theorem dispatch_nil {order : List Task → List Task}
    (each : ∀ tasks, (order tasks).Perm tasks)
    (workers : Workers) (cells : List Int) :
    dispatch t workers order [] cells = ⟨.ok (), cells⟩ := by
  rw [dispatch, (each []).eq_nil, ite_self]
  rfl

private theorem chunkTasks_ne_nil {size : Nat} (pos : 0 < size) (nonempty : 0 < values.length) :
    chunkTasks size values cuts ≠ [] := by
  obtain ⟨task, member, -⟩ := exists_covers pos cuts nonempty
  exact List.ne_nil_of_mem member

private theorem discretizeInTasks_guarded (bins : List Int)
    (fitsValues : FitsMemory 8 values.length)
    (fitsCuts : FitsMemory 8 cuts.length) (workers : Workers) (minChunk : Nat)
    {order : List Task → List Task} (each : ∀ tasks, (order tasks).Perm tasks) :
    Guarded (sliceCauses t values.length cuts.length bins.length) (cutsFor values.length cuts) bins
      (discretizeInTasks t values cuts bins workers minChunk order) := by
  have pos := chunkLength_pos values.length minChunk workers
  rw [discretizeInTasks, checkLengths_eq_judge t bins.length fitsValues fitsCuts, judge]
  refine .of_outcomes (fun e cause => ?_) (fun fault noCause found => ?_) (fun noCause valid => ?_)
  · rw [cause]
  · obtain ⟨nonempty, found⟩ := cutFault?_cutsFor found
    rw [noCause]
    refine dispatch_of_fault (chunkTasks_ne_nil pos (by omega)) (fun task member => ?_) each _ _
    rw [(isPart_of_mem_chunkTasks pos member).cuts]
    exact found
  · rw [noCause]
    rcases Nat.eq_zero_or_pos values.length with empty | nonempty
    · obtain rfl := List.eq_nil_of_length_eq_zero empty
      exact congrArg BinningResult.ending (dispatch_nil each workers bins)
    · rw [cutsFor, if_pos (by omega)] at valid
      have length := (firstCause_eq_none_iff _).mp noCause _ List.mem_cons_self
      have lengths : values.length = bins.length := by simpa using length
      exact congrArg BinningResult.ending (dispatch_chunkTasks valid pos lengths.symm each workers)

end Tasks

section Raw

variable {t : BinType} {r : RawRequest}

private theorem RawRequest.run_of_fault {fault : CutFault}
    (accepted : firstCause (r.causes t) = none)
    (word : r.countSamples < addressSpace / 2) (pos : 0 < r.countSamples)
    (found : cutFault? r.leadingCuts = some fault) :
    r.run t = ⟨.error (.malformed fault), r.bins⟩ := by
  have nonempty : r.countSamples.toNat ≠ 0 := by omega
  have stopped : cells t r.job.values r.job.cuts = .error fault := cellsBy_of_fault found _ t _
  rw [run, check_eq t r word, judge, accepted, if_neg nonempty]
  simp only [stopped]
  rfl

private theorem RawRequest.run_guarded (word : r.countSamples < addressSpace / 2) :
    Guarded (r.causes t) (cutsFor r.countSamples r.leadingCuts) r.bins (r.run t) := by
  refine .of_outcomes (fun e cause => ?_) (fun fault noCause found => ?_) (fun noCause valid => ?_)
  · exact run_of_cause word cause
  · obtain ⟨pos, found⟩ := cutFault?_cutsFor found
    exact run_of_fault noCause word pos found
  · rcases Int.lt_or_eq_of_le (countSamples_nonneg noCause) with pos | empty
    · rw [cutsFor, if_pos pos] at valid
      rw [run_of_accepted noCause word pos valid]
    · rw [run_of_empty empty.symm]

end Raw

/-- Every request whose buffers are in memory is refused, stopped or answered, in this order: its
causes come before the faults of its cuts, and a fault comes before any cell is written. The fault
is the first of the cuts that the request uses, for every regime, division into tasks and order of
these, and no task by itself writes a cell before the fault stops it. -/
theorem faults_stop_requests (t : BinType) {values cuts : List Double} (bins : List Int)
    (fitsValues : FitsMemory 8 values.length) (fitsCuts : FitsMemory 8 cuts.length) :
    Guarded (sliceCauses t values.length cuts.length bins.length) cuts bins
        (discretize t values cuts bins) ∧
      (∀ regime : Regime,
        Guarded (regimeCauses regime t values.length cuts.length bins.length) cuts bins
          (discretizeBy regime t values cuts bins)) ∧
      (∀ (workers : Workers) (minChunk : Nat) (order : List Task → List Task),
        (∀ tasks, (order tasks).Perm tasks) →
        Guarded (sliceCauses t values.length cuts.length bins.length)
          (cutsFor values.length cuts) bins
          (discretizeInTasks t values cuts bins workers minChunk order)) ∧
      (∀ fault, FirstFault cuts fault → ∀ (workers : Workers) (minChunk : Nat),
        ∀ task ∈ chunkTasks (chunkLength values.length minChunk workers) values cuts,
        ∀ cells, task.run t cells = .error fault) ∧
      ∀ r : RawRequest, r.countSamples < addressSpace / 2 →
        Guarded (r.causes t) (cutsFor r.countSamples r.leadingCuts) r.bins
          (discretizeRaw t r).result := by
  refine ⟨discretize_guarded bins fitsValues fitsCuts,
    discretizeBy_guarded bins fitsValues fitsCuts,
    fun workers minChunk order each =>
      discretizeInTasks_guarded bins fitsValues fitsCuts workers minChunk each,
    fun fault first workers minChunk task member cells => ?_,
    fun r word => RawRequest.run_guarded word⟩
  refine Task.run_of_fault ?_ cells
  rw [(isPart_of_mem_chunkTasks (chunkLength_pos _ _ _) member).cuts, cutFault?_eq_some_iff]
  exact first

theorem faults_stop_requests_of_four_cuts :
    let cuts : List Double := [1, 2, 2, .infinity false]
    let values : List Double := [0, 1.5, .nan]
    let t : BinType := .unsigned .w8
    let workers : Workers := ⟨.parallel, 2⟩
    let r : RawRequest := ⟨1, some values, 3, some cuts, some [9, 9]⟩
    FitsMemory 8 ([] : List Double).length ∧ FitsMemory 8 values.length ∧ FitsMemory 8 cuts.length ∧
      (∀ tasks : List Task, tasks.reverse.Perm tasks) ∧ r.countSamples < addressSpace / 2 ∧
      (∃ fault, (discretize t [] cuts []).ending = .error (.malformed fault)) ∧
      (¬ ∃ fault, (discretizeInTasks t [] cuts [] workers 1 List.reverse).ending =
        .error (.malformed fault)) ∧
      (discretizeBy .missing t [] cuts []).ending =
        .error (.rejected (.unsupportedRegime .missing 4)) ∧
      (∃ fault, (discretizeInTasks t values cuts [9, 9, 9] workers 1 List.reverse).ending =
        .error (.malformed fault)) ∧
      (discretizeInTasks t values cuts [9, 9, 9] workers 1 List.reverse).bins = [9, 9, 9] ∧
      FirstFault cuts (.notFinite 3 (.infinity false)) ∧
      (discretizeRaw t r).result.ending = .error (.malformed (.notIncreasing 1 2 2)) ∧
      FirstFault r.leadingCuts (.notIncreasing 1 2 2) ∧
      (discretizeRaw t r).result.bins = some [9, 9] := by
  intro cuts values t workers r
  have fitsNone : FitsMemory 8 ([] : List Double).length := by decide
  have fitsValues : FitsMemory 8 values.length := by decide
  have fitsCuts : FitsMemory 8 cuts.length := by decide
  have each : ∀ tasks : List Task, tasks.reverse.Perm tasks := List.reverse_perm
  have word : r.countSamples < addressSpace / 2 := by decide
  have invalid : ¬ ValidCuts cuts :=
    fun valid => absurd (valid.finite (.infinity false)) (by decide)
  have stopped : (discretizeRaw t r).result.ending = .error (.malformed (.notIncreasing 1 2 2)) :=
    congrArg BinningResult.ending
      (RawRequest.run_of_fault (by decide) word (by decide) (by decide))
  obtain ⟨whole, byRegime, inTasks, -, byCounts⟩ := faults_stop_requests t [] fitsNone fitsCuts
  obtain ⟨-, -, someInTasks, -, -⟩ := faults_stop_requests t [9, 9, 9] fitsValues fitsCuts
  have tasks := someInTasks workers 1 List.reverse each
  have counts := byCounts r word
  have fault := tasks.stopped.mpr ⟨by decide, invalid⟩
  refine ⟨fitsNone, fitsValues, fitsCuts, each, word, whole.stopped.mpr ⟨by decide, invalid⟩, ?_,
    ((byRegime .missing).refused _).mpr (by decide), fault, ?_, ?_, stopped,
    ((counts.first _).mp stopped).2, counts.untouched (by rw [stopped]; nofun)⟩
  · intro fault
    exact ((inTasks workers 1 List.reverse each).stopped.mp fault).2 ⟨nofun, .nil⟩
  · obtain ⟨fault, ending⟩ := fault
    exact tasks.untouched (by rw [ending]; nofun)
  · exact (cutFault?_eq_some_iff _ _).mp (by decide)

end Binning

end Boosting
