/- Requests divided into tasks.
   Each task of a request writes a part of one list, the cells of the whole request, to the place
   where that part stands in it. So a cell that some task covers ends up as the cell of the whole
   request, whichever task writes it last, and the others stay. The tasks cover all cells, so
   neither how many there are nor in which order they run shows in the result. -/

import Boosting.Binning.Tasks
import Boosting.Proofs.Binning.Agreement
import Boosting.Proofs.Update.Blocks

set_option autoImplicit false
set_option relaxedAutoImplicit false

namespace Boosting

section Parts

variable {α : Type}

private theorem excerpt_length (start size : Nat) (xs : List α) :
    excerpt start (excerpt start size xs).length xs = excerpt start size xs := by
  simp only [excerpt, List.length_take]
  exact List.take_eq_take_min.symm

private theorem length_overwrite {start : Nat} {piece whole : List α}
    (fits : start + piece.length ≤ whole.length) :
    (overwrite start piece whole).length = whole.length := by
  rw [overwrite, List.length_append, List.length_append, List.length_take, List.length_drop]
  omega

private theorem getElem?_overwrite {start : Nat} {piece whole : List α}
    (fits : start + piece.length ≤ whole.length) (i : Nat) :
    (overwrite start piece whole)[i]? =
      if start ≤ i ∧ i < start + piece.length then piece[i - start]? else whole[i]? := by
  have front : (whole.take start).length = start := List.length_take_of_le (by omega)
  rw [overwrite]
  by_cases before : i < start
  · rw [if_neg (by omega), List.append_assoc, List.getElem?_append_left (by omega),
      List.getElem?_take, if_pos before]
  · by_cases inside : i < start + piece.length
    · have within : i < (whole.take start ++ piece).length := by
        rw [List.length_append]
        omega
      rw [if_pos ⟨by omega, inside⟩, List.getElem?_append_left within,
        List.getElem?_append_right (by omega), front]
    · have past : (whole.take start ++ piece).length ≤ i := by
        rw [List.length_append]
        omega
      have index : start + piece.length + (i - (whole.take start ++ piece).length) = i := by
        rw [List.length_append] at past ⊢
        omega
      rw [if_neg (by omega), List.getElem?_append_right past, List.getElem?_drop, index]

private theorem getElem?_segmentsUpTo {size : Nat} (pos : 0 < size) (count : Nat) (xs : List α)
    (enough : xs.length ≤ count) (j : Nat) :
    (segmentsUpTo size count xs)[j]? =
      if j * size < xs.length then some (excerpt (j * size) size xs) else none := by
  induction count generalizing xs j with
  | zero =>
    obtain rfl := List.eq_nil_of_length_eq_zero (Nat.le_zero.mp enough)
    rfl
  | succ count ih =>
    cases xs with
    | nil => rfl
    | cons x xs =>
      rw [segmentsUpTo]
      cases j with
      | zero =>
        have pos : 0 < (x :: xs).length := Nat.succ_pos _
        rw [Nat.zero_mul, if_pos pos, excerpt, List.drop_zero]
        rfl
      | succ j =>
        have shorter : ((x :: xs).drop size).length ≤ count := by
          rw [List.length_drop]
          omega
        have past : size + j * size = (j + 1) * size := by rw [Nat.succ_mul, Nat.add_comm]
        have still : j * size < (x :: xs).length - size ↔ (j + 1) * size < (x :: xs).length := by
          omega
        rw [List.getElem?_cons_succ, ih _ shorter, List.length_drop, excerpt, excerpt,
          List.drop_drop, past]
        simp only [still]

theorem getElem?_segments {size : Nat} (pos : 0 < size) (xs : List α) (j : Nat) :
    (segments size xs)[j]? =
      if j * size < xs.length then some (excerpt (j * size) size xs) else none :=
  getElem?_segmentsUpTo pos _ xs (Nat.le_refl _) j

end Parts

namespace Binning

namespace Task

structure IsPart (values cuts : List Double) (task : Task) : Prop where
  cuts : task.cuts = cuts
  inside : task.start + task.values.length ≤ values.length
  values : task.values = excerpt task.start task.values.length values

def Covers (task : Task) (i : Nat) : Prop :=
  task.start ≤ i ∧ i < task.start + task.values.length

instance (task : Task) (i : Nat) : Decidable (task.Covers i) :=
  inferInstanceAs (Decidable (_ ∧ _))

end Task

theorem chunkLength_pos (values minChunk : Nat) (workers : Workers) :
    0 < chunkLength values minChunk workers := by
  rw [chunkLength]
  split <;> omega

private theorem mem_chunkTasks_iff {size : Nat} (pos : 0 < size) (values cuts : List Double)
    (task : Task) :
    task ∈ chunkTasks size values cuts ↔
      ∃ j, j * size < values.length ∧ task = ⟨j * size, excerpt (j * size) size values, cuts⟩ := by
  simp only [chunkTasks, List.mem_map, Prod.exists, List.mem_zipIdx_iff_getElem?,
    getElem?_segments pos]
  constructor
  · rintro ⟨piece, j, found, rfl⟩
    split at found
    · rename_i inside
      obtain rfl := Option.some.inj found
      exact ⟨j, inside, rfl⟩
    · cases found
  · rintro ⟨j, inside, rfl⟩
    exact ⟨_, j, if_pos inside, rfl⟩

theorem isPart_of_mem_chunkTasks {size : Nat} (pos : 0 < size) {values cuts : List Double}
    {task : Task} (member : task ∈ chunkTasks size values cuts) : task.IsPart values cuts := by
  obtain ⟨j, inside, rfl⟩ := (mem_chunkTasks_iff pos values cuts task).mp member
  exact ⟨rfl, excerpt_inside (Nat.le_of_lt inside) size, (excerpt_length _ _ _).symm⟩

theorem covers_quotient {size : Nat} (pos : 0 < size) {values : List Double} (cuts : List Double)
    {i : Nat} (inside : i < values.length) :
    Task.Covers ⟨i / size * size, excerpt (i / size * size) size values, cuts⟩ i := by
  have start : i / size * size ≤ i := Nat.div_mul_le_self i size
  have past : i < i / size * size + size := Nat.lt_div_mul_add pos
  refine ⟨start, ?_⟩
  show i < i / size * size + (excerpt (i / size * size) size values).length
  rw [length_excerpt_eq_min]
  omega

theorem exists_covers {size : Nat} (pos : 0 < size) {values : List Double} (cuts : List Double)
    {i : Nat} (inside : i < values.length) :
    ∃ task ∈ chunkTasks size values cuts, task.Covers i := by
  have start : i / size * size ≤ i := Nat.div_mul_le_self i size
  refine ⟨_, (mem_chunkTasks_iff pos values cuts _).mpr ⟨i / size, by omega, rfl⟩, ?_⟩
  exact covers_quotient pos cuts inside

section Runs

variable {t : BinType} {values cuts : List Double}

private theorem referenceCells_excerpt (t : BinType) (values cuts : List Double)
    (start size : Nat) :
    referenceCells t (excerpt start size values) cuts =
      excerpt start size (referenceCells t values cuts) := by
  simp only [referenceCells, referenceBins, map_excerpt]

theorem length_referenceCells (t : BinType) (values cuts : List Double) :
    (referenceCells t values cuts).length = values.length := by
  rw [referenceCells, List.length_map, length_referenceBins]

/-- The cells of the task are the part of a list of cells that stands where the task writes. -/
structure Task.Writes (t : BinType) (target : List Int) (task : Task) : Prop where
  inside : task.start + task.values.length ≤ target.length
  piece : cells t task.values task.cuts = .ok (excerpt task.start task.values.length target)

private theorem Task.IsPart.writes (valid : ValidCuts cuts) {task : Task}
    (part : task.IsPart values cuts) :
    task.Writes t (referenceCells t values cuts) := by
  constructor
  · rw [length_referenceCells]
    exact part.inside
  · rw [part.cuts, cells_eq valid, ← referenceCells_excerpt, ← part.values]

variable {target : List Int}

private theorem Task.run_spec {task : Task} (writes : task.Writes t target) {bins : List Int}
    (length : bins.length = target.length) :
    ∃ after, task.run t bins = .ok after ∧ after.length = target.length ∧
      ∀ i, after[i]? = if task.Covers i then target[i]? else bins[i]? := by
  have inside := writes.inside
  have pieceLength : (excerpt task.start task.values.length target).length = task.values.length :=
    length_excerpt inside
  refine ⟨_, by rw [Task.run, writes.piece], ?_, ?_⟩
  · rw [length_overwrite (by omega), length]
  · intro i
    rw [getElem?_overwrite (by omega), pieceLength]
    by_cases covered : task.Covers i
    · obtain ⟨first, before⟩ := covered
      have place : task.start + (i - task.start) = i := by omega
      rw [if_pos ⟨first, before⟩, if_pos ⟨first, before⟩, getElem?_excerpt, if_pos (by omega),
        place]
    · rw [if_neg covered]
      exact if_neg covered

/-- Tasks replace the cells that any of them covers by those of the target, in whatever order and
however often they cover a cell. -/
private theorem runTasks_spec {tasks : List Task} (writes : ∀ task ∈ tasks, task.Writes t target)
    {bins : List Int} (length : bins.length = target.length) :
    ∃ after, runTasks t tasks bins = ⟨.ok (), after⟩ ∧ after.length = target.length ∧
      ∀ i, after[i]? = if ∃ task ∈ tasks, task.Covers i then target[i]? else bins[i]? := by
  induction tasks generalizing bins with
  | nil =>
    refine ⟨bins, rfl, length, fun i => ?_⟩
    rw [if_neg (by simp)]
  | cons task rest ih =>
    obtain ⟨first, others⟩ := List.forall_mem_cons.mp writes
    obtain ⟨middle, ran, middleLength, written⟩ := Task.run_spec first length
    obtain ⟨after, finished, afterLength, rewritten⟩ := ih others middleLength
    refine ⟨after, by simp only [runTasks, ran, finished], afterLength, fun i => ?_⟩
    rw [rewritten i, written i]
    simp only [List.mem_cons, exists_eq_or_imp]
    -- If a later task covers the index too, it writes the same cell again.
    by_cases later : ∃ task ∈ rest, task.Covers i
    · rw [if_pos later, if_pos (Or.inr later)]
    · rw [if_neg later]
      simp only [later, or_false]

private theorem runTasks_eq {tasks : List Task} (writes : ∀ task ∈ tasks, task.Writes t target)
    (cover : ∀ i < target.length, ∃ task ∈ tasks, task.Covers i) {bins : List Int}
    (length : bins.length = target.length) : runTasks t tasks bins = ⟨.ok (), target⟩ := by
  obtain ⟨after, ran, afterLength, written⟩ := runTasks_spec writes length
  have whole : after = target := by
    apply List.ext_getElem?
    intro i
    by_cases inside : i < target.length
    · rw [written i, if_pos (cover i inside)]
    · rw [List.getElem?_eq_none (by omega), List.getElem?_eq_none (by omega)]
  rw [ran, whole]

theorem dispatch_eq {tasks : List Task} (writes : ∀ task ∈ tasks, task.Writes t target)
    (cover : ∀ i < target.length, ∃ task ∈ tasks, task.Covers i) {bins : List Int}
    (length : bins.length = target.length) {order : List Task → List Task}
    (each : ∀ tasks, (order tasks).Perm tasks) (workers : Workers) :
    dispatch t workers order tasks bins = ⟨.ok (), target⟩ := by
  have ordered : ∀ task,
      (task ∈ if workers.parallelism.isParallel then order tasks else tasks) ↔ task ∈ tasks := by
    intro task
    split
    · exact (each _).mem_iff
    · rfl
  rw [dispatch]
  -- Both in order and reordered, the list that runs has the members of the list of tasks.
  refine runTasks_eq ?_ ?_ length
  · intro task member
    exact writes task ((ordered task).mp member)
  · intro i inside
    obtain ⟨task, member, covers⟩ := cover i inside
    exact ⟨task, (ordered task).mpr member, covers⟩

theorem dispatch_chunkTasks (valid : ValidCuts cuts) {size : Nat} (pos : 0 < size)
    {bins : List Int} (length : bins.length = values.length) {order : List Task → List Task}
    (each : ∀ tasks, (order tasks).Perm tasks) (workers : Workers) :
    dispatch t workers order (chunkTasks size values cuts) bins =
      ⟨.ok (), referenceCells t values cuts⟩ := by
  refine dispatch_eq ?_ ?_ ?_ each workers
  · intro task member
    exact (isPart_of_mem_chunkTasks pos member).writes valid
  · intro i inside
    rw [length_referenceCells] at inside
    exact exists_covers pos cuts inside
  · rw [length, length_referenceCells]

end Runs

private theorem length_eq_of_checkLengths {t : BinType} {values cuts bins : Nat}
    (passed : checkLengths t values cuts bins = .ok ()) : values = bins := by
  by_cases lengths : values = bins
  · exact lengths
  · rw [checkLengths, if_pos lengths] at passed
    cases passed

private theorem discretize_of_valid (t : BinType) {values cuts : List Double} (bins : List Int)
    (valid : ValidCuts cuts) :
    discretize t values cuts bins =
      match checkLengths t values.length cuts.length bins.length with
      | .error e => ⟨.error (.rejected e), bins⟩
      | .ok () => ⟨.ok (), referenceCells t values cuts⟩ := by
  rw [discretize, cells_eq valid]
  cases checkLengths t values.length cuts.length bins.length <;> rfl

theorem discretize_of_room {t : BinType} {values cuts : List Double} {bins : List Int}
    (valid : ValidCuts cuts) (room : cuts.length < t.max) (length : bins.length = values.length)
    (fitsValues : FitsMemory 8 values.length) (fitsCuts : FitsMemory 8 cuts.length) :
    discretize t values cuts bins = ⟨.ok (), referenceCells t values cuts⟩ := by
  have passes : checkLengths t values.length cuts.length bins.length = .ok () := by
    rw [checkLengths_eq t fitsValues fitsCuts, if_neg (not_not_intro length.symm),
      if_neg (Nat.not_le.mpr room)]
  rw [discretize_of_valid t bins valid, passes]

theorem discretizeInTasks_of_valid (t : BinType) {values cuts : List Double} (bins : List Int)
    (valid : ValidCuts cuts) (workers : Workers) (minChunk : Nat) {order : List Task → List Task}
    (each : ∀ tasks, (order tasks).Perm tasks) :
    discretizeInTasks t values cuts bins workers minChunk order =
      discretize t values cuts bins := by
  rw [discretize_of_valid t bins valid, discretizeInTasks]
  cases passed : checkLengths t values.length cuts.length bins.length with
  | error e => rfl
  | ok _ =>
    have length := length_eq_of_checkLengths passed
    exact dispatch_chunkTasks valid (chunkLength_pos _ _ _) length.symm each workers

/-- A request with valid cuts has the same result in tasks as at once: the number of threads, the
least length of a task and the order in which the tasks run make no difference, and neither does a
pool of its own. -/
theorem tasks_agree_with_whole_request (t : BinType) {values cuts : List Double} (bins : List Int)
    (valid : ValidCuts cuts) {order : List Task → List Task}
    (each : ∀ tasks, (order tasks).Perm tasks) (minChunk : Nat) :
    (∀ workers : Workers,
      discretizeInTasks t values cuts bins workers minChunk order =
        discretize t values cuts bins) ∧
    ∀ (params : WorkerParams) (ambient : Nat), params.validate = .ok () →
      (params.install ambient fun workers =>
        discretizeInTasks t values cuts bins workers minChunk order) =
          .ok (discretize t values cuts bins) := by
  have agrees : ∀ workers : Workers,
      discretizeInTasks t values cuts bins workers minChunk order =
        discretize t values cuts bins := fun workers =>
    discretizeInTasks_of_valid t bins valid workers minChunk each
  refine ⟨agrees, fun params ambient usable => ?_⟩
  rw [WorkerParams.install, usable]
  exact congrArg Except.ok (agrees _)

theorem tasks_agree_with_whole_request_in_reverse :
    let cuts : List Double := [-3, -2, -1, 0, 1, 2, 3]
    let values : List Double := (List.replicate 16 [.nan, .infinity false, 1, 0.5]).flatten
    let bins : List Int := List.replicate 64 7
    let t : BinType := .signed .w8
    let workers : Workers := ⟨.parallel, 2⟩
    let params : WorkerParams := ⟨2, 1⟩
    ValidCuts cuts ∧ (∀ tasks : List Task, tasks.reverse.Perm tasks) ∧
      Regime.select cuts.length values.length = .padded 16 ∧
      Regime.select cuts.length (chunkLength values.length 1 workers) = .search ∧
      discretizeInTasks t values cuts bins workers 1 List.reverse =
        discretize t values cuts bins ∧
      params.validate = .ok () ∧
      (params.install 4 fun workers =>
        discretizeInTasks t values cuts bins workers 1 List.reverse) =
          .ok (discretize t values cuts bins) := by
  intro cuts values bins t workers params
  have valid : ValidCuts cuts := ⟨by decide, by decide⟩
  have each : ∀ tasks : List Task, tasks.reverse.Perm tasks := List.reverse_perm
  have usable : params.validate = .ok () := rfl
  obtain ⟨agrees, installed⟩ := tasks_agree_with_whole_request t bins valid each 1
  exact ⟨valid, each, by decide, by decide, agrees workers, usable, installed params 4 usable⟩

end Binning

end Boosting
