/- What each task of a request is handed.
   The tasks take consecutive parts of the values, no more than a few for each thread. All parts
   but the last have the same length, which is no less than asked for. The last part is what
   remains, and nothing keeps the remainder from being shorter. -/

import Boosting.Proofs.Binning.Division

set_option autoImplicit false
set_option relaxedAutoImplicit false

namespace Boosting

namespace Binning

/-- The tasks take the values part after part, and no two of them write the same cell. -/
structure Divides (values : List Double) (tasks : List Task) : Prop where
  first : tasks.head?.map Task.start = some 0
  consecutive : ∀ j task next, tasks[j]? = some task → tasks[j + 1]? = some next →
    next.start = task.start + task.values.length
  disjoint : tasks.Pairwise fun task later => ∀ i, task.Covers i → ¬ later.Covers i
  covering : ∀ i < values.length, ∃ task ∈ tasks, task.Covers i
  joined : (tasks.map Task.values).flatten = values
  inhabited : ∀ task ∈ tasks, task.values ≠ []

section Parts

variable {size : Nat} (pos : 0 < size) (values cuts : List Double)

include pos

private theorem getElem?_chunkTasks (j : Nat) :
    (chunkTasks size values cuts)[j]? =
      if j * size < values.length then
        some ⟨j * size, excerpt (j * size) size values, cuts⟩
      else none := by
  rw [chunkTasks, List.getElem?_map, List.getElem?_zipIdx, getElem?_segments pos]
  split <;> simp

private theorem length_chunkTasks :
    (chunkTasks size values cuts).length = (values.length + (size - 1)) / size := by
  rw [chunkTasks, List.length_map, List.length_zipIdx, length_segments pos]

private theorem eq_of_getElem?_chunkTasks {j : Nat} {task : Task}
    (found : (chunkTasks size values cuts)[j]? = some task) :
    task.start = j * size ∧ j * size < values.length ∧
      task.values.length = min size (values.length - j * size) := by
  rw [getElem?_chunkTasks pos] at found
  split at found
  · rename_i inside
    obtain rfl := Option.some.inj found
    exact ⟨rfl, inside, length_excerpt_eq_min _ _ _⟩
  · cases found

private theorem flatten_chunkTasks :
    ((chunkTasks size values cuts).map Task.values).flatten = values := by
  have parts : (chunkTasks size values cuts).map Task.values = segments size values := by
    rw [chunkTasks, List.map_map]
    exact List.zipIdx_map_fst 0 _
  rw [parts, flatten_segments pos]

private theorem divides_chunkTasks (nonempty : values ≠ []) :
    Divides values (chunkTasks size values cuts) := by
  have filled : 0 < values.length := List.length_pos_iff.mpr nonempty
  refine ⟨?_, ?_, ?_, ?_, flatten_chunkTasks pos values cuts, ?_⟩
  · rw [List.head?_eq_getElem?, getElem?_chunkTasks pos, if_pos (by omega), Option.map_some]
    exact congrArg _ (Nat.zero_mul size)
  · intro j task next found follows
    obtain ⟨start, -, length⟩ := eq_of_getElem?_chunkTasks pos values cuts found
    obtain ⟨later, inside, -⟩ := eq_of_getElem?_chunkTasks pos values cuts follows
    rw [Nat.succ_mul] at later inside
    omega
  · rw [List.pairwise_iff_getElem]
    intro j l inside within before i covered again
    obtain ⟨start, -, length⟩ :=
      eq_of_getElem?_chunkTasks pos values cuts (List.getElem?_eq_getElem inside)
    obtain ⟨later, -, -⟩ :=
      eq_of_getElem?_chunkTasks pos values cuts (List.getElem?_eq_getElem within)
    have apart : (j + 1) * size ≤ l * size := Nat.mul_le_mul_right size before
    rw [Nat.succ_mul] at apart
    have past := covered.2
    have reached := again.1
    omega
  · intro i inside
    exact exists_covers pos cuts inside
  · intro task member empty
    obtain ⟨j, found⟩ := List.mem_iff_getElem?.mp member
    obtain ⟨-, inside, length⟩ := eq_of_getElem?_chunkTasks pos values cuts found
    rw [empty, List.length_nil] at length
    omega

private theorem length_of_mem_dropLast {task : Task}
    (member : task ∈ (chunkTasks size values cuts).dropLast) : task.values.length = size := by
  obtain ⟨j, inside, rfl⟩ := List.mem_iff_getElem.mp member
  rw [List.length_dropLast] at inside
  have follows : j + 1 < (chunkTasks size values cuts).length := by omega
  obtain ⟨-, within, -⟩ :=
    eq_of_getElem?_chunkTasks pos values cuts (List.getElem?_eq_getElem follows)
  obtain ⟨-, -, length⟩ :=
    eq_of_getElem?_chunkTasks pos values cuts (List.getElem?_eq_getElem (Nat.lt_of_succ_lt follows))
  rw [Nat.succ_mul] at within
  rw [List.getElem_dropLast, length]
  omega

private theorem forall_least_le_iff {minChunk : Nat} (least : minChunk ≤ size) :
    (∀ task ∈ chunkTasks size values cuts, min values.length minChunk ≤ task.values.length) ↔
      values.length ≤ size ∨ values.length % size = 0 ∨ minChunk ≤ values.length % size := by
  have whole : values.length / size * size + values.length % size = values.length :=
    Nat.div_add_mod' _ _
  have remainder : values.length % size < size := Nat.mod_lt _ pos
  constructor
  · intro enough
    by_cases short : values.length ≤ size ∨ values.length % size = 0
    · omega
    · have found := getElem?_chunkTasks pos values cuts (values.length / size)
      rw [if_pos (by omega)] at found
      obtain ⟨-, -, length⟩ := eq_of_getElem?_chunkTasks pos values cuts found
      have last := enough _ (List.mem_of_getElem? found)
      omega
  · intro ample task member
    obtain ⟨j, found⟩ := List.mem_iff_getElem?.mp member
    obtain ⟨-, inside, length⟩ := eq_of_getElem?_chunkTasks pos values cuts found
    rw [length]
    have most : j ≤ values.length / size := (Nat.le_div_iff_mul_le pos).mpr (Nat.le_of_lt inside)
    rcases Nat.lt_or_eq_of_le most with before | rfl
    · -- A full part is left, unless there is only one part at all.
      have full : (j + 1) * size ≤ values.length / size * size := Nat.mul_le_mul_right size before
      rw [Nat.succ_mul] at full
      omega
    · rcases Nat.eq_zero_or_pos (values.length / size) with first | later
      · rw [first, Nat.zero_mul] at inside whole ⊢
        omega
      · have longer : size ≤ values.length / size * size := Nat.le_mul_of_pos_left size later
        omega

end Parts

section Lengths

variable (values minChunk : Nat) (workers : Workers)

private theorem least_le_chunkLength : minChunk ≤ chunkLength values minChunk workers := by
  rw [chunkLength]
  split <;> omega

private theorem le_chunkLength_of_sequential (alone : workers.parallelism = .sequential) :
    values ≤ chunkLength values minChunk workers := by
  rw [chunkLength, alone]
  exact Nat.le_max_left _ _

private theorem le_mul_chunkLength (threads : 0 < workers.threads) :
    values ≤ 4 * workers.threads * chunkLength values minChunk workers := by
  cases mode : workers.parallelism with
  | sequential =>
    have all := le_chunkLength_of_sequential values minChunk workers mode
    exact Nat.le_trans all (Nat.le_mul_of_pos_left _ (by omega))
  | parallel =>
    have parts : 0 < workers.threads * 4 := by omega
    have share : (values + (workers.threads * 4 - 1)) / (workers.threads * 4) ≤
        chunkLength values minChunk workers := by
      rw [chunkLength, mode]
      exact Nat.le_max_left _ _
    have enough := (Nat.div_le_iff_le_mul parts).mp share
    rw [Nat.mul_comm 4, Nat.mul_comm]
    omega

end Lengths

/-- An accepted request runs tasks that divide the values among them, at most four for each thread
and a single one without threads. Every task that another one follows has as many values as asked
for; all tasks have, unless there are several and the remainder is shorter. -/
theorem tasks_divide_values {values : List Double} (nonempty : values ≠ []) (cuts : List Double)
    (minChunk : Nat) {workers : Workers} (threads : 0 < workers.threads) :
    let size := chunkLength values.length minChunk workers
    let tasks := chunkTasks size values cuts
    (∀ (t : BinType) (bins : List Int) (order : List Task → List Task),
      checkLengths t values.length cuts.length bins.length = .ok () →
        discretizeInTasks t values cuts bins workers minChunk order =
          dispatch t workers order tasks bins) ∧
    Divides values tasks ∧
    tasks.length ≤ 4 * workers.threads ∧
    (workers.parallelism = .sequential → tasks.length = 1) ∧
    (∀ task ∈ tasks.dropLast, minChunk ≤ task.values.length) ∧
    ((∀ task ∈ tasks, min values.length minChunk ≤ task.values.length) ↔
      values.length ≤ size ∨ values.length % size = 0 ∨ minChunk ≤ values.length % size) := by
  intro size tasks
  have pos : 0 < size := chunkLength_pos _ _ _
  have filled : 0 < values.length := List.length_pos_iff.mpr nonempty
  have least : minChunk ≤ size := least_le_chunkLength _ _ _
  have count : tasks.length = (values.length + (size - 1)) / size :=
    length_chunkTasks pos values cuts
  refine ⟨?_, divides_chunkTasks pos values cuts nonempty, ?_, ?_, ?_,
    forall_least_le_iff pos values cuts least⟩
  · intro t bins order passed
    rw [discretizeInTasks, passed]
  · have enough : values.length ≤ 4 * workers.threads * size :=
      le_mul_chunkLength values.length minChunk workers threads
    rw [count]
    exact (Nat.div_le_iff_le_mul pos).mpr (by omega)
  · intro alone
    have all : values.length ≤ size := le_chunkLength_of_sequential _ _ _ alone
    rw [count]
    exact Nat.div_eq_of_lt_le (by omega) (by omega)
  · intro task member
    rw [length_of_mem_dropLast pos values cuts member]
    exact least

theorem tasks_divide_nine_values :
    let values : List Double := List.replicate 9 0.5
    let t : BinType := .unsigned .w8
    let bins : List Int := List.replicate 9 0
    let workers : Workers := ⟨.parallel, 1⟩
    let tasks := chunkTasks (chunkLength 9 4 workers) values [1]
    values ≠ [] ∧ 0 < workers.threads ∧ checkLengths t 9 1 9 = .ok () ∧
      discretizeInTasks t values [1] bins workers 4 List.reverse =
        dispatch t workers List.reverse tasks bins ∧
      Divides values tasks ∧ tasks.length ≤ 4 ∧ (∀ task ∈ tasks.dropLast, 4 ≤ task.values.length) ∧
      ¬ ∀ task ∈ tasks, 4 ≤ task.values.length := by
  intro values t bins workers tasks
  have nonempty : values ≠ [] := List.cons_ne_nil _ _
  have threads : 0 < workers.threads := Nat.one_pos
  have passed : checkLengths t 9 1 9 = .ok () := rfl
  obtain ⟨runs, divided, atMost, -, full, every⟩ := tasks_divide_values nonempty [1] 4 threads
  refine ⟨nonempty, threads, passed, runs t bins List.reverse passed, divided, atMost, full,
    fun enough => ?_⟩
  exact absurd (every.mp enough) (by decide)

/-- So a task may be handed fewer values than asked for although there are enough: of five values in
parts of three, two remain. -/
theorem not_forall_least_le :
    ¬ ∀ (values cuts : List Double) (minChunk : Nat) (workers : Workers), values ≠ [] →
      0 < minChunk → 0 < workers.threads →
        ∀ task ∈ chunkTasks (chunkLength values.length minChunk workers) values cuts,
          min values.length minChunk ≤ task.values.length := by
  intro every
  have each := every (List.replicate 5 0.5) [1] 3 ⟨.parallel, 4⟩ (List.cons_ne_nil _ _) (by decide)
    (by decide)
  revert each
  decide

end Binning

end Boosting
