/- What a run of updates leaves behind.
   Over a run of steps, whatever their losses, paths, layouts and omissions, the scores keep a
   ledger: each successful step that is given the scores adds the cell that the bin of the sample
   selects, and no other step adds anything. Hessians are touched by steps with a hessian only,
   and gradients that come from scores forget the gradients before them. -/

import Boosting.Proofs.Update.Outcome

set_option autoImplicit false
set_option relaxedAutoImplicit false

namespace Boosting

structure Round where
  loss : Loss
  step : Step

def StepEnding.succeeded : StepEnding → Bool
  | tried (.ok _) => true
  | _ => false

namespace Round

/-- Whether a round with this ending was given the scores and moved them. -/
def posts (round : Round) (ending : StepEnding) : Bool :=
  ending.succeeded && !round.step.omitScores

def cell? (round : Round) (samples i : Nat) : Option Single :=
  match round.step.bins.source with
  | .error _ => none
  | .ok source => (source.bins samples)[i]?.bind fun bin => round.step.tensor[bin]?

def Accepts (round : Round) (t : Training) (source : BinSource) : Prop :=
  (round.step.batch t source).Acceptable (round.step.path.lossOf round.loss)
    (round.step.path.needsScores round.loss)

def result (round : Round) (t : Training) (source : BinSource) : UpdateResult :=
  ((round.step.batch t source).applyBy round.step.path round.loss).result

def givesHessians (round : Round) (t : Training) : Bool :=
  (round.step.path.lossOf round.loss).hasHessian &&
    (Step.passed round.step.omitHessians t.buffers.hessians).isSome

end Round

namespace Training

def samples (t : Training) : Nat :=
  t.buffers.gradients.length

def score? (t : Training) (i : Nat) : Option Single :=
  t.buffers.scores.bind fun scores => scores[i]?

def target? (t : Training) (s : Step) (i : Nat) : Option Single :=
  (s.targets <|> t.targets).bind fun targets => targets[i]?

/-- What a round does to a run. -/
structure Effect (round : Round) (before : Training) (ending : StepEnding) (after : Training) :
    Prop where
  samples : after.samples = before.samples
  targets : after.targets = before.targets
  failed : ending.succeeded = false → after.buffers = before.buffers
  hessians : after.buffers.hessians ≠ before.buffers.hessians →
    ending.succeeded = true ∧ round.givesHessians before = true
  posted : round.posts ending = true → ∀ i score, before.score? i = some score →
    ∃ cell, round.cell? before.samples i = some cell ∧ after.score? i = some (score + cell)
  unposted : round.posts ending = false → after.buffers.scores = before.buffers.scores
  gradients : ending.succeeded = true → round.step.path.needsScores round.loss = true →
    ∀ i < before.samples, ∃ score target, after.score? i = some score ∧
      before.target? round.step i = some target ∧
      after.buffers.gradients[i]? = some (round.loss.gradient
        (if i < before.samples - before.samples % 8 then .packed else .scalar) score target)

private theorem hessians_absorb (t : Training) (after : Buffers) :
    (t.absorb after).buffers.hessians = after.hessians.or t.buffers.hessians := by
  rw [absorb]
  cases after.hessians <;> rfl

private theorem scores_absorb (t : Training) (after : Buffers) :
    (t.absorb after).buffers.scores = after.scores.or t.buffers.scores := by
  rw [absorb]
  cases after.scores <;> rfl

private theorem absorb_batch (t : Training) (s : Step) (source : BinSource) :
    t.absorb (s.batch t source).buffers = t := by
  obtain ⟨⟨gradients, hessians, scores⟩, targets⟩ := t
  simp only [absorb, Step.batch, Step.passed]
  cases s.omitHessians <;> cases s.omitScores <;> cases hessians <;> cases scores <;> rfl

private theorem effect_of_failed (round : Round) (t : Training) {ending : StepEnding}
    (failed : ending.succeeded = false) : Effect round t ending t := by
  refine ⟨rfl, rfl, fun _ => rfl, fun changed => absurd rfl changed, ?_, fun _ => rfl, ?_⟩
  · intro posts
    rw [Round.posts, failed] at posts
    cases posts
  · intro succeeded
    rw [failed] at succeeded
    cases succeeded

section Applied

variable {t : Training} {round : Round} {source : BinSource}

private theorem hessians_applied (acceptable : round.Accepts t source)
    (without : round.givesHessians t = false) :
    (t.absorb (round.result t source).buffers).buffers.hessians = t.buffers.hessians := by
  have handed : (round.step.batch t source).buffers.hessians.or t.buffers.hessians =
      t.buffers.hessians := by
    simp only [Step.batch, Step.passed]
    cases round.step.omitHessians <;> cases t.buffers.hessians <;> rfl
  rw [hessians_absorb]
  cases hasHessian : (round.step.path.lossOf round.loss).hasHessian with
  | false =>
    have stays := Batch.applyBy_hessians_of_not acceptable hasHessian
    rw [Round.result, stays, handed]
  | true =>
    have noHessians : (round.step.batch t source).buffers.hessians = none := by
      simpa [Round.givesHessians, hasHessian, Step.batch] using without
    have stays := (Batch.applyBy_hessians (round.step.batch t source) round.step.path
      round.loss).mpr noHessians
    rw [Round.result, stays, Option.none_or]

private theorem scores_applied (acceptable : round.Accepts t source) :
    (t.absorb (round.result t source).buffers).buffers.scores =
      if round.step.omitScores then t.buffers.scores
      else t.buffers.scores.map fun scores =>
        scores.zipWith (· + ·) (round.step.batch t source).updates := by
  have moved := Batch.applyBy_scores acceptable
  rw [scores_absorb, Round.result, moved]
  simp only [Step.batch, Step.passed]
  cases round.step.omitScores <;> cases t.buffers.scores <;> rfl

private theorem exists_cell (sourced : round.step.bins.source = .ok source)
    (acceptable : round.Accepts t source) {i : Nat} (inside : i < t.samples) :
    ∃ cell, round.cell? t.samples i = some cell ∧
      (round.step.batch t source).updates[i]? = some cell := by
  obtain ⟨bin, cell, hasBin, hasCell, update⟩ := Batch.exists_update acceptable inside
  have ofSource : (source.bins t.samples)[i]? = some bin := hasBin
  refine ⟨cell, ?_, update⟩
  rw [Round.cell?, sourced]
  simp only [ofSource, Option.bind_some]
  exact hasCell

private theorem posted_applied (sourced : round.step.bins.source = .ok source)
    (acceptable : round.Accepts t source) (passed : round.step.omitScores = false) {i : Nat}
    {score : Single} (present : t.score? i = some score) :
    ∃ cell, round.cell? t.samples i = some cell ∧
      (t.absorb (round.result t source).buffers).score? i = some (score + cell) := by
  obtain ⟨scores, hasScores, scoreAt⟩ := Option.bind_eq_some_iff.mp present
  have handed : (round.step.batch t source).buffers.scores = some scores := by
    simp only [Step.batch, Step.passed, passed, hasScores]
    rfl
  have length : scores.length = t.samples := acceptable.length_scores handed
  obtain ⟨inside, -⟩ := List.getElem?_eq_some_iff.mp scoreAt
  rw [length] at inside
  obtain ⟨cell, isCell, update⟩ := exists_cell sourced acceptable inside
  refine ⟨cell, isCell, ?_⟩
  rw [score?, scores_applied acceptable, passed, hasScores]
  simp only [Bool.false_eq_true, if_false, Option.map_some, Option.bind_some, List.getElem?_zipWith,
    scoreAt, update]

private theorem gradients_applied (acceptable : round.Accepts t source)
    (general : round.step.path.needsScores round.loss = true) {i : Nat} (inside : i < t.samples) :
    ∃ score target, (t.absorb (round.result t source).buffers).score? i = some score ∧
      t.target? round.step i = some target ∧
      (round.result t source).buffers.gradients[i]? = some (round.loss.gradient
        (if i < t.samples - t.samples % 8 then .packed else .scalar) score target) := by
  obtain ⟨scores, score, targets, target, hasScores, scoreAt, hasTargets, targetAt, gradient⟩ :=
    Batch.applyBy_gradients acceptable general inside
  refine ⟨score, target, ?_, ?_, gradient⟩
  · rw [score?, scores_absorb, Round.result, hasScores]
    exact scoreAt
  · have handed : (round.step.targets <|> t.targets) = some targets := by
      simp only [Step.batch, Step.passed] at hasTargets
      split at hasTargets
      · cases hasTargets
      · exact hasTargets
    rw [target?, handed]
    exact targetAt

end Applied

/-- What one round does, whatever its loss, its path and its bins. -/
private theorem step_effect (t : Training) (round : Round) :
    Effect round t (step round.loss t round.step).result.1
      (step round.loss t round.step).result.2 := by
  rw [step]
  cases sourced : round.step.bins.source with
  | error e => exact effect_of_failed round t rfl
  | ok source =>
    rcases Batch.accepted_or_rejected (round.step.batch t source) round.step.path round.loss with
      ⟨acceptable, metric, ending⟩ | ⟨e, -, rejected⟩
    · have samples := Batch.applyBy_samples (round.step.batch t source) round.step.path round.loss
      simp only [Noted.map, ending]
      refine ⟨samples, rfl, fun failed => ?_, fun changed => ⟨rfl, ?_⟩, ?_, ?_, ?_⟩
      · cases failed
      · by_contra without
        exact changed (hessians_applied acceptable (Bool.eq_false_iff.mpr without))
      · intro posts i score present
        exact posted_applied sourced acceptable
          (by simpa [Round.posts, StepEnding.succeeded] using posts) present
      · intro posts
        have omitted : round.step.omitScores = true := by
          simpa [Round.posts, StepEnding.succeeded] using posts
        exact (scores_applied acceptable).trans (if_pos omitted)
      · intro _ general i inside
        exact gradients_applied acceptable general inside
    · simp only [Noted.map, rejected, Batch.reject, absorb_batch]
      exact effect_of_failed round t rfl

def play (t : Training) : List Round → List (StepEnding × Training)
  | [] => []
  | round :: rest =>
    let done := (step round.loss t round.step).result
    done :: done.2.play rest

def last (t : Training) (history : List (StepEnding × Training)) : Training :=
  (history.getLast?.map Prod.snd).getD t

def entries (samples i : Nat) (rounds : List Round) (endings : List StepEnding) : List Single :=
  (rounds.zip endings).filterMap fun made =>
    if made.1.posts made.2 then made.1.cell? samples i else none

private theorem run_eq_play (loss : Loss) (t : Training) (steps : List Step) :
    (run loss t steps).result = t.play (steps.map (Round.mk loss)) := by
  induction steps generalizing t with
  | nil => rfl
  | cons s rest ih => exact congrArg ((step loss t s).result :: ·) (ih (step loss t s).result.2)

private theorem length_play (t : Training) (rounds : List Round) :
    (t.play rounds).length = rounds.length := by
  induction rounds generalizing t with
  | nil => rfl
  | cons round rest ih => exact congrArg Nat.succ (ih (step round.loss t round.step).result.2)

private theorem last_cons (t : Training) (done : StepEnding × Training)
    (history : List (StepEnding × Training)) : t.last (done :: history) = done.2.last history := by
  rw [last, last, List.getLast?_cons]
  cases history.getLast? <;> rfl

private theorem entries_cons (samples i : Nat) (round : Round) (rounds : List Round)
    (ending : StepEnding) (endings : List StepEnding) :
    entries samples i (round :: rounds) (ending :: endings) =
      (if round.posts ending then round.cell? samples i else none).toList ++
        entries samples i rounds endings := by
  rw [entries, List.zip_cons_cons, List.filterMap_cons]
  split <;> rename_i posted <;> rw [posted] <;> rfl

private theorem score_last (t : Training) (rounds : List Round) {i : Nat} {score : Single}
    (present : t.score? i = some score) :
    (t.last (t.play rounds)).score? i =
      some ((entries t.samples i rounds ((t.play rounds).map Prod.fst)).foldl (· + ·) score) := by
  induction rounds generalizing t score with
  | nil => exact present
  | cons round rest ih =>
    have effect := step_effect t round
    rw [play, last_cons, List.map_cons, entries_cons, ← effect.samples, List.foldl_append]
    generalize (step round.loss t round.step).result = done at effect ⊢
    refine ih done.2 ?_
    cases posts : round.posts done.1 with
    | true =>
      obtain ⟨cell, isCell, moved⟩ := effect.posted posts i score present
      rw [moved, effect.samples, isCell]
      rfl
    | false =>
      rw [score?, effect.unposted posts]
      exact present

private theorem effect_play (t : Training) (rounds : List Round) {k : Nat} {round : Round}
    {before : Training} {done : StepEnding × Training} (made : rounds[k]? = some round)
    (start : (t :: (t.play rounds).map Prod.snd)[k]? = some before)
    (result : (t.play rounds)[k]? = some done) : Effect round before done.1 done.2 := by
  induction rounds generalizing t k with
  | nil => cases made
  | cons first rest ih =>
    cases k with
    | zero =>
      obtain rfl := Option.some.inj made
      obtain rfl := Option.some.inj start
      obtain rfl := Option.some.inj result
      exact step_effect t first
    | succ k => exact ih (step first.loss t first.step).result.2 made start result

/-- Over any rounds, a score becomes what it was with the posted cells added one after another. The
rounds that post are those that succeed and are given the scores, and they have a cell for every
score. Each round leaves all buffers if it fails, moves hessians only if it has and is given them,
and takes gradients on the general path from the scores and targets alone. -/
theorem scores_keep_ledger (t : Training) (rounds : List Round) :
    (t.play rounds).length = rounds.length ∧
      (∀ i score, t.score? i = some score →
        (t.last (t.play rounds)).score? i =
          some ((entries t.samples i rounds ((t.play rounds).map Prod.fst)).foldl (· + ·) score)) ∧
      (∀ (k : Nat) round before done, rounds[k]? = some round →
        (t :: (t.play rounds).map Prod.snd)[k]? = some before → (t.play rounds)[k]? = some done →
          Effect round before done.1 done.2) ∧
      ∀ loss steps, (run loss t steps).result = t.play (steps.map (Round.mk loss)) := by
  refine ⟨length_play t rounds, ?_, ?_, fun loss steps => run_eq_play loss t steps⟩
  · intro i score present
    exact score_last t rounds present
  · intro k round before done made start result
    exact effect_play t rounds made start result

example :
    let t : Training := ⟨⟨[0, 0], none, some [1, 1]⟩, none⟩
    let moves : Step := ⟨.scalar, [2], none, none, true, .squared, false, false, false⟩
    let rounds : List Round :=
      [⟨.squared, moves⟩, ⟨.logistic, { moves with path := .general }⟩,
        ⟨.squared, { moves with omitScores := true }⟩,
        ⟨.logistic, { moves with path := .general, tensor := [4], targets := some [0, 1] }⟩]
    entries 2 0 rounds ((t.play rounds).map Prod.fst) = [2, 4] ∧
      (t.last (t.play rounds)).score? 0 = some 7 := by
  decide +kernel

end Training

end Boosting
