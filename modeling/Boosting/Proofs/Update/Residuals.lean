/- The result of a squared update.
   A squared update of an acceptable batch adds to each residual, and to the score beside it, the
   cell that the bin of the sample selects. Its metric adds up, from zero on, the squares of the
   moved residuals, each scaled by its weight. -/

import Boosting.Proofs.Update.Samples

set_option autoImplicit false
set_option relaxedAutoImplicit false

namespace Boosting

namespace SquaredMove

def terms (weights gradients : List Single) : List Single :=
  gradients.mapIdx fun i gradient => term weights[i]? gradient

private theorem terms_cons (weights : List Single) (gradient : Single) (gradients : List Single) :
    terms weights (gradient :: gradients) =
      term weights.head? gradient :: terms weights.tail gradients := by
  simp only [terms, List.mapIdx_cons, List.head?_eq_getElem?, List.getElem?_tail]

private theorem foldl_addTerm (metric : Bool) (weights : List Single) (gradient : Single)
    (gradients : List Single) (sum : Double) :
    (if metric then
        ((terms weights.tail gradients).map fun x => x.convert).foldl (· + ·)
          (addTerm metric weights gradient sum)
      else addTerm metric weights gradient sum : Double) =
      if metric then
        ((terms weights (gradient :: gradients)).map fun x => x.convert).foldl (· + ·) sum
      else sum := by
  cases metric with
  | false => rfl
  | true => rw [terms_cons, List.map_cons, List.foldl_cons, addTerm, if_pos rfl, if_pos rfl,
    if_pos rfl]

private theorem run_eq (metric : Bool) {supply : UpdateSupply} (aligned : supply.Aligned)
    {gradients scores : List Single} (enough : gradients.length ≤ supply.pending.length)
    (atMost : scores.length ≤ gradients.length) (weights : List Single) (sum : Double) :
    let moved := gradients.zipWith (· + ·) supply.pending
    run metric supply gradients scores weights sum =
      { gradients := moved
        scores := scores.zipWith (· + ·) supply.pending
        sum :=
          if metric then ((terms weights moved).map fun x => x.convert).foldl (· + ·) sum
          else sum } := by
  induction gradients generalizing supply scores weights sum with
  | nil =>
    obtain rfl := List.eq_nil_of_length_eq_zero (Nat.le_zero.mp atMost)
    cases metric <;> rfl
  | cons gradient gradients ih =>
    -- The scores may run out before the residuals: a buffer that is left out counts as empty.
    rcases UpdateSupply.next_spec aligned with
      ⟨exhausted, -⟩ | ⟨update, after, draws, pending, afterAligned⟩
    · rw [exhausted] at enough
      exact absurd enough (Nat.not_succ_le_zero _)
    · have left : gradients.length ≤ after.pending.length := by
        rw [pending] at enough
        exact Nat.le_of_succ_le_succ enough
      have tail : scores.tail.length ≤ gradients.length := by
        rw [List.length_tail]
        exact Nat.sub_le_of_le_add atMost
      have rest := ih afterAligned left tail weights.tail
        (addTerm metric weights (gradient + update) sum)
      have score : (scores.head?.map (· + update)).toList ++
          scores.tail.zipWith (· + ·) after.pending =
            scores.zipWith (· + ·) (update :: after.pending) := by
        cases scores <;> rfl
      simp only [run, draws, rest, pending, List.zipWith_cons_cons, score, foldl_addTerm]

end SquaredMove

namespace Batch

variable {b : Batch}

private theorem length_scores_le (acceptable : b.Acceptable .squared false) :
    (b.buffers.scores.getD []).length ≤ b.buffers.gradients.length := by
  cases present : b.buffers.scores with
  | none => exact Nat.zero_le _
  | some scores => exact Nat.le_of_eq (acceptable.length_scores present)

private theorem reported_if (b : Batch) (metric other : Double) :
    b.reported (if b.metric then metric else other) = b.reported metric := by
  rw [reported, reported]
  cases b.metric <;> rfl

theorem applySquared_result (acceptable : b.Acceptable .squared false) (nonempty : b.samples ≠ 0) :
    let moved := b.buffers.gradients.zipWith (· + ·) b.updates
    b.applySquared.result =
      { ending := .ok (b.reported (total (SquaredMove.terms (b.weights.getD []) moved)))
        buffers :=
          { b.buffers with
            gradients := moved
            scores := b.buffers.scores.map fun scores => scores.zipWith (· + ·) b.updates } } := by
  have noHessians : b.buffers.hessians = none := by
    by_contra requested
    cases (acceptable.complete nonempty).hessians requested
  obtain ⟨aligned, pending⟩ := supply_spec acceptable nonempty
  have supplied : b.buffers.gradients.length ≤ b.supply.pending.length := by
    rw [pending, length_updates acceptable]
    exact Nat.le_refl _
  have move := SquaredMove.run_eq b.metric aligned supplied (length_scores_le acceptable)
    (b.weights.getD []) (.zero false)
  rw [pending] at move
  have scores :
      (b.buffers.scores.map fun _ => (b.buffers.scores.getD []).zipWith (· + ·) b.updates) =
      b.buffers.scores.map fun scores => scores.zipWith (· + ·) b.updates := by
    cases b.buffers.scores <;> rfl
  rw [applySquared, applyWith_result, acceptable.validate_eq_ok]
  simp only [nonempty, if_false, moveSquared, noHessians, Option.isSome_none, Bool.false_eq_true,
    move, reported_if, scores, total]

end Batch

end Boosting
