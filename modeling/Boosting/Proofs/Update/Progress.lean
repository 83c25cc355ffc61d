/- The progress of a general update.
   An update under way has given their new values to the samples before its position and to no
   others, and the supply holds the updates from the position on. A step moves the position past
   the samples it handles: a register past eight of them, a single sample past one. So the
   registers end where the single samples begin, and these end with the last sample. -/

import Boosting.Proofs.Update.Samples

set_option autoImplicit false
set_option relaxedAutoImplicit false

namespace Boosting

variable {loss : Loss} {b : GeneralBuffers} {updates : List Single}

namespace GeneralBuffers

private theorem excerpt_moved {β : Type} (f : MovedSample → β) {start size : Nat}
    (inside : start + size ≤ b.samples) :
    excerpt start size ((b.movedSamples loss updates).map f) =
      (List.range' start size).map fun i => f (b.movedSample loss updates i) := by
  rw [movedSamples, List.map_map, excerpt_map_range inside]
  rfl

private theorem moved_scores (loss : Loss) (fits : b.Fits) (supplied : updates.length = b.samples)
    {start size : Nat} (inside : start + size ≤ b.samples) :
    (excerpt start size b.scores).zipWith (· + ·) (excerpt start size updates) =
      excerpt start size ((b.movedSamples loss updates).map (·.score)) := by
  have scores := fits.scores
  rw [excerpt_moved _ inside, excerpt_eq_map (by omega) default, excerpt_eq_map (by omega) default,
    zipWith_map_range']
  rfl

private theorem moved_by_target {β : Type} (fits : b.Fits) {start size : Nat}
    (inside : start + size ≤ b.samples) (compute : Single → Single → β) (f : MovedSample → β)
    (computes : ∀ i, start ≤ i → i < start + size →
      compute (b.movedSample loss updates i).score (b.targets.getD i default) =
        f (b.movedSample loss updates i)) :
    (excerpt start size ((b.movedSamples loss updates).map (·.score))).zipWith compute
        (excerpt start size b.targets) =
      excerpt start size ((b.movedSamples loss updates).map f) := by
  have targets := fits.targets
  rw [excerpt_moved _ inside, excerpt_moved _ inside, excerpt_eq_map (by omega) default,
    zipWith_map_range']
  apply List.map_congr_left
  intro i member
  obtain ⟨first, before⟩ := List.mem_range'_1.mp member
  exact computes i first before

private theorem moved_gradients (fits : b.Fits) {k : Lanes} {start : Nat}
    (handles : b.Handles k start) :
    (excerpt start k.width ((b.movedSamples loss updates).map (·.score))).zipWith (loss.gradient k)
        (excerpt start k.width b.targets) =
      excerpt start k.width ((b.movedSamples loss updates).map (·.gradient)) := by
  refine moved_by_target fits handles.inside _ _ ?_
  intro i first before
  simp only [movedSample, Loss.moved, handles.lanes i first before]

private theorem moved_derivatives (fits : b.Fits) {k : Lanes} {start : Nat}
    (handles : b.Handles k start) :
    (excerpt start k.width ((b.movedSamples loss updates).map (·.score))).zipWith
        (loss.gradientHessian k) (excerpt start k.width b.targets) =
      excerpt start k.width
        ((b.movedSamples loss updates).map fun sample => (sample.gradient, sample.hessian)) := by
  refine moved_by_target fits handles.inside _ _ ?_
  intro i first before
  simp only [movedSample, Loss.moved, handles.lanes i first before, ← Loss.fst_gradientHessian]

private theorem moved_terms (loss : Loss) (updates : List Single) (fits : b.Fits) {k : Lanes}
    {start : Nat} (handles : b.Handles k start) :
    (if !b.weights.isEmpty then
        ((excerpt start k.width ((b.movedSamples loss updates).map (·.score))).zipWith
          (loss.metric k) (excerpt start k.width b.targets)).zipWith (· * ·)
            (excerpt start k.width b.weights)
      else
        (excerpt start k.width ((b.movedSamples loss updates).map (·.score))).zipWith
          (loss.metric k) (excerpt start k.width b.targets)) =
      excerpt start k.width ((b.movedSamples loss updates).map (·.term)) := by
  have inside := handles.inside
  have targets := fits.targets
  have lanes : ∀ i ∈ List.range' start k.width, b.lanes i = k := by
    intro i member
    obtain ⟨first, before⟩ := List.mem_range'_1.mp member
    exact handles.lanes i first before
  rw [excerpt_moved _ inside, excerpt_moved _ inside,
    excerpt_eq_map (Nat.le_trans inside (Nat.le_of_eq targets.symm)) default, zipWith_map_range']
  cases empty : b.weights.isEmpty with
  | true =>
    have noWeights := List.isEmpty_iff.mp empty
    apply List.map_congr_left
    intro i member
    simp only [movedSample, Loss.moved, lanes i member, noWeights, List.getElem?_nil,
      Option.map_none, Option.getD_none]
  | false =>
    have weights := fits.weights (by simpa using empty)
    rw [Bool.not_false, if_pos rfl, excerpt_eq_map (by omega) default, zipWith_map_range']
    apply List.map_congr_left
    intro i member
    obtain ⟨-, before⟩ := List.mem_range'_1.mp member
    have present : b.weights[i]? = some (b.weights.getD i default) :=
      getElem?_eq_some_getD (by omega) default
    simp only [movedSample, Loss.moved, lanes i member, present, Option.map_some, Option.getD_some]

end GeneralBuffers

private theorem GeneralMove.advance_eq {m : GeneralMove} {k : Lanes} {start : Nat} (metric : Bool)
    (fits : b.Fits) (supplied : updates.length = b.samples) (handles : b.Handles k start)
    (scores : excerpt start k.width m.buffers.scores = excerpt start k.width b.scores)
    (targets : m.buffers.targets = b.targets) (weights : m.buffers.weights = b.weights) :
    let samples := b.movedSamples loss updates
    m.advance k loss (b.wanted metric) (excerpt start k.width updates) start =
      { m with
        buffers :=
          { m.buffers with
            scores := overwrite start (excerpt start k.width (samples.map (·.score)))
              m.buffers.scores
            gradients :=
              overwrite start (excerpt start k.width (samples.map (·.gradient))) m.buffers.gradients
            hessians :=
              if !b.hessians.isEmpty then
                overwrite start (excerpt start k.width (samples.map (·.hessian))) m.buffers.hessians
              else m.buffers.hessians }
        metric := m.metric +
          if metric then (k.sum (excerpt start k.width (samples.map (·.term)))).convert
          else .zero false } := by
  intro samples
  have moved := GeneralBuffers.moved_scores loss fits supplied handles.inside
  have terms := GeneralBuffers.moved_terms loss updates fits handles
  simp only [advance, scores, targets, weights, samples, moved, GeneralBuffers.wanted,
    GeneralBuffers.moved_gradients fits handles, GeneralBuffers.moved_derivatives fits handles,
    map_excerpt, List.map_map, Function.comp_def, ite_self]
  cases metric with
  | false => rfl
  | true =>
    rw [Bool.true_and]
    rw [terms]

/-- An update that has moved the first `done` samples of the buffers `b` and no others. -/
structure Progress (loss : Loss) (metric : Bool) (b : GeneralBuffers) (updates : List Single)
    (done : Nat) (m : GeneralMove) : Prop where
  aligned : m.supply.Aligned
  pending : m.supply.pending = updates.drop done
  slots : m.slots.length = Lanes.widest.width
  scores : m.buffers.scores = splice done ((b.movedSamples loss updates).map (·.score)) b.scores
  targets : m.buffers.targets = b.targets
  gradients : m.buffers.gradients =
    splice done ((b.movedSamples loss updates).map (·.gradient)) b.gradients
  hessians : b.hessians ≠ [] → m.buffers.hessians =
    splice done ((b.movedSamples loss updates).map (·.hessian)) b.hessians
  weights : m.buffers.weights = b.weights
  metric : metric = true →
    m.metric = total (addends (((b.movedSamples loss updates).map (·.term)).take done))

namespace Progress

variable {metric : Bool} {done : Nat} {m : GeneralMove}

theorem initial {supply : UpdateSupply} (aligned : supply.Aligned)
    (pending : supply.pending = updates) :
    Progress loss metric b updates 0 (.initial supply b) := by
  refine ⟨aligned, pending, List.length_replicate, rfl, rfl, rfl, fun _ => rfl, rfl, fun _ => ?_⟩
  rfl

/-- Once the updates of a block are drawn, a step moves the position past the block. -/
private theorem advance (progress : Progress loss metric b updates done m) (fits : b.Fits)
    (supplied : updates.length = b.samples) {k : Lanes} (handles : b.Handles k done)
    {supply : UpdateSupply} {slots : List Single} (aligned : supply.Aligned)
    (pending : supply.pending = updates.drop (done + k.width))
    (full : slots.length = Lanes.widest.width) :
    Progress loss metric b updates (done + k.width)
      ({ m with supply, slots }.advance k loss (b.wanted metric) (excerpt done k.width updates)
        done) := by
  have inside := handles.inside
  have front : ∀ {β : Type} (f : MovedSample → β),
      done + k.width ≤ ((b.movedSamples loss updates).map f).length := by
    intro β f
    rw [List.length_map, GeneralBuffers.length_movedSamples]
    exact inside
  have scores : excerpt done k.width m.buffers.scores = excerpt done k.width b.scores := by
    rw [progress.scores, excerpt_splice (Nat.le_of_add_right_le (front _))]
  rw [GeneralMove.advance_eq (m := { m with supply, slots }) metric fits supplied handles scores
    progress.targets progress.weights]
  refine ⟨aligned, pending, full, ?_, progress.targets, ?_, ?_, progress.weights, ?_⟩
  · rw [progress.scores]
    exact overwrite_splice (front _) _
  · rw [progress.gradients]
    exact overwrite_splice (front _) _
  · intro nonempty
    have present : (!b.hessians.isEmpty) = true := by simpa using nonempty
    rw [if_pos present, progress.hessians nonempty]
    exact overwrite_splice (front _) _
  · intro asked
    have length : ((b.movedSamples loss updates).map (·.term)).length = b.samples := by
      rw [List.length_map, GeneralBuffers.length_movedSamples]
    rw [if_pos asked, progress.metric asked, handles.addends _ length, total_concat]

private theorem length_pending (progress : Progress loss metric b updates done m)
    (supplied : updates.length = b.samples) : m.supply.pending.length = b.samples - done := by
  rw [progress.pending, List.length_drop, supplied]

theorem registers (fits : b.Fits) (supplied : updates.length = b.samples) (count : Nat)
    (progress : Progress loss metric b updates done m) (whole : Lanes.widest.width ∣ done)
    (inside : done + count * Lanes.widest.width ≤ b.body) :
    Progress loss metric b updates (done + count * Lanes.widest.width)
      (.registers loss (b.wanted metric) count done m) := by
  induction count generalizing done m with
  | zero =>
    rw [Nat.zero_mul]
    exact progress
  | succ count ih =>
    have next : done + Lanes.widest.width + count * Lanes.widest.width =
        done + (count + 1) * Lanes.widest.width := by
      rw [Nat.succ_mul]
      omega
    rw [← next] at inside ⊢
    have handles := GeneralBuffers.handles_register whole (Nat.le_of_add_right_le inside)
    -- The register finds an update for each of its slots, and no other is drawn.
    have enough : m.slots.length ≤ m.supply.pending.length := by
      have within := handles.inside
      rw [length_pending progress supplied, progress.slots]
      omega
    obtain ⟨filled, left, aligned⟩ := UpdateSupply.fill_spec progress.aligned enough
    rw [progress.slots, progress.pending] at filled left
    rw [List.drop_drop] at left
    have full : (m.supply.fill m.slots).1.length = Lanes.widest.width := by
      rw [filled]
      exact length_excerpt (by rw [supplied]; exact handles.inside)
    have advanced := progress.advance fits supplied handles aligned left full
    rw [GeneralMove.registers]
    refine ih ?_ (Nat.dvd_add whole (Nat.dvd_refl _)) inside
    rw [excerpt, ← filled] at advanced
    exact advanced

theorem singles (fits : b.Fits) (supplied : updates.length = b.samples) (count : Nat)
    (progress : Progress loss metric b updates done m) (past : b.body ≤ done)
    (inside : done + count ≤ b.samples) :
    Progress loss metric b updates (done + count)
      (.singles loss (b.wanted metric) count done m) := by
  induction count generalizing done m with
  | zero => exact progress
  | succ count ih =>
    have handles := GeneralBuffers.handles_single past (Nat.lt_of_succ_le (by omega))
    have next : done + Lanes.scalar.width + count = done + (count + 1) :=
      Nat.add_right_comm done 1 count
    rw [← next] at inside ⊢
    rcases UpdateSupply.next_spec progress.aligned with
      ⟨exhausted, -⟩ | ⟨update, after, draws, pending, aligned⟩
    · have left := length_pending progress supplied
      rw [exhausted, List.length_nil] at left
      have within := handles.inside
      have width : Lanes.scalar.width = 1 := rfl
      omega
    · rw [progress.pending] at pending
      have alone : excerpt done Lanes.scalar.width updates = [update] := by
        rw [excerpt, pending]
        rfl
      have left : after.pending = updates.drop (done + Lanes.scalar.width) := by
        rw [← List.drop_drop, pending]
        rfl
      have advanced := progress.advance fits supplied handles aligned left progress.slots
      rw [GeneralMove.singles, draws]
      refine ih ?_ (Nat.le_add_right_of_le past) inside
      rw [alone] at advanced
      exact advanced

theorem run (fits : b.Fits) (supplied : updates.length = b.samples) {supply : UpdateSupply}
    (aligned : supply.Aligned) (pending : supply.pending = updates) :
    Progress loss metric b updates b.samples (.run loss metric supply b) := by
  have whole : Lanes.widest.width ∣ b.body := Nat.dvd_sub_mod _
  have start : Progress loss metric b updates 0 (.initial supply b) := initial aligned pending
  have body : 0 + b.body / Lanes.widest.width * Lanes.widest.width = b.body := by
    rw [Nat.zero_add, Nat.div_mul_cancel whole]
  have registered := start.registers fits supplied (b.body / Lanes.widest.width) (Nat.dvd_zero _)
    (Nat.le_of_eq body)
  rw [body] at registered
  have rest : b.body + (b.samples - b.body) = b.samples := Nat.add_sub_of_le b.body_le
  have finished := registered.singles fits supplied (b.samples - b.body) (Nat.le_refl _)
    (Nat.le_of_eq rest)
  rw [rest] at finished
  exact finished

theorem finished (fits : b.Fits) (progress : Progress loss metric b updates b.samples m) :
    m.buffers.scores = (b.movedSamples loss updates).map (·.score) ∧
      m.buffers.gradients = (b.movedSamples loss updates).map (·.gradient) ∧
      (b.hessians ≠ [] → m.buffers.hessians = (b.movedSamples loss updates).map (·.hessian)) ∧
      (metric = true →
        m.metric = total (addends ((b.movedSamples loss updates).map (·.term)))) := by
  have length : ∀ {β : Type} (f : MovedSample → β),
      ((b.movedSamples loss updates).map f).length = b.samples := by
    intro β f
    rw [List.length_map, GeneralBuffers.length_movedSamples]
  refine ⟨?_, ?_, ?_, ?_⟩
  · rw [progress.scores]
    exact splice_length (length _) fits.scores
  · rw [progress.gradients]
    exact splice_length (length _) rfl
  · intro nonempty
    rw [progress.hessians nonempty]
    exact splice_length (length _) (fits.hessians nonempty)
  · intro asked
    rw [progress.metric asked, List.take_of_length_le (Nat.le_of_eq (length _))]

end Progress

end Boosting
