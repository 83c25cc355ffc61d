/- Updates of parts of the samples.
   A part of a batch has its share of every buffer, and its bins are packed on their own.
   Updating it leaves its share of what updating the whole batch leaves, if each of its samples
   is handled by the lanes that handle it in the whole batch, or if the loss is the same on all
   lanes. The first samples keep their lanes if they fill registers, and then so do the others. -/

import Boosting.Proofs.Update.Outcome

set_option autoImplicit false
set_option relaxedAutoImplicit false

namespace Boosting

namespace BinSource

/-- A source of some of the bins of another one: they are packed again, or the source was scalar. -/
def Repacks (part whole : BinSource) (bins : List Nat) : Prop :=
  match part with
  | scalar => whole = .scalar
  | packed words items => Packing.pack bins items = .ok words

variable {part whole : BinSource} {samples start size : Nat}

private theorem bins_of_repacks
    (repacks : part.Repacks whole (excerpt start size (whole.bins samples)))
    (length : (whole.bins samples).length = samples) (inside : start + size ≤ samples) :
    part.bins size = excerpt start size (whole.bins samples) := by
  have share : (excerpt start size (whole.bins samples)).length = size :=
    length_excerpt (by omega)
  cases part with
  | scalar =>
    have isScalar : whole = .scalar := repacks
    subst isScalar
    rw [bins, bins, excerpt, List.drop_replicate, List.take_replicate]
    congr 1
    omega
  | packed words items =>
    have unpacked := Packing.unpack_of_pack repacks
    rw [share] at unpacked
    exact unpacked

end BinSource

section Parts

variable {α β γ : Type}

private theorem excerpt_zipWith (combine : α → β → γ) (start size : Nat) (xs : List α)
    (ys : List β) :
    excerpt start size (xs.zipWith combine ys) =
      (excerpt start size xs).zipWith combine (excerpt start size ys) := by
  simp only [excerpt, List.drop_zipWith, List.take_zipWith]

private theorem getD_excerpt {start size i : Nat} (inside : i < size) (xs : List α) (missing : α) :
    (excerpt start size xs).getD i missing = xs.getD (start + i) missing := by
  rw [List.getD_eq_getElem?_getD, List.getD_eq_getElem?_getD, getElem?_excerpt, if_pos inside]

private theorem getD_map_excerpt (start size : Nat) (buffer : Option (List α)) :
    (buffer.map (excerpt start size)).getD [] = excerpt start size (buffer.getD []) := by
  cases buffer with
  | none => simp [excerpt]
  | some xs => rfl

private theorem take_append_rest {size : Nat} {xs : List α} (length : xs.length = size)
    (count : Nat) :
    excerpt 0 count xs ++ excerpt count (size - count) xs = xs := by
  have rest : (xs.drop count).take (size - count) = xs.drop count := by
    apply List.take_of_length_le
    rw [List.length_drop, length]
  rw [excerpt, excerpt, List.drop_zero, rest, List.take_append_drop]

end Parts

namespace Buffers

def part (start size : Nat) (b : Buffers) : Buffers where
  gradients := excerpt start size b.gradients
  hessians := b.hessians.map (excerpt start size)
  scores := b.scores.map (excerpt start size)

def append (first second : Buffers) : Buffers where
  gradients := first.gradients ++ second.gradients
  hessians := first.hessians.bind fun xs => second.hessians.map (xs ++ ·)
  scores := first.scores.bind fun xs => second.scores.map (xs ++ ·)

private theorem append_part {b : Buffers} {samples : Nat} (gradients : b.gradients.length = samples)
    (hessians : ∀ xs ∈ b.hessians, xs.length = samples)
    (scores : ∀ xs ∈ b.scores, xs.length = samples) (count : Nat) :
    (b.part 0 count).append (b.part count (samples - count)) = b := by
  have joined : ∀ buffer : Option (List Single), (∀ xs ∈ buffer, xs.length = samples) →
      ((buffer.map (excerpt 0 count)).bind fun xs =>
        (buffer.map (excerpt count (samples - count))).map (xs ++ ·)) = buffer := by
    intro buffer length
    cases buffer with
    | none => rfl
    | some xs => exact congrArg some (take_append_rest (length xs rfl) count)
  rw [append, part, part]
  simp only [take_append_rest gradients, joined b.hessians hessians, joined b.scores scores]

end Buffers

namespace GeneralBuffers

def part (start size : Nat) (b : GeneralBuffers) : GeneralBuffers where
  scores := excerpt start size b.scores
  targets := excerpt start size b.targets
  gradients := excerpt start size b.gradients
  hessians := excerpt start size b.hessians
  weights := excerpt start size b.weights

/-- The samples of a part are handled by their lanes in the whole, or the loss is the same on all
lanes. -/
def KeepsLanes (loss : Loss) (samples start size : Nat) : Prop :=
  loss = .squared ∨ ∀ i < size, (i < size - size % 8 ↔ start + i < samples - samples % 8)

private theorem keepsLanes_front {loss : Loss} {samples count : Nat} (below : count ≤ samples)
    (aligned : loss = .squared ∨ 8 ∣ count) : KeepsLanes loss samples 0 count := by
  refine aligned.imp_right fun whole i inside => ?_
  omega

private theorem keepsLanes_rest {loss : Loss} {samples count : Nat} (below : count ≤ samples)
    (aligned : loss = .squared ∨ 8 ∣ count) :
    KeepsLanes loss samples count (samples - count) := by
  refine aligned.imp_right fun whole i inside => ?_
  omega

variable {b : GeneralBuffers} {start size : Nat} {loss : Loss}

private theorem samples_part (inside : start + size ≤ b.samples) :
    (b.part start size).samples = size :=
  length_excerpt inside

private theorem movedSample_part (inside : start + size ≤ b.samples)
    (keeps : KeepsLanes loss b.samples start size) (updates : List Single) {i : Nat}
    (below : i < size) :
    (b.part start size).movedSample loss (excerpt start size updates) i =
      b.movedSample loss updates (start + i) := by
  have weight : (excerpt start size b.weights)[i]? = b.weights[start + i]? := by
    rw [getElem?_excerpt, if_pos below]
  rw [movedSample, movedSample]
  simp only [part, getD_excerpt below, weight]
  rcases keeps with rfl | same
  · rfl
  · have lanes : (b.part start size).lanes i = b.lanes (start + i) := by
      rw [lanes, lanes, body, body, samples_part inside]
      exact if_congr (same i below) rfl rfl
    rw [← lanes, part]

private theorem movedSamples_part (inside : start + size ≤ b.samples)
    (keeps : KeepsLanes loss b.samples start size) (updates : List Single) :
    (b.part start size).movedSamples loss (excerpt start size updates) =
      excerpt start size (b.movedSamples loss updates) := by
  rw [movedSamples, movedSamples, samples_part inside, excerpt_map_range inside,
    List.range'_eq_map_range, List.map_map]
  apply List.map_congr_left
  intro i member
  exact movedSample_part inside keeps updates (List.mem_range.mp member)

end GeneralBuffers

namespace Batch

def part (b : Batch) (start size : Nat) (source : BinSource) : Batch :=
  { b with
    source
    buffers := b.buffers.part start size
    targets := b.targets.map (excerpt start size)
    weights := b.weights.map (excerpt start size) }

variable {b : Batch} {start size : Nat} {source : BinSource}

private theorem samples_part (inside : start + size ≤ b.samples) (source : BinSource) :
    (b.part start size source).samples = size :=
  length_excerpt inside

private theorem forall_mem_map_excerpt {samples : Nat} {buffer : Option (List Single)}
    (inside : start + size ≤ samples) (lengths : ∀ xs ∈ buffer, xs.length = samples) :
    ∀ xs ∈ buffer.map (excerpt start size), xs.length = size := by
  intro xs member
  obtain ⟨whole, present, rfl⟩ := Option.mem_map.mp member
  have length := lengths whole present
  exact length_excerpt (by omega)

private theorem acceptable_part {loss : Loss} {needsScores : Bool}
    (acceptable : b.Acceptable loss needsScores) (inside : start + size ≤ b.samples)
    (repacks : source.Repacks b.source (excerpt start size (b.source.bins b.samples))) :
    (b.part start size source).Acceptable loss needsScores := by
  have samples := samples_part inside source
  obtain ⟨length, cells⟩ := acceptable.bins_lt
  obtain ⟨hessians, scores, targets, weights⟩ :=
    (b.forall_optionalBuffers_iff _).mp acceptable.lengths
  constructor
  · rw [samples]
    exact (forall_optionalBuffers_iff _ _).mpr ⟨forall_mem_map_excerpt inside hessians,
      forall_mem_map_excerpt inside scores, forall_mem_map_excerpt inside targets,
      forall_mem_map_excerpt inside weights⟩
  · intro nonempty
    rw [samples] at nonempty
    have complete := acceptable.complete (by omega)
    refine ⟨complete.tensor, ?_, ?_, ?_, ?_⟩
    · rw [samples]
      cases source with
      | scalar => exact trivial
      | packed words items =>
        have covers := BinSource.covers_of_pack repacks fun bin member =>
          cells bin (List.mem_of_mem_drop (List.mem_of_mem_take member))
        rw [length_excerpt (by rw [length]; exact inside)] at covers
        exact covers
    · intro requested
      exact complete.hessians (mt Option.map_eq_none_iff.mpr requested)
    · intro needed
      exact mt Option.map_eq_none_iff.mp (complete.scores needed)
    · intro needed
      exact mt Option.map_eq_none_iff.mp (complete.targets needed)

private theorem updates_part {loss : Loss} {needsScores : Bool}
    (acceptable : b.Acceptable loss needsScores) (inside : start + size ≤ b.samples)
    (repacks : source.Repacks b.source (excerpt start size (b.source.bins b.samples))) :
    (b.part start size source).updates = excerpt start size b.updates := by
  have bins := BinSource.bins_of_repacks repacks acceptable.bins_lt.1 inside
  rw [updates, updates, samples_part inside, ← map_excerpt, ← bins]
  rfl

private theorem generalBuffers_part (b : Batch) (start size : Nat) (source : BinSource)
    (scores targets : List Single) :
    (b.part start size source).generalBuffers (excerpt start size scores)
        (excerpt start size targets) = (b.generalBuffers scores targets).part start size := by
  simp only [generalBuffers, part, Buffers.part, GeneralBuffers.part, getD_map_excerpt]

private theorem applySquared_part (acceptable : b.Acceptable .squared false) (pos : 0 < size)
    (inside : start + size ≤ b.samples)
    (repacks : source.Repacks b.source (excerpt start size (b.source.bins b.samples))) :
    (b.part start size source).applySquared.result.buffers =
      b.applySquared.result.buffers.part start size := by
  have nonempty : (b.part start size source).samples ≠ 0 := by
    rw [samples_part inside]
    omega
  rw [applySquared_result (acceptable_part acceptable inside repacks) nonempty,
    applySquared_result acceptable (by omega), updates_part acceptable inside repacks]
  simp only [part, Buffers.part, excerpt_zipWith, Option.map_map, Function.comp_def]

private theorem applyGeneral_part {loss : Loss} (acceptable : b.Acceptable loss true)
    (pos : 0 < size) (inside : start + size ≤ b.samples)
    (repacks : source.Repacks b.source (excerpt start size (b.source.bins b.samples)))
    (keeps : GeneralBuffers.KeepsLanes loss b.samples start size) :
    ((b.part start size source).applyGeneral loss).result.buffers =
      (b.applyGeneral loss).result.buffers.part start size := by
  have nonempty : (b.part start size source).samples ≠ 0 := by
    rw [samples_part inside]
    omega
  obtain ⟨scores, targets, hasScores, hasTargets⟩ := acceptable.exists_scores (by omega)
  have partScores : (b.part start size source).buffers.scores = some (excerpt start size scores) :=
    congrArg (Option.map _) hasScores
  have partTargets : (b.part start size source).targets = some (excerpt start size targets) :=
    congrArg (Option.map _) hasTargets
  have samples :=
    GeneralBuffers.movedSamples_part (b := b.generalBuffers scores targets) inside keeps
      b.updates
  rw [applyGeneral_result (acceptable_part acceptable inside repacks) nonempty
      partScores partTargets,
    applyGeneral_result acceptable (by omega) hasScores hasTargets, generalBuffers_part,
    updates_part acceptable inside repacks, samples]
  simp only [part, Buffers.part, map_excerpt, Option.map_map, Function.comp_def, Option.map_some]

private theorem applyBy_part {path : UpdatePath} {loss : Loss}
    (acceptable : b.Acceptable (path.lossOf loss) (path.needsScores loss)) (pos : 0 < size)
    (inside : start + size ≤ b.samples)
    (repacks : source.Repacks b.source (excerpt start size (b.source.bins b.samples)))
    (keeps : path.needsScores loss = true → GeneralBuffers.KeepsLanes loss b.samples start size) :
    ((b.part start size source).applyBy path loss).result.buffers =
      (b.applyBy path loss).result.buffers.part start size := by
  rcases squared_or_general path loss with
    ⟨needsScores, lossOf, isSquared⟩ | ⟨needsScores, lossOf, isGeneral⟩
  · rw [needsScores, lossOf] at acceptable
    rw [isSquared, isSquared]
    exact applySquared_part acceptable pos inside repacks
  · rw [needsScores, lossOf] at acceptable
    rw [isGeneral, isGeneral]
    exact applyGeneral_part acceptable pos inside repacks (keeps needsScores)

/-- An acceptable batch that is cut behind `count` samples, with the bins of both parts packed
again, is accepted in both parts, and their updates together leave exactly the buffers of the whole
update. Squared updates and the squared loss allow every cut, the other losses those at full
registers. -/
theorem parts_update_like_whole (b : Batch) (path : UpdatePath) (loss : Loss) {count : Nat}
    {first second : BinSource}
    (acceptable : b.Acceptable (path.lossOf loss) (path.needsScores loss)) (pos : 0 < count)
    (below : count < b.samples)
    (aligned : path = .squared ∨ loss = .squared ∨ 8 ∣ count)
    (repacksFirst : first.Repacks b.source (excerpt 0 count (b.source.bins b.samples)))
    (repacksSecond : second.Repacks b.source
      (excerpt count (b.samples - count) (b.source.bins b.samples))) :
    let front := b.part 0 count first
    let rest := b.part count (b.samples - count) second
    (∃ metric, (front.applyBy path loss).result.ending = .ok metric) ∧
      (∃ metric, (rest.applyBy path loss).result.ending = .ok metric) ∧
      (front.applyBy path loss).result.buffers.append (rest.applyBy path loss).result.buffers =
        (b.applyBy path loss).result.buffers := by
  intro front rest
  have insideFront : 0 + count ≤ b.samples := by omega
  have insideRest : count + (b.samples - count) ≤ b.samples := by omega
  have cut : path.needsScores loss = true → loss = .squared ∨ 8 ∣ count := by
    intro general
    rcases aligned with rfl | either
    · cases general
    · exact either
  have frontBuffers := applyBy_part acceptable pos insideFront repacksFirst
    fun general => GeneralBuffers.keepsLanes_front (by omega) (cut general)
  have restBuffers := applyBy_part acceptable (by omega) insideRest repacksSecond
    fun general => GeneralBuffers.keepsLanes_rest (by omega) (cut general)
  obtain ⟨_, frontEnds⟩ :=
    ending_of_acceptable (acceptable_part acceptable insideFront repacksFirst)
  obtain ⟨_, restEnds⟩ := ending_of_acceptable (acceptable_part acceptable insideRest repacksSecond)
  obtain ⟨hessians, scores⟩ := applyBy_lengths acceptable
  refine ⟨⟨_, frontEnds⟩, ⟨_, restEnds⟩, ?_⟩
  rw [frontBuffers, restBuffers]
  exact Buffers.append_part (applyBy_samples b path loss) hessians scores count

theorem parts_of_nine_samples_update_like_whole :
    let residuals : Batch :=
      { nineSamples with buffers := { nineSamples.buffers with hessians := none } }
    let register : BinSource := .packed [1, 0x40000000001, 0x200000] 3
    let single : BinSource := .packed [1] 64
    let three : BinSource := .packed [0x201] 7
    let six : BinSource := .packed [0x1041] 20
    nineSamples.Acceptable .logistic true ∧ residuals.Acceptable .squared true ∧
      8 ∣ 8 ∧ ¬ 8 ∣ 3 ∧
      register.Repacks nineSamples.source (excerpt 0 8 (nineSamples.source.bins 9)) ∧
      single.Repacks nineSamples.source (excerpt 8 1 (nineSamples.source.bins 9)) ∧
      three.Repacks residuals.source (excerpt 0 3 (residuals.source.bins 9)) ∧
      six.Repacks residuals.source (excerpt 3 6 (residuals.source.bins 9)) ∧
      ((nineSamples.part 0 8 register).applyBy .ofLoss .logistic).result.buffers.append
          ((nineSamples.part 8 1 single).applyBy .ofLoss .logistic).result.buffers =
        (nineSamples.applyBy .ofLoss .logistic).result.buffers ∧
      ((residuals.part 0 3 three).applyBy .general .squared).result.buffers.append
          ((residuals.part 3 6 six).applyBy .general .squared).result.buffers =
        (residuals.applyBy .general .squared).result.buffers := by
  intro residuals register single three six
  have acceptable : nineSamples.Acceptable .logistic true :=
    (checks_hold_iff nineSamples .logistic true).mp (by decide)
  have acceptableResiduals : residuals.Acceptable .squared true :=
    (checks_hold_iff residuals .squared true).mp (by decide)
  have first : register.Repacks nineSamples.source (excerpt 0 8 (nineSamples.source.bins 9)) := by
    change Packing.pack _ _ = _
    decide +kernel
  have last : single.Repacks nineSamples.source (excerpt 8 1 (nineSamples.source.bins 9)) := by
    change Packing.pack _ _ = _
    decide +kernel
  have firstThree : three.Repacks residuals.source (excerpt 0 3 (residuals.source.bins 9)) := by
    change Packing.pack _ _ = _
    decide +kernel
  have lastSix : six.Repacks residuals.source (excerpt 3 6 (residuals.source.bins 9)) := by
    change Packing.pack _ _ = _
    decide +kernel
  obtain ⟨-, -, atRegister⟩ := parts_update_like_whole nineSamples .ofLoss .logistic acceptable
    (by decide : 0 < 8) (by decide) (Or.inr (Or.inr (by decide))) first last
  obtain ⟨-, -, atThree⟩ := parts_update_like_whole residuals .general .squared acceptableResiduals
    (by decide : 0 < 3) (by decide) (Or.inr (Or.inl rfl)) firstThree lastSix
  exact ⟨acceptable, acceptableResiduals, by decide, by decide, first, last, firstThree, lastSix,
    atRegister, atThree⟩

end Batch

end Boosting
