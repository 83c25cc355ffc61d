/- Which updates are applied.
   The checks of an update form one list, and the first that fails decides the error. The list
   looks at every bin; leaving the scan out when no field can exceed the tensor makes no
   difference, because the mask of a field bounds its items. An update is applied exactly if no
   check fails, and a rejected one changes nothing. -/

import Boosting.Proofs.Packing.RoundTrip
import Boosting.Update.Apply

set_option autoImplicit false
set_option relaxedAutoImplicit false

namespace Boosting

structure Check where
  holds : Bool
  error : UpdateError

def firstFailure (checks : List Check) : Option UpdateError :=
  (checks.find? fun check => !check.holds).map Check.error

@[simp] theorem firstFailure_nil : firstFailure [] = none := rfl

private theorem firstFailure_cons (check : Check) (checks : List Check) :
    firstFailure (check :: checks) =
      if check.holds then firstFailure checks else some check.error := by
  unfold firstFailure
  cases holds : check.holds <;> simp [holds]

private theorem firstFailure_append (first later : List Check) :
    firstFailure (first ++ later) = (firstFailure first).or (firstFailure later) := by
  unfold firstFailure
  rw [List.find?_append]
  cases first.find? fun check => !check.holds <;> rfl

theorem firstFailure_eq_none_iff (checks : List Check) :
    firstFailure checks = none ↔ ∀ check ∈ checks, check.holds = true := by
  rw [firstFailure, Option.map_eq_none_iff, List.find?_eq_none]
  simp

namespace UpdatePath

def lossOf : UpdatePath → Loss → Loss
  | squared, _ => .squared
  | _, loss => loss

def needsScores : UpdatePath → Loss → Bool
  | squared, _ => false
  | general, _ => true
  | ofLoss, loss => loss.needsScores

end UpdatePath

/-- Whatever the path is called, an update is a squared one or a general one. -/
theorem Batch.squared_or_general (path : UpdatePath) (loss : Loss) :
    (path.needsScores loss = false ∧ path.lossOf loss = .squared ∧
        ∀ b : Batch, b.applyBy path loss = b.applySquared) ∨
      path.needsScores loss = true ∧ path.lossOf loss = loss ∧
        ∀ b : Batch, b.applyBy path loss = b.applyGeneral loss := by
  cases path with
  | squared => exact Or.inl ⟨rfl, rfl, fun _ => rfl⟩
  | general => exact Or.inr ⟨rfl, rfl, fun _ => rfl⟩
  | ofLoss =>
    cases loss with
    | squared => exact Or.inl ⟨rfl, rfl, fun _ => rfl⟩
    | pseudoHuber huber => exact Or.inr ⟨rfl, rfl, fun _ => rfl⟩
    | logistic => exact Or.inr ⟨rfl, rfl, fun _ => rfl⟩

/-- The checks of packed bins. The scan is always made. -/
def BinSource.checks (source : BinSource) (samples cells : Nat) : List Check :=
  match source with
  | scalar => []
  | packed words items =>
    let bins := source.bins samples
    [⟨Packing.validItems items, .invalidItems items⟩,
      ⟨Packing.wordCount samples items ≤ words.length,
        .packedTooShort words.length (Packing.wordCount samples items)⟩,
      ⟨bins.all fun bin => bin < cells, .binOutOfRange (bins.max?.getD 0) cells⟩]

namespace Batch

def lengthCheck? (samples : Nat) (named : SampleBuffer × Option (List Single)) : Option Check :=
  named.2.map fun buffer =>
    ⟨buffer.length = samples, .lengthMismatch named.1 samples buffer.length⟩

def lengthChecks (b : Batch) : List Check :=
  b.optionalBuffers.filterMap (lengthCheck? b.samples)

def tensorChecks (b : Batch) : List Check :=
  ⟨!b.tensor.isEmpty, .emptyTensor⟩ :: b.source.checks b.samples b.tensor.length

def pathChecks (b : Batch) (loss : Loss) (needsScores : Bool) : List Check :=
  [⟨b.buffers.hessians.isNone || loss.hasHessian, .hessianUnsupported loss⟩,
    ⟨b.buffers.scores.isSome || !needsScores, .missingScores loss⟩,
    ⟨b.targets.isSome || !needsScores, .missingTargets loss⟩]

/-- All checks of an update in their order. Without samples only lengths are checked. -/
def checks (b : Batch) (loss : Loss) (needsScores : Bool) : List Check :=
  b.lengthChecks ++ if b.samples = 0 then [] else b.tensorChecks ++ b.pathChecks loss needsScores

private def verdict : Option UpdateError → Except UpdateError Unit
  | none => .ok ()
  | some e => .error e

private theorem verdict_cons (check : Check) (checks : List Check) :
    verdict (firstFailure (check :: checks)) =
      if check.holds then verdict (firstFailure checks) else .error check.error := by
  rw [firstFailure_cons]
  cases check.holds <;> rfl

private theorem verdict_append (first later : List Check) :
    verdict (firstFailure (first ++ later)) =
      match verdict (firstFailure first) with
      | .error e => .error e
      | .ok () => verdict (firstFailure later) := by
  rw [firstFailure_append]
  cases firstFailure first <;> rfl

private theorem checkLengths_eq (n : Nat) (buffers : List (SampleBuffer × Option (List Single))) :
    checkLengths n buffers = verdict (firstFailure (buffers.filterMap (lengthCheck? n))) := by
  induction buffers with
  | nil => rfl
  | cons named buffers ih =>
    obtain ⟨name, buffer⟩ := named
    cases buffer with
    | none => exact ih
    | some buffer =>
      have checked : lengthCheck? n (name, some buffer) =
          some ⟨buffer.length = n, .lengthMismatch name n buffer.length⟩ := rfl
      rw [checkLengths, List.filterMap_cons_some checked, verdict_cons, ih]
      by_cases fits : buffer.length = n
      · rw [if_neg (not_not_intro fits), if_pos (decide_eq_true fits)]
      · rw [if_pos fits, if_neg (by simpa using fits)]

private theorem all_inside_iff (bins : List Nat) (cells : Nat) :
    (bins.all fun bin => bin < cells) = true ↔ ∀ bin ∈ bins, bin < cells := by
  simp only [List.all_eq_true, decide_eq_true_eq]

/-- The scan of the bins says the same whether it is made or left out. -/
theorem scan_eq {items : Nat} (valid : Packing.validItems items = true)
    (words : List Word) (samples cells : Nat) :
    (if cells ≤ (Packing.lowMask (Packing.fieldBits items)).toNat then
        match (Packing.unpack words items samples).max? with
        | some bin => if cells ≤ bin then .error (.binOutOfRange bin cells) else .ok ()
        | none => .ok ()
      else .ok () : Except UpdateError Unit) =
      if (Packing.unpack words items samples).all fun bin => bin < cells then .ok ()
      else .error (.binOutOfRange ((Packing.unpack words items samples).max?.getD 0) cells) := by
  have bounded : ∀ bin ∈ Packing.unpack words items samples,
      bin ≤ (Packing.lowMask (Packing.fieldBits items)).toNat := fun bin member =>
    Packing.le_lowMask_of_mem_unpack valid member
  generalize Packing.unpack words items samples = bins at bounded ⊢
  by_cases reach : cells ≤ (Packing.lowMask (Packing.fieldBits items)).toNat
  · rw [if_pos reach]
    cases largest : bins.max? with
    | none =>
      rw [List.max?_eq_none_iff.mp largest]
      rfl
    | some bin =>
      obtain ⟨member, most⟩ := List.max?_eq_some_iff.mp largest
      by_cases outside : cells ≤ bin
      · have fails : ¬ (bins.all fun bin => bin < cells) = true := by
          rw [all_inside_iff]
          intro inside
          exact absurd (inside bin member) (Nat.not_lt.mpr outside)
        rw [if_neg fails]
        exact if_pos outside
      · have all : (bins.all fun bin => bin < cells) = true := by
          rw [all_inside_iff]
          intro other inBins
          exact lt_of_le_of_lt (most other inBins) (Nat.lt_of_not_le outside)
        rw [if_pos all]
        exact if_neg outside
  · have all : (bins.all fun bin => bin < cells) = true := by
      rw [all_inside_iff]
      intro bin member
      exact lt_of_le_of_lt (bounded bin member) (Nat.lt_of_not_le reach)
    rw [if_neg reach, if_pos all]

private theorem validate_source_eq (source : BinSource) (samples cells : Nat) :
    source.validate samples cells = verdict (firstFailure (source.checks samples cells)) := by
  cases source with
  | scalar => rfl
  | packed words items =>
    rw [BinSource.validate, BinSource.checks, verdict_cons, verdict_cons, verdict_cons]
    cases valid : Packing.validItems items with
    | false => rfl
    | true =>
      by_cases short : words.length < Packing.wordCount samples items
      · have fails : decide (Packing.wordCount samples items ≤ words.length) = false :=
          decide_eq_false (Nat.not_le.mpr short)
        simp only [short, fails, Bool.not_true, Bool.false_eq_true, if_true, if_false]
      · have enough : decide (Packing.wordCount samples items ≤ words.length) = true :=
          decide_eq_true (Nat.le_of_not_lt short)
        simp only [short, enough, Bool.not_true, Bool.false_eq_true, if_true, if_false]
        exact scan_eq valid words samples cells

private theorem validate_eq (b : Batch) :
    b.validate =
      verdict (firstFailure (b.lengthChecks ++ if b.samples = 0 then [] else b.tensorChecks)) := by
  rw [validate, checkLengths_eq, verdict_append, lengthChecks]
  by_cases empty : b.samples = 0
  · simp only [empty, if_true]
    rfl
  · simp only [empty, if_false]
    rw [tensorChecks, verdict_cons, validate_source_eq]
    cases b.tensor.isEmpty <;> rfl

def Settles (b : Batch) (failure : Option UpdateError) (r : UpdateResult) : Prop :=
  match failure with
  | some e => r = b.reject e
  | none => ∃ metric, r.ending = .ok (b.reported metric)

private theorem moveSquared_settles (b : Batch) :
    b.Settles (firstFailure (b.pathChecks .squared false)) b.moveSquared := by
  rw [moveSquared, pathChecks]
  cases b.buffers.hessians with
  | none => simp [firstFailure_cons, Loss.hasHessian, Settles]
  | some hessians => simp [firstFailure_cons, Loss.hasHessian, Settles]

private theorem moveGeneral_settles (b : Batch) (loss : Loss) :
    b.Settles (firstFailure (b.pathChecks loss true)) (b.moveGeneral loss) := by
  have complement : (b.buffers.hessians.isNone || loss.hasHessian) =
      !(b.buffers.hessians.isSome && !loss.hasHessian) := by
    cases b.buffers.hessians <;> cases loss.hasHessian <;> rfl
  rw [moveGeneral, pathChecks, complement]
  simp only [firstFailure_cons, firstFailure_nil]
  cases b.buffers.hessians.isSome && !loss.hasHessian with
  | true => exact rfl
  | false =>
    cases b.buffers.scores with
    | none => exact rfl
    | some scores =>
      cases b.targets with
      | none => exact rfl
      | some targets => exact ⟨_, rfl⟩

theorem applyWith_result (b : Batch) (loss : Loss) (move : Batch → UpdateResult) :
    (b.applyWith loss move).result =
      match b.validate with
      | .error e => b.reject e
      | .ok () =>
        if b.samples = 0 then ⟨.ok (b.reported (.zero false)), b.buffers⟩ else move b := by
  rw [applyWith]
  cases b.validate with
  | error e => rfl
  | ok _ =>
    by_cases empty : b.samples = 0
    · rw [if_pos empty, if_pos empty]
    · rw [if_neg empty, if_neg empty]
      dsimp only
      split <;> rfl

private theorem applyWith_settles (b : Batch) (loss : Loss) (needsScores : Bool)
    {move : Batch → UpdateResult}
    (moves : b.Settles (firstFailure (b.pathChecks loss needsScores)) (move b)) :
    b.Settles (firstFailure (b.checks loss needsScores)) (b.applyWith loss move).result := by
  have split : b.checks loss needsScores =
      (b.lengthChecks ++ if b.samples = 0 then [] else b.tensorChecks) ++
        if b.samples = 0 then [] else b.pathChecks loss needsScores := by
    rw [checks]
    by_cases empty : b.samples = 0
    · simp only [empty, if_true, List.append_nil]
    · simp only [empty, if_false, List.append_assoc]
  rw [split, firstFailure_append, applyWith_result, validate_eq]
  cases firstFailure (b.lengthChecks ++ if b.samples = 0 then [] else b.tensorChecks) with
  | some e => exact rfl
  | none =>
    simp only [verdict, Option.none_or]
    by_cases empty : b.samples = 0
    · simp only [empty, if_true]
      exact ⟨_, rfl⟩
    · simp only [empty, if_false]
      exact moves

/-- An update by any path ends as the first failure among its checks says. -/
theorem applyBy_settles (b : Batch) (path : UpdatePath) (loss : Loss) :
    b.Settles (firstFailure (b.checks (path.lossOf loss) (path.needsScores loss)))
      (b.applyBy path loss).result := by
  rcases squared_or_general path loss with
    ⟨needsScores, lossOf, isSquared⟩ | ⟨needsScores, lossOf, isGeneral⟩
  · rw [needsScores, lossOf, isSquared]
    exact applyWith_settles b .squared false (moveSquared_settles b)
  · rw [needsScores, lossOf, isGeneral]
    exact applyWith_settles b loss true (moveGeneral_settles b loss)

end Batch

/-- Bins that an update of `samples` samples by a tensor of `cells` cells can use: there are enough
words of a possible layout, and every bin is the index of a cell. -/
def BinSource.Covers (source : BinSource) (samples cells : Nat) : Prop :=
  match source with
  | scalar => True
  | packed words items =>
    (1 ≤ items ∧ items ≤ 64) ∧ (samples + (items - 1)) / items ≤ words.length ∧
      ∀ bin ∈ source.bins samples, bin < cells

/-- What an update of at least one sample needs beside buffers of the right lengths. -/
structure Batch.Complete (b : Batch) (loss : Loss) (needsScores : Bool) : Prop where
  tensor : b.tensor ≠ []
  bins : b.source.Covers b.samples b.tensor.length
  hessians : b.buffers.hessians ≠ none → loss.hasHessian = true
  scores : needsScores = true → b.buffers.scores ≠ none
  targets : needsScores = true → b.targets ≠ none

structure Batch.Acceptable (b : Batch) (loss : Loss) (needsScores : Bool) : Prop where
  lengths : ∀ named ∈ b.optionalBuffers, ∀ buffer ∈ named.2, buffer.length = b.samples
  complete : b.samples ≠ 0 → b.Complete loss needsScores

namespace BinSource

private theorem checks_hold_iff (source : BinSource) (samples cells : Nat) :
    (∀ check ∈ source.checks samples cells, check.holds = true) ↔ source.Covers samples cells := by
  cases source with
  | scalar => simp [checks, Covers]
  | packed words items =>
    simp only [checks, Covers, List.forall_mem_cons, List.not_mem_nil, IsEmpty.forall_iff,
      implies_true, and_true, Packing.validItems_iff, decide_eq_true_eq, List.all_eq_true]
    exact Iff.rfl

private theorem length_bins {source : BinSource} {samples cells : Nat}
    (covers : source.Covers samples cells) : (source.bins samples).length = samples := by
  cases source with
  | scalar => exact List.length_replicate
  | packed words items =>
    obtain ⟨valid, enough, -⟩ := covers
    rw [bins, Packing.length_unpack ((Packing.validItems_iff items).mpr valid)]
    exact Packing.available_eq valid.1 enough

theorem covers_of_pack {bins : List Nat} {words : List Word} {items cells : Nat}
    (packed : Packing.pack bins items = .ok words) (below : ∀ bin ∈ bins, bin < cells) :
    (BinSource.packed words items).Covers bins.length cells := by
  obtain ⟨valid, -, fields⟩ := (Packing.pack_eq_ok_iff _ _ _).mp packed
  obtain ⟨pos, most⟩ := (Packing.validItems_iff _).mp valid
  have length := Packing.length_packFields pos bins
  rw [fields] at length
  refine ⟨⟨pos, most⟩, Nat.le_of_eq length.symm, ?_⟩
  rw [BinSource.bins, Packing.unpack_of_pack packed]
  exact below

end BinSource

namespace Batch

private theorem lengthChecks_hold_iff (b : Batch) :
    (∀ check ∈ b.lengthChecks, check.holds = true) ↔
      ∀ named ∈ b.optionalBuffers, ∀ buffer ∈ named.2, buffer.length = b.samples := by
  constructor
  · intro hold named member buffer present
    have checked : lengthCheck? b.samples named =
        some ⟨buffer.length = b.samples, .lengthMismatch named.1 b.samples buffer.length⟩ := by
      rw [lengthCheck?, present]
      rfl
    have holds := hold _ (List.mem_filterMap.mpr ⟨named, member, checked⟩)
    exact of_decide_eq_true holds
  · intro lengths check member
    obtain ⟨named, inBuffers, checked⟩ := List.mem_filterMap.mp member
    obtain ⟨buffer, present, rfl⟩ := Option.map_eq_some_iff.mp checked
    exact decide_eq_true (lengths named inBuffers buffer present)

private theorem pathChecks_hold_iff (b : Batch) (loss : Loss) (needsScores : Bool) :
    (∀ check ∈ b.pathChecks loss needsScores, check.holds = true) ↔
      (b.buffers.hessians ≠ none → loss.hasHessian = true) ∧
        (needsScores = true → b.buffers.scores ≠ none) ∧
        (needsScores = true → b.targets ≠ none) := by
  simp only [pathChecks, List.forall_mem_cons, List.not_mem_nil, IsEmpty.forall_iff, implies_true,
    and_true]
  cases b.buffers.hessians <;> cases b.buffers.scores <;> cases b.targets <;>
    cases needsScores <;> simp

private theorem tensorChecks_hold_iff (b : Batch) :
    (∀ check ∈ b.tensorChecks, check.holds = true) ↔
      b.tensor ≠ [] ∧ b.source.Covers b.samples b.tensor.length := by
  rw [tensorChecks, List.forall_mem_cons, BinSource.checks_hold_iff]
  simp

theorem checks_hold_iff (b : Batch) (loss : Loss) (needsScores : Bool) :
    (∀ check ∈ b.checks loss needsScores, check.holds = true) ↔ b.Acceptable loss needsScores := by
  rw [checks, List.forall_mem_append, lengthChecks_hold_iff]
  by_cases empty : b.samples = 0
  · rw [if_pos empty]
    constructor
    · rintro ⟨lengths, -⟩
      exact ⟨lengths, fun nonempty => absurd empty nonempty⟩
    · rintro ⟨lengths, -⟩
      exact ⟨lengths, List.forall_mem_nil _⟩
  · rw [if_neg empty, List.forall_mem_append, tensorChecks_hold_iff, pathChecks_hold_iff]
    constructor
    · rintro ⟨lengths, ⟨tensor, bins⟩, hessians, scores, targets⟩
      exact ⟨lengths, fun _ => ⟨tensor, bins, hessians, scores, targets⟩⟩
    · rintro ⟨lengths, complete⟩
      obtain ⟨tensor, bins, hessians, scores, targets⟩ := complete empty
      exact ⟨lengths, ⟨tensor, bins⟩, hessians, scores, targets⟩

theorem covers_of_validate {b : Batch} (valid : b.validate = .ok ()) (nonempty : b.samples ≠ 0) :
    b.tensor ≠ [] ∧ b.source.Covers b.samples b.tensor.length := by
  rw [validate_eq, if_neg nonempty, firstFailure_append] at valid
  refine (tensorChecks_hold_iff b).mp ((firstFailure_eq_none_iff _).mp ?_)
  cases lengths : firstFailure b.lengthChecks with
  | some e =>
    rw [lengths] at valid
    cases valid
  | none =>
    rw [lengths, Option.none_or] at valid
    cases failure : firstFailure b.tensorChecks with
    | none => rfl
    | some e =>
      rw [failure] at valid
      cases valid

theorem forall_optionalBuffers_iff (b : Batch) (length : List Single → Prop) :
    (∀ named ∈ b.optionalBuffers, ∀ buffer ∈ named.2, length buffer) ↔
      (∀ buffer ∈ b.buffers.hessians, length buffer) ∧
        (∀ buffer ∈ b.buffers.scores, length buffer) ∧
        (∀ buffer ∈ b.targets, length buffer) ∧ ∀ buffer ∈ b.weights, length buffer := by
  simp only [optionalBuffers, List.forall_mem_cons, List.not_mem_nil, IsEmpty.forall_iff,
    implies_true, and_true]

theorem Acceptable.length_scores {b : Batch} {loss : Loss} {needsScores : Bool}
    {scores : List Single} (acceptable : b.Acceptable loss needsScores)
    (hasScores : b.buffers.scores = some scores) : scores.length = b.samples := by
  obtain ⟨-, ofScores, -⟩ := (b.forall_optionalBuffers_iff _).mp acceptable.lengths
  exact ofScores scores hasScores

theorem Acceptable.exists_scores {b : Batch} {loss : Loss} (acceptable : b.Acceptable loss true)
    (nonempty : b.samples ≠ 0) :
    ∃ scores targets, b.buffers.scores = some scores ∧ b.targets = some targets := by
  obtain ⟨-, -, -, needsScores, needsTargets⟩ := acceptable.complete nonempty
  obtain ⟨scores, hasScores⟩ := Option.ne_none_iff_exists'.mp (needsScores rfl)
  obtain ⟨targets, hasTargets⟩ := Option.ne_none_iff_exists'.mp (needsTargets rfl)
  exact ⟨scores, targets, hasScores, hasTargets⟩

theorem accepted_or_rejected (b : Batch) (path : UpdatePath) (loss : Loss) :
    (b.Acceptable (path.lossOf loss) (path.needsScores loss) ∧
        ∃ metric, (b.applyBy path loss).result.ending = .ok (b.reported metric)) ∨
      ∃ e, firstFailure (b.checks (path.lossOf loss) (path.needsScores loss)) = some e ∧
        (b.applyBy path loss).result = b.reject e := by
  have settles := b.applyBy_settles path loss
  cases failure : firstFailure (b.checks (path.lossOf loss) (path.needsScores loss)) with
  | none =>
    rw [failure] at settles
    exact Or.inl ⟨(checks_hold_iff b _ _).mp ((firstFailure_eq_none_iff _).mp failure), settles⟩
  | some e =>
    rw [failure] at settles
    exact Or.inr ⟨e, rfl, settles⟩

theorem Acceptable.validate_eq_ok {b : Batch} {loss : Loss} {needsScores : Bool}
    (acceptable : b.Acceptable loss needsScores) : b.validate = .ok () := by
  have hold := (checks_hold_iff b loss needsScores).mpr acceptable
  have passes : ∀ check ∈ b.lengthChecks ++ if b.samples = 0 then [] else b.tensorChecks,
      check.holds = true := by
    intro check member
    apply hold
    rw [checks, List.mem_append]
    rw [List.mem_append] at member
    rcases member with inLengths | inTensor
    · exact Or.inl inLengths
    · by_cases empty : b.samples = 0
      · rw [if_pos empty] at inTensor
        cases inTensor
      · rw [if_neg empty] at inTensor ⊢
        exact Or.inr (List.mem_append_left _ inTensor)
  rw [validate_eq, (firstFailure_eq_none_iff _).mpr passes, verdict]

theorem Acceptable.bins_lt {b : Batch} {loss : Loss} {needsScores : Bool}
    (acceptable : b.Acceptable loss needsScores) :
    (b.source.bins b.samples).length = b.samples ∧
      ∀ bin ∈ b.source.bins b.samples, bin < b.tensor.length := by
  by_cases empty : b.samples = 0
  · have noBins : b.source.bins 0 = [] := by cases b.source <;> rfl
    rw [empty, noBins]
    exact ⟨rfl, List.forall_mem_nil _⟩
  · obtain ⟨tensor, bins, -, -, -⟩ := acceptable.complete empty
    refine ⟨BinSource.length_bins bins, ?_⟩
    cases source : b.source with
    | scalar =>
      intro bin member
      rw [List.eq_of_mem_replicate member]
      exact List.length_pos_iff.mpr tensor
    | packed words items =>
      rw [source] at bins
      exact bins.2.2

private theorem largest_of_scan_fails {bins : List Nat} {cells : Nat}
    (fails : (bins.all fun bin => bin < cells) = false) :
    cells ≤ bins.max?.getD 0 ∧ bins.max? = some (bins.max?.getD 0) := by
  cases largest : bins.max? with
  | none =>
    rw [List.max?_eq_none_iff.mp largest] at fails
    cases fails
  | some bin =>
    obtain ⟨-, most⟩ := List.max?_eq_some_iff.mp largest
    refine ⟨?_, rfl⟩
    by_contra inside
    have all : (bins.all fun bin => bin < cells) = true := by
      rw [all_inside_iff]
      intro other member
      exact lt_of_le_of_lt (most other member) (Nat.lt_of_not_le inside)
    rw [all] at fails
    cases fails

private theorem largest_of_mem_checks {b : Batch} {bin cells : Nat} (loss : Loss)
    (needsScores : Bool)
    (member : ⟨false, .binOutOfRange bin cells⟩ ∈ b.checks loss needsScores) :
    cells = b.tensor.length ∧ cells ≤ bin ∧ (b.source.bins b.samples).max? = some bin := by
  rw [checks, List.mem_append] at member
  rcases member with inLengths | member
  · obtain ⟨named, -, checked⟩ := List.mem_filterMap.mp inLengths
    obtain ⟨buffer, -, made⟩ := Option.map_eq_some_iff.mp checked
    have error := congrArg Check.error made
    cases error
  · split at member
    · cases member
    · rw [List.mem_append, tensorChecks, List.mem_cons] at member
      rcases member with (made | inSource) | inPath
      · have error := congrArg Check.error made
        cases error
      · cases source : b.source with
        | scalar =>
          rw [source] at inSource
          cases inSource
        | packed words items =>
          rw [source] at inSource
          simp only [BinSource.checks, List.mem_cons, Check.mk.injEq, reduceCtorEq, and_false,
            UpdateError.binOutOfRange.injEq, List.not_mem_nil, or_false, false_or] at inSource
          obtain ⟨fails, rfl, rfl⟩ := inSource
          exact ⟨rfl, largest_of_scan_fails fails.symm⟩
      · simp [pathChecks] at inPath

theorem largest_of_firstFailure {b : Batch} {bin cells : Nat} {loss : Loss} {needsScores : Bool}
    (failure : firstFailure (b.checks loss needsScores) = some (.binOutOfRange bin cells)) :
    cells = b.tensor.length ∧ cells ≤ bin ∧ (b.source.bins b.samples).max? = some bin := by
  obtain ⟨check, found, error⟩ := Option.map_eq_some_iff.mp failure
  have member := List.mem_of_find?_eq_some found
  have fails : check.holds = false := by simpa using List.find?_some found
  refine largest_of_mem_checks loss needsScores ?_
  rw [← error, ← fails]
  exact member

end Batch

end Boosting
